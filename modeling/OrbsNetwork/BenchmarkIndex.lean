import OrbsNetwork.BenchmarkConsensus
/-!
# BenchmarkIndex — how far the log is processed, when handlers overlap

`onCommitted` reads the commit index, awaits the entries up to it and the commit of each of them, and then writes that
index to `benchmarkIndex`.  Every `committed` event starts one, and nothing makes a handler wait for the one before it;
so one that ends after a later one has ended takes `benchmarkIndex` back to its own index.

Whether the block builder commits an entry or throws changes nothing here, so a commit is just waited for.
-/
namespace Orbs
namespace BenchmarkIndex

open BenchmarkConsensus (getBlocks)

/-- Where a handler is. -/
inductive Phase where
  /-- It awaits `getBlocks(benchmarkIndex, benchmarkCommitIndex + 1)`, with the index that it has passed. -/
  | getBlocks (benchmarkIndex : ℤ)
  /-- It commits the entries, the first of them at the moment. -/
  | commitBlock (entries : List WireBlock)
  | ended

structure Handler where
  benchmarkCommitIndex : ℤ
  phase : Phase

structure State where
  /-- The committed part of the gaggle log. -/
  log : List WireBlock
  /-- Events that no handler has taken yet. -/
  committed : ℕ
  benchmarkIndex : ℤ
  /-- The handlers that found something to do, in the order in which they started. -/
  handlers : List Handler

inductive Action where
  /-- The commit index moves past these entries, and a `committed` event says so. -/
  | commit (batch : List WireBlock)
  /-- The handler of the next event starts. -/
  | onCommitted
  /-- Gaggle answers the `getBlocks` of a handler. -/
  | getBlocks (i : ℕ)
  /-- A handler turns to its next entry, or ends. -/
  | next (i : ℕ)

namespace State

def getCommitIndex (s : State) : ℤ := s.log.length - 1

def setHandler (s : State) (i : ℕ) (h : Handler) : State := { s with handlers := s.handlers.set i h }

end State

def step (s : State) : Action → Option State
  | .commit batch => some { s with log := s.log ++ batch, committed := s.committed + 1 }
  | .onCommitted =>
    if s.committed = 0 then none
    else
      let benchmarkCommitIndex := s.getCommitIndex
      let handlers := if s.benchmarkIndex < benchmarkCommitIndex then
        s.handlers ++ [{ benchmarkCommitIndex, phase := .getBlocks s.benchmarkIndex }] else s.handlers
      some { s with committed := s.committed - 1, handlers }
  | .getBlocks i => match s.handlers[i]? with
    | some { benchmarkCommitIndex, phase := .getBlocks benchmarkIndex } =>
      let entries := getBlocks s.log benchmarkIndex (benchmarkCommitIndex + 1)
      some (s.setHandler i { benchmarkCommitIndex, phase := .commitBlock entries })
    | _ => none
  | .next i => match s.handlers[i]? with
    | some { benchmarkCommitIndex, phase := .commitBlock (_ :: entries) } =>
      some (s.setHandler i { benchmarkCommitIndex, phase := .commitBlock entries })
    | some { benchmarkCommitIndex, phase := .commitBlock [] } =>
      some { s.setHandler i { benchmarkCommitIndex, phase := .ended } with benchmarkIndex := benchmarkCommitIndex }
    | _ => none

def start : State := { log := [], committed := 0, benchmarkIndex := -1, handlers := [] }

/-- Every event has had its handler, and every handler has ended. -/
def State.Finished (s : State) : Prop := s.committed = 0 ∧ ∀ h ∈ s.handlers, h.phase = .ended

/-- The step does not take `benchmarkIndex` back, and once all handlers have ended it is the last commit index. -/
def Forward (s : State) (a : Action) : Prop :=
  ∀ s', step s a = some s' → s.benchmarkIndex ≤ s'.benchmarkIndex ∧
    (s'.Finished → s'.benchmarkIndex = s'.getCommitIndex)

/-- A handler does not end after one that had read a higher commit index. -/
def InOrder (s : State) : Action → Prop
  | .next i => ∀ h, s.handlers[i]? = some h → h.phase = .commitBlock [] →
      ∀ h' ∈ s.handlers, h'.phase = .ended → h'.benchmarkCommitIndex ≤ h.benchmarkCommitIndex
  | _ => True

/-! ## The invariant of runs in order -/

structure Inv (s : State) : Prop where
  /-- `benchmarkIndex` is the highest index of a handler that has ended. -/
  ended : ∀ h ∈ s.handlers, h.phase = .ended → h.benchmarkCommitIndex ≤ s.benchmarkIndex
  attained : s.benchmarkIndex = -1 ∨
    ∃ h ∈ s.handlers, h.phase = .ended ∧ h.benchmarkCommitIndex = s.benchmarkIndex
  bounds : ∀ h ∈ s.handlers, -1 ≤ h.benchmarkCommitIndex ∧ h.benchmarkCommitIndex ≤ s.getCommitIndex
  /-- When no event waits, some handler has read the last commit index. -/
  last : s.committed = 0 → s.benchmarkIndex = s.getCommitIndex ∨
    ∃ h ∈ s.handlers, h.phase ≠ .ended ∧ h.benchmarkCommitIndex = s.getCommitIndex

namespace Inv

variable {s : State}

theorem le_commitIndex (hs : Inv s) : s.benchmarkIndex ≤ s.getCommitIndex := by
  rcases hs.attained with h | ⟨h, hmem, -, he⟩
  · rw [h, State.getCommitIndex]
    omega
  · rw [← he]
    exact (hs.bounds h hmem).2

theorem finished (hs : Inv s) (hf : s.Finished) : s.benchmarkIndex = s.getCommitIndex := by
  rcases hs.last hf.1 with h | ⟨h, hmem, hne, -⟩
  · exact h
  · exact absurd (hf.2 h hmem) hne

theorem commit (hs : Inv s) (batch : List WireBlock) :
    Inv { s with log := s.log ++ batch, committed := s.committed + 1 } := by
  refine ⟨hs.ended, hs.attained, fun h hmem => ⟨(hs.bounds h hmem).1, ?_⟩, fun h0 => absurd h0 (Nat.succ_ne_zero _)⟩
  have hle := (hs.bounds h hmem).2
  rw [State.getCommitIndex] at hle ⊢
  rw [List.length_append]
  omega

theorem onCommitted (hs : Inv s) : Inv { s with
    committed := s.committed - 1
    handlers := if s.benchmarkIndex < s.getCommitIndex then
      s.handlers ++ [{ benchmarkCommitIndex := s.getCommitIndex, phase := .getBlocks s.benchmarkIndex }]
      else s.handlers } := by
  have hle := hs.le_commitIndex
  have hlow : -1 ≤ s.getCommitIndex := by
    rw [State.getCommitIndex]
    omega
  by_cases hlt : s.benchmarkIndex < s.getCommitIndex
  · rw [if_pos hlt]
    refine ⟨fun h hmem he => ?_, ?_, fun h hmem => ?_, fun _ => .inr ?_⟩
    · rcases List.mem_append.1 hmem with hmem | hmem
      · exact hs.ended h hmem he
      · rw [List.mem_singleton.1 hmem] at he
        cases he
    · rcases hs.attained with h | ⟨h, hmem, he⟩
      · exact .inl h
      · exact .inr ⟨h, List.mem_append_left _ hmem, he⟩
    · rcases List.mem_append.1 hmem with hmem | hmem
      · exact hs.bounds h hmem
      · rw [List.mem_singleton.1 hmem]
        exact ⟨hlow, le_rfl⟩
    · exact ⟨_, List.mem_append_right _ List.mem_cons_self, nofun, rfl⟩
  · rw [if_neg hlt]
    exact ⟨hs.ended, hs.attained, hs.bounds, fun _ => .inl (le_antisymm hle (not_lt.1 hlt))⟩

theorem mem_setHandler {i : ℕ} {h h' : Handler} (hmem : h' ∈ (s.setHandler i h).handlers) : h' ∈ s.handlers ∨ h' = h :=
  List.mem_or_eq_of_mem_set hmem

/-- The other handlers stay. -/
theorem mem_setHandler_of_ne {i : ℕ} {h g : Handler} (hi : s.handlers[i]? = some h) (hg : g ∈ s.handlers) (hne : g ≠ h)
    (h' : Handler) : g ∈ (s.setHandler i h').handlers := by
  obtain ⟨j, hj⟩ := List.mem_iff_getElem?.1 hg
  have hij : i ≠ j := by
    rintro rfl
    exact hne (Option.some.inj (hj.symm.trans hi))
  refine List.mem_iff_getElem?.2 ⟨j, ?_⟩
  rw [State.setHandler, List.getElem?_set_ne hij, hj]

theorem setHandler_self {i : ℕ} {h : Handler} (hi : s.handlers[i]? = some h) (h' : Handler) :
    h' ∈ (s.setHandler i h').handlers := by
  obtain ⟨hlt, -⟩ := List.getElem?_eq_some_iff.1 hi
  exact List.mem_set hlt h'

/-- A handler that goes on keeps the index that it has read. -/
theorem advance (hs : Inv s) {i : ℕ} {h h' : Handler} (hi : s.handlers[i]? = some h) (hne : h.phase ≠ .ended)
    (hne' : h'.phase ≠ .ended) (hidx : h'.benchmarkCommitIndex = h.benchmarkCommitIndex) : Inv (s.setHandler i h') := by
  have hmem := List.mem_of_getElem? hi
  refine ⟨fun g hg he => ?_, ?_, fun g hg => ?_, fun h0 => ?_⟩
  · rcases mem_setHandler hg with hg | rfl
    · exact hs.ended g hg he
    · exact absurd he hne'
  · rcases hs.attained with h0 | ⟨g, hg, he, hval⟩
    · exact .inl h0
    · have hgh : g ≠ h := by
        rintro rfl
        exact hne he
      exact .inr ⟨g, mem_setHandler_of_ne hi hg hgh h', he, hval⟩
  · rcases mem_setHandler hg with hg | rfl
    · exact hs.bounds g hg
    · rw [hidx]
      exact hs.bounds h hmem
  · rcases hs.last h0 with h0 | ⟨g, hg, hgne, hval⟩
    · exact .inl h0
    · by_cases hgh : g = h
      · subst hgh
        exact .inr ⟨h', setHandler_self hi h', hne', hidx.trans hval⟩
      · exact .inr ⟨g, mem_setHandler_of_ne hi hg hgh h', hgne, hval⟩

/-- A handler that ends in order writes the highest index so far. -/
theorem finish (hs : Inv s) {i : ℕ} {h : Handler} (hi : s.handlers[i]? = some h) (hne : h.phase ≠ .ended)
    (hord : ∀ h' ∈ s.handlers, h'.phase = .ended → h'.benchmarkCommitIndex ≤ h.benchmarkCommitIndex) :
    Inv { s.setHandler i { h with phase := .ended } with benchmarkIndex := h.benchmarkCommitIndex } := by
  have hmem := List.mem_of_getElem? hi
  refine ⟨fun g hg he => ?_, .inr ?_, fun g hg => ?_, fun h0 => ?_⟩
  · rcases mem_setHandler hg with hg | rfl
    · exact hord g hg he
    · exact le_rfl
  · exact ⟨_, setHandler_self hi _, rfl, rfl⟩
  · rcases mem_setHandler hg with hg | rfl
    · exact hs.bounds g hg
    · exact hs.bounds h hmem
  · have hle : s.benchmarkIndex ≤ h.benchmarkCommitIndex := by
      rcases hs.attained with h1 | ⟨g, hg, he, hval⟩
      · rw [h1]
        exact (hs.bounds h hmem).1
      · rw [← hval]
        exact hord g hg he
    rcases hs.last h0 with h1 | ⟨g, hg, hgne, hval⟩
    · exact .inl (le_antisymm (hs.bounds h hmem).2 (h1 ▸ hle))
    · by_cases hgh : g = h
      · subst hgh
        exact .inl hval
      · exact .inr ⟨g, mem_setHandler_of_ne hi hg hgh _, hgne, hval⟩

end Inv

theorem inv_start : Inv start :=
  ⟨fun _ h => (List.not_mem_nil h).elim, .inl rfl, fun _ h => (List.not_mem_nil h).elim, fun _ => .inl rfl⟩

/-! ## What a step does -/

/-- What a step can do to the handlers and to `benchmarkIndex`. -/
theorem step_cases {s s' : State} {a : Action} (h : step s a = some s') :
    (∃ batch, a = .commit batch ∧ s' = { s with log := s.log ++ batch, committed := s.committed + 1 }) ∨
    (a = .onCommitted ∧ s' = { s with
      committed := s.committed - 1
      handlers := if s.benchmarkIndex < s.getCommitIndex then
        s.handlers ++ [{ benchmarkCommitIndex := s.getCommitIndex, phase := .getBlocks s.benchmarkIndex }]
        else s.handlers }) ∨
    (∃ i, (a = .getBlocks i ∨ a = .next i) ∧ ∃ g g', s.handlers[i]? = some g ∧ g.phase ≠ .ended ∧
      g.phase ≠ .commitBlock [] ∧ g'.phase ≠ .ended ∧ g'.benchmarkCommitIndex = g.benchmarkCommitIndex ∧
      s' = s.setHandler i g') ∨
    (∃ i g, a = .next i ∧ s.handlers[i]? = some g ∧ g.phase = .commitBlock [] ∧
      s' = { s.setHandler i { g with phase := .ended } with benchmarkIndex := g.benchmarkCommitIndex }) := by
  cases a with
  | commit batch =>
    cases h
    exact .inl ⟨batch, rfl, rfl⟩
  | onCommitted =>
    rw [step] at h
    split at h
    · cases h
    · cases h
      exact .inr (.inl ⟨rfl, rfl⟩)
  | getBlocks i =>
    rw [step] at h
    split at h
    · rename_i hi
      cases h
      refine .inr (.inr (.inl ⟨i, .inl rfl, _, _, hi, nofun, nofun, ?_, ?_, rfl⟩))
      · nofun
      · rfl
    · cases h
  | next i =>
    rw [step] at h
    split at h
    · rename_i hi
      cases h
      refine .inr (.inr (.inl ⟨i, .inr rfl, _, _, hi, nofun, nofun, ?_, ?_, rfl⟩))
      · nofun
      · rfl
    · rename_i hi
      cases h
      exact .inr (.inr (.inr ⟨i, _, rfl, hi, rfl, rfl⟩))
    · cases h

/-- **A step in order keeps the invariant.** -/
theorem step_inv {s s' : State} {a : Action} (hs : Inv s) (hg : InOrder s a) (h : step s a = some s') : Inv s' := by
  rcases step_cases h with ⟨batch, -, rfl⟩ | ⟨-, rfl⟩ | ⟨i, -, g, g', hi, hne, -, hne', hidx, rfl⟩ |
    ⟨i, g, rfl, hi, hph, rfl⟩
  · exact hs.commit batch
  · exact hs.onCommitted
  · exact hs.advance hi hne hne' hidx
  · have hne : g.phase ≠ .ended := by
      rw [hph]
      nofun
    exact hs.finish hi hne (hg g hi hph)

/-- **A step moves forward exactly when it is in order.** -/
theorem forward_iff_inOrder {s : State} (hs : Inv s) (a : Action) : Forward s a ↔ InOrder s a := by
  constructor
  · intro hf
    cases a with
    | commit | onCommitted | getBlocks => trivial
    | next i =>
      intro h hi hph h' hmem he
      obtain ⟨benchmarkCommitIndex, phase⟩ := h
      cases hph
      have hstep : step s (.next i) = some { s.setHandler i { benchmarkCommitIndex, phase := .ended } with
          benchmarkIndex := benchmarkCommitIndex } := by
        rw [step, hi]
      exact (hs.ended h' hmem he).trans (hf _ hstep).1
  · intro hg s' h
    have hs' := step_inv hs hg h
    refine ⟨?_, hs'.finished⟩
    rcases step_cases h with ⟨batch, -, rfl⟩ | ⟨-, rfl⟩ | ⟨i, -, g, g', -, -, -, -, -, rfl⟩ | ⟨i, g, rfl, hi, hph, rfl⟩
    · exact le_rfl
    · exact le_rfl
    · exact le_rfl
    · rcases hs.attained with h1 | ⟨h', hmem, he, hval⟩
      · rw [h1]
        exact (hs.bounds g (List.mem_of_getElem? hi)).1
      · rw [← hval]
        exact hg g hi hph h' hmem he

/-- **`benchmarkIndex` only moves forward, and ends at the last commit index, exactly in the runs whose handlers end
in order.** -/
theorem forward_iff (as : List Action) : Lts.Meets step Forward start as ↔ Lts.Meets step InOrder start as :=
  Lts.meets_congr_of_inv (fun _ _ _ hs hg h => step_inv hs hg h) (fun _ a hs => forward_iff_inOrder hs a) inv_start

/-- The handler of the first entry waits while the handler of the second goes through both entries and ends. -/
def overtaken : List Action :=
  [.commit [BlockStorage.firstBlock [1]], .onCommitted, .commit [BlockStorage.firstBlock [2]], .onCommitted,
    .getBlocks 0, .getBlocks 1, .next 1, .next 1, .next 1, .next 0]

theorem run_overtaken : (Lts.run step start overtaken).map State.benchmarkIndex = some 1 ∧
    (Lts.run step start (overtaken ++ [.next 0])).map State.benchmarkIndex = some 0 := by
  decide +kernel

/-- **The overtaken handler takes `benchmarkIndex` back** from 1 to 0 when it ends. -/
theorem overtaken_goes_back : ¬ Lts.Meets step Forward start (overtaken ++ [.next 0]) := by
  intro hm
  obtain ⟨s, hs, h1⟩ := Option.map_eq_some_iff.1 run_overtaken.1
  obtain ⟨s', hs', h0⟩ := Option.map_eq_some_iff.1 run_overtaken.2
  rw [Lts.run_append, hs] at hs'
  have hstep : step s (.next 0) = some s' := by simpa [Lts.run] using hs'
  have hle := ((Lts.meets_append hm hs).2.1 s' hstep).1
  rw [h0, h1] at hle
  exact absurd hle (by decide)

end BenchmarkIndex
end Orbs
