import OrbsNetwork.BlockBuilder
/-!
# BlockBuilderPolling — the poll timer and the executions in flight

`start` sets the poll timer and `stop` clears it.  The timer calls `appendNextBlock`, which clears the timer first and
sets it again when it finds nothing to build or throws; none of this waits for, or cancels, an execution that awaits
its answers.

What it takes to have one execution at a time is that `start` and `appendNextBlock` are called only while none is in
flight (`one_build_at_a_time_iff`).  And a stopped builder stays stopped where no execution in flight fails
(`stays_stopped_iff`).
-/
namespace Orbs

namespace BlockBuilder

variable {sha256 : Bytes → Bytes}

/-- Which calls of `appendNextBlock` are in flight, in the order in which they began. -/
def State.live (s : State sha256) : List Bool := s.builds.map fun b => b.phase.live

/-- The action neither begins an execution nor ends one. -/
def Action.keepsLive : Action sha256 → Bool
  | .appendNextBlock | .build _ _ => false
  | _ => true

def Phase.block : Phase → Option Block
  | .handed block => some block
  | _ => none

end BlockBuilder

namespace Polling

open Js BlockStorage HashChain
open BlockBuilder (BlockBuilderConfig Answers Phase Build)

structure State (sha256 : Bytes → Bytes) where
  builder : BlockBuilder.State sha256
  /-- The executions that were in flight together, the earlier one first. -/
  overlaps : List (ℕ × ℕ)
  /-- How many executions had begun at the last call of `stop` or `shutdown`; none when `start` or `appendNextBlock`
  was called since. -/
  stopped : Option ℕ

inductive Action (sha256 : Bytes → Bytes) where
  /-- What `BlockBuilder.step` does; `start`, `stop` and `appendNextBlock` are calls from outside. -/
  | builder (a : BlockBuilder.Action sha256)
  | shutdown
  /-- The poll timer calls `appendNextBlock`. -/
  | tick
  /-- The storage's `getLastBlock` fails. -/
  | getLastBlockFailed (i : ℕ)
  /-- As `build`, with a `newBlockBuildCallback` that throws. -/
  | callbackThrew (i : ℕ) (answers : Answers)

variable {sha256 : Bytes → Bytes}

namespace State

def InFlight (s : State sha256) (i : ℕ) : Prop := s.builder.live[i]? = some true

instance (s : State sha256) : DecidablePred s.InFlight :=
  fun i => inferInstanceAs (Decidable (s.builder.live[i]? = some true))

def inFlight (s : State sha256) : List ℕ := (List.range s.builder.builds.length).filter fun i => s.InFlight i

def overlapsAfter (s : State sha256) : BlockBuilder.Action sha256 → List (ℕ × ℕ)
  | .appendNextBlock => s.overlaps ++ s.inFlight.map fun i => (i, s.builder.builds.length)
  | _ => s.overlaps

def stoppedAfter (s : State sha256) : BlockBuilder.Action sha256 → Option ℕ
  | .start | .appendNextBlock => none
  | .stop => some s.builder.builds.length
  | _ => s.stopped

/-- The block that an execution has given to `newBlockBuildCallback`. -/
def handed (s : State sha256) (i : ℕ) : Option Block := s.builder.builds[i]?.bind fun b => b.phase.block

end State

section
variable (config : BlockBuilderConfig) (storage : BlockStorageConfig)

def step (s : State sha256) : Action sha256 → Option (State sha256)
  | .builder a => (BlockBuilder.step config storage s.builder a).map fun builder =>
    { builder, overlaps := s.overlapsAfter a, stopped := s.stoppedAfter a }
  | .shutdown => some { s with
      builder := { s.builder with polling := false }
      stopped := some s.builder.builds.length }
  | .tick =>
    if s.builder.polling then
      (BlockBuilder.step config storage s.builder .appendNextBlock).map fun builder =>
        { s with builder, overlaps := s.overlapsAfter .appendNextBlock }
    else none
  | .getLastBlockFailed i => match s.builder.builds[i]? with
    | some { tips, phase := .fetching } => some { s with
        builder := BlockBuilder.State.setBuild { s.builder with polling := true } i { tips, phase := .ended } }
    | _ => none
  | .callbackThrew i answers => (BlockBuilder.step config storage s.builder (.build i answers)).map fun builder =>
    { s with builder := { builder with polling := true } }

end

def init : State sha256 := { builder := BlockBuilder.init, overlaps := [], stopped := none }

/-- At most one execution is in flight, and no two that were in flight together gave `newBlockBuildCallback` different
blocks on the same last block. -/
structure OneAtATime (s : State sha256) : Prop where
  inFlight : ∀ i j, s.InFlight i → s.InFlight j → i = j
  handed : ∀ p ∈ s.overlaps, ∀ b b', s.handed p.1 = some b → s.handed p.2 = some b' →
    b.header.height = b'.header.height → b.header.prevBlockHash = b'.header.prevBlockHash → b = b'

/-- `start` and `appendNextBlock` are called from outside only while no execution is in flight. -/
def CalledIdle (s : State sha256) : Action sha256 → Prop
  | .builder .start | .builder .appendNextBlock => ∀ i, ¬ s.InFlight i
  | _ => True

variable (config : BlockBuilderConfig) (storage : BlockStorageConfig) in
/-- After the step there is one execution at a time, and there still is when the poll timer fires next. -/
def KeepsOne (s : State sha256) (a : Action sha256) : Prop :=
  ∀ s', step config storage s a = some s' → OneAtATime s' ∧ ∀ s'', step config storage s' .tick = some s'' → OneAtATime s''

/-! ## What a step does to the timer and to the executions in flight -/

variable {config : BlockBuilderConfig} {storage : BlockStorageConfig}

theorem live_setChain (s : BlockBuilder.State sha256) (c : BlockChain sha256) : (s.setChain c).live = s.live := by
  simp only [BlockBuilder.State.live, BlockBuilder.State.setChain, List.map_map]
  exact List.map_congr_left fun b _ => congrArg Phase.live (b.observe_phase c.tip)

theorem live_setBuild (s : BlockBuilder.State sha256) (i : ℕ) (b : Build) :
    (s.setBuild i b).live = s.live.set i b.phase.live :=
  List.map_set

/-- What a step of the builder does: it leaves the executions, begins one, or ends one. -/
theorem builder_cases {s s' : BlockBuilder.State sha256} {a : BlockBuilder.Action sha256}
    (h : BlockBuilder.step config storage s a = some s') :
    (a.keepsLive = true ∧ s'.live = s.live ∧ (a = .start ∨ s'.polling = false ∨ s'.polling = s.polling)) ∨
    (a = .appendNextBlock ∧ s'.live = s.live ++ [true] ∧ s'.polling = false) ∨
    (∃ i answers, a = .build i answers ∧ s.live[i]? = some true ∧ s'.live = s.live.set i false) := by
  have hset : ∀ (t : BlockBuilder.State sha256) {i : ℕ} {b b' : Build}, t.builds[i]? = some b →
      b'.phase.live = b.phase.live → (t.setBuild i b').live = t.live := by
    intro t i b b' hi hb
    have hlive : t.live[i]? = some b'.phase.live := by
      rw [BlockBuilder.State.live, List.getElem?_map, hi, hb]
      rfl
    obtain ⟨hlt, hget⟩ := List.getElem?_eq_some_iff.1 hlive
    rw [live_setBuild, ← hget, List.set_getElem_self]
  cases a with
  | load chain =>
    rw [BlockBuilder.step] at h
    split at h <;> cases h
    exact .inl ⟨rfl, live_setChain s chain, .inr (.inr rfl)⟩
  | appendBlocks block =>
    obtain ⟨c, -, rfl⟩ := Option.map_eq_some_iff.1 h
    split
    · exact .inl ⟨rfl, live_setChain s _, .inr (.inr rfl)⟩
    · exact .inl ⟨rfl, rfl, .inr (.inr rfl)⟩
  | setSyncing isSyncing =>
    cases h
    exact .inl ⟨rfl, rfl, .inr (.inr rfl)⟩
  | start =>
    cases h
    exact .inl ⟨rfl, rfl, .inl rfl⟩
  | stop =>
    cases h
    exact .inl ⟨rfl, rfl, .inr (.inl rfl)⟩
  | appendNextBlock =>
    cases h
    refine .inr (.inl ⟨rfl, ?_, rfl⟩)
    rw [BlockBuilder.State.live, List.map_append]
    cases s.lastBlock <;> rfl
  | getLastBlock i =>
    rw [BlockBuilder.step] at h
    split at h <;> cases h
    rename_i hi
    exact .inl ⟨rfl, hset s hi rfl, .inr (.inr rfl)⟩
  | fetched i =>
    rw [BlockBuilder.step] at h
    split at h <;> cases h
    rename_i block hi
    exact .inl ⟨rfl, hset { s with lastBlock := block } hi rfl, .inr (.inr rfl)⟩
  | build i answers =>
    rw [BlockBuilder.step] at h
    split at h
    case h_2 => cases h
    rename_i hi
    refine .inr (.inr ⟨i, answers, rfl, ?_, ?_⟩)
    · rw [BlockBuilder.State.live, List.getElem?_map, hi]
      rfl
    · split at h <;> cases h <;> exact live_setBuild _ _ _
  | commitBlock block =>
    cases h
    exact .inl ⟨rfl, rfl, .inr (.inr rfl)⟩
  | addBlock j =>
    rw [BlockBuilder.step] at h
    split at h
    case h_2 => cases h
    split at h <;> cases h
    · exact .inl ⟨rfl, live_setChain s _, .inr (.inr rfl)⟩
    · exact .inl ⟨rfl, rfl, .inr (.inr rfl)⟩
  | committed j =>
    rw [BlockBuilder.step] at h
    split at h <;> cases h
    exact .inl ⟨rfl, rfl, .inr (.inr rfl)⟩

theorem step_cases {s s' : State sha256} {a : Action sha256} (h : step config storage s a = some s') :
    (s'.builder.live = s.builder.live ∧ s'.overlaps = s.overlaps ∧
      (a = .builder .start ∨ s'.builder.polling = false ∨ s'.builder.polling = s.builder.polling)) ∨
    ((a = .builder .appendNextBlock ∨ a = .tick ∧ s.builder.polling = true) ∧
      s'.builder.live = s.builder.live ++ [true] ∧ s'.builder.polling = false ∧
      s'.overlaps = s.overlaps ++ s.inFlight.map fun i => (i, s.builder.builds.length)) ∨
    (∃ i, s.InFlight i ∧ s'.builder.live = s.builder.live.set i false ∧ s'.overlaps = s.overlaps) := by
  cases a with
  | builder a =>
    obtain ⟨t, ht, rfl⟩ := Option.map_eq_some_iff.1 h
    rcases builder_cases ht with ⟨hkeep, hlive, hpoll⟩ | ⟨rfl, hlive, hpoll⟩ | ⟨i, answers, rfl, hi, hlive⟩
    · refine .inl ⟨hlive, ?_, hpoll.imp_left (congrArg Action.builder)⟩
      cases a <;> first | rfl | cases hkeep
    · exact .inr (.inl ⟨.inl rfl, hlive, hpoll, rfl⟩)
    · exact .inr (.inr ⟨i, hi, hlive, rfl⟩)
  | shutdown =>
    cases h
    exact .inl ⟨rfl, rfl, .inr (.inl rfl)⟩
  | tick =>
    rw [step] at h
    split at h
    case isFalse => cases h
    rename_i hpolling
    obtain ⟨t, ht, rfl⟩ := Option.map_eq_some_iff.1 h
    rcases builder_cases ht with ⟨hkeep, -⟩ | ⟨-, hlive, hpoll⟩ | ⟨i, answers, hne, -⟩
    · cases hkeep
    · exact .inr (.inl ⟨.inr ⟨rfl, hpolling⟩, hlive, hpoll, rfl⟩)
    · cases hne
  | getLastBlockFailed i =>
    rw [step] at h
    split at h <;> cases h
    rename_i tips hi
    refine .inr (.inr ⟨i, ?_, live_setBuild _ _ _, rfl⟩)
    rw [State.InFlight, BlockBuilder.State.live, List.getElem?_map, hi]
    rfl
  | callbackThrew i answers =>
    obtain ⟨t, ht, rfl⟩ := Option.map_eq_some_iff.1 h
    rcases builder_cases ht with ⟨hkeep, -⟩ | ⟨hne, -⟩ | ⟨j, answers, -, hj, hlive⟩
    · cases hkeep
    · cases hne
    · exact .inr (.inr ⟨j, hj, hlive, rfl⟩)

/-! ## One execution at a time -/

/-- The timer is not set while an execution is in flight, and none was ever in flight together with another. -/
structure Inv (s : State sha256) : Prop where
  inFlight : ∀ i j, s.InFlight i → s.InFlight j → i = j
  polling : ∀ i, s.InFlight i → s.builder.polling = false
  overlaps : s.overlaps = []

theorem inv_init : Inv (init : State sha256) :=
  ⟨fun _ _ h => absurd h (by simp [State.InFlight, init, BlockBuilder.init, BlockBuilder.State.live]),
    fun _ _ => rfl, rfl⟩

theorem Inv.oneAtATime {s : State sha256} (hs : Inv s) : OneAtATime s := by
  refine ⟨hs.inFlight, fun p hp => ?_⟩
  rw [hs.overlaps] at hp
  exact absurd hp List.not_mem_nil

theorem inFlight_append {s s' : State sha256} (h : s'.builder.live = s.builder.live ++ [true]) {i : ℕ} :
    s'.InFlight i ↔ s.InFlight i ∨ i = s.builder.live.length := by
  simp only [State.InFlight, h]
  rcases Nat.lt_trichotomy i s.builder.live.length with hlt | rfl | hgt
  · rw [List.getElem?_append_left hlt]
    exact (or_iff_left hlt.ne).symm
  · simp
  · rw [List.getElem?_eq_none (by simp; omega), List.getElem?_eq_none hgt.le]
    simp [hgt.ne']

theorem State.InFlight.of_set {s s' : State sha256} {i j : ℕ} (h : s'.builder.live = s.builder.live.set i false)
    (hj : s'.InFlight j) : s.InFlight j ∧ j ≠ i := by
  rw [State.InFlight, h] at hj
  by_cases hij : i = j
  · subst hij
    rw [List.getElem?_set_self'] at hj
    cases hi : s.builder.live[i]? <;> simp [hi] at hj
  · rw [List.getElem?_set_ne hij] at hj
    exact ⟨hj, Ne.symm hij⟩

/-- **A step that is called idle keeps one execution at a time**, whatever the timer does. -/
theorem step_inv {s s' : State sha256} {a : Action sha256} (hs : Inv s) (hg : CalledIdle s a)
    (h : step config storage s a = some s') : Inv s' := by
  rcases step_cases h with ⟨hlive, hov, hpoll⟩ | ⟨hbegin, hlive, hpoll, hov⟩ | ⟨i, hi, hlive, hov⟩
  · have hin : ∀ i, s'.InFlight i → s.InFlight i := by
      intro i hi
      rwa [State.InFlight, hlive] at hi
    refine ⟨fun i j hi hj => hs.inFlight i j (hin i hi) (hin j hj), fun i hi => ?_, hov.trans hs.overlaps⟩
    rcases hpoll with rfl | hp | hp
    · exact absurd (hin i hi) (hg i)
    · exact hp
    · exact hp.trans (hs.polling i (hin i hi))
  · have hidle : ∀ i, ¬ s.InFlight i := by
      rcases hbegin with rfl | ⟨rfl, hp⟩
      · exact hg
      · intro i hi
        rw [hs.polling i hi] at hp
        cases hp
    refine ⟨fun i j hi hj => ?_, fun _ _ => hpoll, ?_⟩
    · rw [inFlight_append hlive] at hi hj
      exact (hi.resolve_left (hidle i)).trans (hj.resolve_left (hidle j)).symm
    · have hnone : s.inFlight = [] := List.filter_eq_nil_iff.2 fun i _ => by simpa using hidle i
      rw [hov, hs.overlaps, hnone]
      rfl
  · have hnone : ∀ j, ¬ s'.InFlight j := fun j hj => (hj.of_set hlive).2 (hs.inFlight j i (hj.of_set hlive).1 hi)
    exact ⟨fun j _ hj => absurd hj (hnone j), fun j hj => absurd hj (hnone j), hov.trans hs.overlaps⟩

/-- Two executions are in flight once another begins. -/
theorem not_oneAtATime {s s' : State sha256} {i : ℕ} (hi : s.InFlight i)
    (hlive : s'.builder.live = s.builder.live ++ [true]) : ¬ OneAtATime s' := by
  intro h1
  have hlt := (List.getElem?_eq_some_iff.1 hi).1
  have heq := h1.inFlight i s.builder.live.length ((inFlight_append hlive).2 (.inl hi)) ((inFlight_append hlive).2 (.inr rfl))
  exact absurd heq hlt.ne

variable (config storage) in
theorem live_appendNextBlock (s : BlockBuilder.State sha256) :
    ∃ t, BlockBuilder.step config storage s .appendNextBlock = some t ∧ t.live = s.live ++ [true] := by
  refine ⟨_, rfl, ?_⟩
  rw [BlockBuilder.State.live, List.map_append]
  cases s.lastBlock <;> rfl

theorem exists_appendNextBlock (s : State sha256) : ∃ s', step config storage s (.builder .appendNextBlock) = some s' ∧
    s'.builder.live = s.builder.live ++ [true] := by
  obtain ⟨t, ht, hlive⟩ := live_appendNextBlock config storage s.builder
  refine ⟨⟨t, s.overlapsAfter .appendNextBlock, none⟩, ?_, hlive⟩
  rw [step, ht]
  rfl

theorem exists_tick {s : State sha256} (h : s.builder.polling = true) : ∃ s', step config storage s .tick = some s' ∧
    s'.builder.live = s.builder.live ++ [true] := by
  obtain ⟨t, ht, hlive⟩ := live_appendNextBlock config storage s.builder
  refine ⟨⟨t, s.overlapsAfter .appendNextBlock, s.stopped⟩, ?_, hlive⟩
  rw [step, if_pos h, ht]
  rfl

/-- **A step keeps one execution at a time, the next tick included, exactly when it is called idle.** -/
theorem keepsOne_iff {s : State sha256} (hs : Inv s) (a : Action sha256) :
    KeepsOne config storage s a ↔ CalledIdle s a := by
  constructor
  · intro hk
    rw [CalledIdle.eq_def]
    split
    · -- `start` sets the timer, and its tick begins an execution.
      intro i hi
      obtain ⟨s', htick, hlive⟩ := exists_tick (s := ⟨{ s.builder with polling := true }, s.overlaps, none⟩) rfl
      exact not_oneAtATime hi hlive ((hk _ rfl).2 s' htick)
    · intro i hi
      obtain ⟨s', hstep, hlive⟩ := exists_appendNextBlock s
      exact not_oneAtATime hi hlive (hk s' hstep).1
    · trivial
  · intro hg s' h
    have hs' := step_inv hs hg h
    exact ⟨hs'.oneAtATime, fun s'' h' => (step_inv (a := .tick) hs' trivial h').oneAtATime⟩

/-- **One block build at a time, wherever the timer may fire, exactly in the runs whose outside calls of `start` and
`appendNextBlock` come while no execution is in flight.** -/
theorem one_build_at_a_time_iff (config : BlockBuilderConfig) (storage : BlockStorageConfig)
    (as : List (Action sha256)) :
    Lts.Meets (step config storage) (KeepsOne config storage) init as ↔
      Lts.Meets (step config storage) CalledIdle init as :=
  Lts.meets_congr_of_inv (fun _ _ _ hs hg h => step_inv hs hg h) (fun _ a hs => keepsOne_iff hs a) inv_init

/-! ## A heartbeat while a build is in flight -/

def twoTransactions : Answers where
  getAllPendingTransactions := BlockBuilder.oneTransaction.getAllPendingTransactions.map fun entries => entries ++ entries
  processTransactionSet := .ok ([], [])

/-- A heartbeat calls `start` again while the first build is in flight. -/
def heartbeats : List (Action Sha256.hash) :=
  [.builder (.load Chain.nil), .builder .start, .tick, .builder .start, .tick,
    .builder (.getLastBlock 0), .builder (.getLastBlock 1), .builder (.fetched 0), .builder (.fetched 1),
    .builder (.build 0 BlockBuilder.oneTransaction), .builder (.build 1 twoTransactions)]

/-- Whether two executions gave the callback different blocks of one height on one block. -/
def State.handedTwo (s : State sha256) (i j : ℕ) : Option Bool :=
  (s.handed i).bind fun b => (s.handed j).map fun b' =>
    decide (b.header.height = b'.header.height ∧ b.header.prevBlockHash = b'.header.prevBlockHash ∧ b ≠ b')

theorem run_heartbeats : ((Lts.run (step BlockBuilder.builderConfig .unsigned) init heartbeats).map
    fun s => (s.overlaps, s.handedTwo 0 1)) = some ([(0, 1)], some true) := by
  decide +kernel

/-- **A heartbeat during a build starts another one**, and both give the callback a block on the genesis block. -/
theorem heartbeats_overlap : ∃ s, Lts.run (step BlockBuilder.builderConfig .unsigned) init heartbeats = some s ∧
    ¬ OneAtATime s := by
  obtain ⟨s, hs, heq⟩ := Option.map_eq_some_iff.1 run_heartbeats
  obtain ⟨hov, htwo⟩ := Prod.mk.inj heq
  obtain ⟨b, hb, htwo⟩ := Option.bind_eq_some_iff.1 htwo
  obtain ⟨b', hb', htwo⟩ := Option.map_eq_some_iff.1 htwo
  obtain ⟨hheight, hprev, hne⟩ := of_decide_eq_true htwo
  refine ⟨s, hs, fun h1 => hne (h1.handed (0, 1) ?_ b b' hb hb' hheight hprev)⟩
  rw [hov]
  exact List.mem_singleton_self _

/-! ## A stopped builder -/

/-- Since the last call of `stop` or `shutdown`, when no call of `start` or `appendNextBlock` came after it, the timer
is not set and no execution has begun. -/
def Stopped (s : State sha256) : Prop :=
  ∀ n, s.stopped = some n → s.builder.polling = false ∧ s.builder.builds.length = n

variable (config storage) in
/-- The step leaves a builder that is stopped, if it is to be stopped. -/
def StaysStopped (s : State sha256) (a : Action sha256) : Prop :=
  ∀ s', step config storage s a = some s' → Stopped s'

variable (sha256) in
/-- A build on these answers gives a block: the pool has a transaction, the virtual machine answers, and the key
manager signs, if it is to. -/
def Builds (config : BlockBuilderConfig) (lastBlock : Option Block) (answers : Answers) : Prop :=
  ∃ entries, answers.getAllPendingTransactions = .ok entries ∧ entries.take config.blockSizeLimit ≠ [] ∧
    ∃ receipts stateDiff, answers.processTransactionSet = .ok (receipts, stateDiff) ∧
      (config.sign = true → ∃ keyManager, config.keyManager = some keyManager ∧ ∃ signature,
        keyManager.sign (calculateBlockHash sha256 (buildNextBlock sha256
          { transactions := (entries.take config.blockSizeLimit).map TransactionEntry.transaction
            transactionReceipts := receipts, stateDiff } lastBlock)) = .ok signature)

variable (config) in
/-- While the builder is to be stopped, no execution in flight finds nothing to build, or fails. -/
def Undisturbed (s : State sha256) (a : Action sha256) : Prop :=
  s.stopped ≠ none → match a with
    | .builder (.build i answers) => ∀ tips lastBlock,
      s.builder.builds[i]? = some { tips, phase := .building lastBlock } → Builds sha256 config lastBlock answers
    | .getLastBlockFailed i => ∀ tips, s.builder.builds[i]? ≠ some { tips, phase := .fetching }
    | .callbackThrew i _ => ∀ tips lastBlock, s.builder.builds[i]? ≠ some { tips, phase := .building lastBlock }
    | _ => True

theorem signIfConfigured_ok_iff (block : Block) :
    (∃ signed, BlockBuilder.signIfConfigured sha256 config block = .ok signed) ↔
      (config.sign = true → ∃ keyManager, config.keyManager = some keyManager ∧
        ∃ signature, keyManager.sign (calculateBlockHash sha256 block) = .ok signature) := by
  rw [BlockBuilder.signIfConfigured]
  by_cases hsign : config.sign = true
  · rw [if_pos hsign]
    cases config.keyManager with
    | none => simp [hsign]
    | some keyManager =>
      simp only [hsign, forall_const, Option.some.injEq, exists_eq_left']
      constructor
      · rintro ⟨signed, h⟩
        obtain ⟨signature, hs, -⟩ := bind_eq_ok.1 h
        exact ⟨signature, hs⟩
      · rintro ⟨signature, hs⟩
        exact ⟨_, bind_eq_ok.2 ⟨signature, hs, rfl⟩⟩
  · rw [if_neg hsign]
    exact ⟨fun _ h => absurd h hsign, fun _ => ⟨block, rfl⟩⟩

theorem builds_iff (lastBlock : Option Block) (answers : Answers) :
    (∃ block, BlockBuilder.buildBlockFromPendingTransactions sha256 config lastBlock answers = .ok (some block)) ↔
      Builds sha256 config lastBlock answers := by
  constructor
  · rintro ⟨block, h⟩
    obtain ⟨entries, he, h⟩ := bind_eq_ok.1 h
    dsimp only at h
    split at h
    · cases h
    rename_i hne
    obtain ⟨⟨receipts, stateDiff⟩, hv, h⟩ := bind_eq_ok.1 h
    obtain ⟨signed, hs, -⟩ := bind_eq_ok.1 h
    exact ⟨entries, he, fun h0 => hne (by rw [h0]; rfl), receipts, stateDiff, hv,
      (signIfConfigured_ok_iff _).1 ⟨signed, hs⟩⟩
  · rintro ⟨entries, he, hne, receipts, stateDiff, hv, hs⟩
    obtain ⟨signed, hs⟩ := (signIfConfigured_ok_iff _).2 hs
    refine ⟨signed, bind_eq_ok.2 ⟨entries, he, ?_⟩⟩
    dsimp only
    rw [if_neg fun h0 => hne (List.length_eq_zero_iff.1 h0)]
    exact bind_eq_ok.2 ⟨(receipts, stateDiff), hv, bind_eq_ok.2 ⟨signed, hs, rfl⟩⟩

theorem length_live (s : BlockBuilder.State sha256) : s.live.length = s.builds.length := List.length_map _

theorem exists_of_build {s t : BlockBuilder.State sha256} {i : ℕ} {answers : Answers}
    (h : BlockBuilder.step config storage s (.build i answers) = some t) :
    ∃ tips lastBlock, s.builds[i]? = some { tips, phase := .building lastBlock } := by
  rw [BlockBuilder.step] at h
  split at h
  · rename_i hi
    exact ⟨_, _, hi⟩
  · cases h

variable (config storage) in
/-- **A build sets the timer exactly when it gives no block.** -/
theorem exists_build {s : BlockBuilder.State sha256} {i : ℕ} {tips : List Block} {lastBlock : Option Block}
    (hi : s.builds[i]? = some { tips, phase := .building lastBlock }) (answers : Answers) :
    ∃ t, BlockBuilder.step config storage s (.build i answers) = some t ∧ t.live.length = s.live.length ∧
      (Builds sha256 config lastBlock answers ∧ t.polling = s.polling ∨
        ¬ Builds sha256 config lastBlock answers ∧ t.polling = true) := by
  rw [BlockBuilder.step, hi, ← builds_iff]
  dsimp only
  split
  · rename_i block hb
    exact ⟨_, rfl, by rw [live_setBuild, List.length_set], .inl ⟨⟨block, hb⟩, rfl⟩⟩
  · rename_i hb
    refine ⟨_, rfl, by rw [live_setBuild, List.length_set]; rfl, .inr ⟨?_, rfl⟩⟩
    rintro ⟨block, h⟩
    rw [hb] at h
    cases h
  · rename_i hb
    refine ⟨_, rfl, by rw [live_setBuild, List.length_set]; rfl, .inr ⟨?_, rfl⟩⟩
    rintro ⟨block, h⟩
    rw [hb] at h
    cases h

theorem stoppedAfter_cases (s : State sha256) (a : BlockBuilder.Action sha256) : s.stoppedAfter a = none ∨
    a = .stop ∨ (a ≠ .start ∧ s.stoppedAfter a = s.stopped) := by
  cases a <;> simp [State.stoppedAfter]

theorem Stopped.of_eq {s s' : State sha256} (hs : Stopped s) (hst : s'.stopped = s.stopped)
    (hlen : s'.builder.live.length = s.builder.live.length)
    (hp : s.builder.polling = false → s'.builder.polling = false) : Stopped s' := by
  intro n hn
  obtain ⟨hpoll, hbuilds⟩ := hs n (hst ▸ hn)
  rw [length_live, length_live] at hlen
  exact ⟨hp hpoll, hlen.trans hbuilds⟩

/-- **An undisturbed step leaves a stopped builder stopped.** -/
theorem stopped_step {s s' : State sha256} {a : Action sha256} (hs : Stopped s) (hg : Undisturbed config s a)
    (h : step config storage s a = some s') : Stopped s' := by
  by_cases hnone : s'.stopped = none
  · intro n hn
    rw [hnone] at hn
    cases hn
  cases a with
  | builder a =>
    obtain ⟨t, ht, rfl⟩ := Option.map_eq_some_iff.1 h
    rcases stoppedAfter_cases s a with hst | rfl | ⟨hstart, hst⟩
    · exact absurd hst hnone
    · cases ht
      intro n hn
      exact ⟨rfl, Option.some.inj hn⟩
    · rcases builder_cases ht with ⟨-, hlive, hpoll⟩ | ⟨rfl, -⟩ | ⟨i, answers, rfl, -⟩
      · refine hs.of_eq hst (congrArg List.length hlive) fun hp => ?_
        rcases hpoll with rfl | h0 | h0
        · exact absurd rfl hstart
        · exact h0
        · exact h0.trans hp
      · exact absurd rfl hnone
      · obtain ⟨tips, lastBlock, hi⟩ := exists_of_build ht
        obtain ⟨t', ht', hlen, hb | hb⟩ := exists_build config storage hi answers
        · cases ht.symm.trans ht'
          exact hs.of_eq hst hlen hb.2.trans
        · exact absurd (hg (hst ▸ hnone) tips lastBlock hi) hb.1
  | shutdown =>
    cases h
    intro n hn
    exact ⟨rfl, Option.some.inj hn⟩
  | tick =>
    rw [step] at h
    split at h
    case isFalse => cases h
    rename_i hp
    obtain ⟨t, ht, rfl⟩ := Option.map_eq_some_iff.1 h
    obtain ⟨n, hn⟩ := Option.ne_none_iff_exists'.1 hnone
    rw [(hs n hn).1] at hp
    cases hp
  | getLastBlockFailed i =>
    rw [step] at h
    split at h <;> cases h
    rename_i tips hi
    exact absurd hi (hg hnone tips)
  | callbackThrew i answers =>
    obtain ⟨t, ht, rfl⟩ := Option.map_eq_some_iff.1 h
    obtain ⟨tips, lastBlock, hi⟩ := exists_of_build ht
    exact absurd hi (hg hnone tips lastBlock)

/-- **A step leaves a stopped builder stopped exactly when it is undisturbed.** -/
theorem staysStopped_iff {s : State sha256} (hs : Stopped s) (a : Action sha256) :
    StaysStopped config storage s a ↔ Undisturbed config s a := by
  refine ⟨fun hstay hne => ?_, fun hg s' h => stopped_step hs hg h⟩
  obtain ⟨n, hn⟩ := Option.ne_none_iff_exists'.1 hne
  split
  · rename_i i answers
    intro tips lastBlock hi
    obtain ⟨t, ht, -, hb | hb⟩ := exists_build config storage hi answers
    · exact hb.1
    · have hstep : step config storage s (.builder (.build i answers)) = some ⟨t, s.overlaps, s.stopped⟩ := by
        rw [step, ht]
        rfl
      exact absurd hb.2 (Bool.eq_false_iff.1 (hstay _ hstep n hn).1)
  · rename_i i
    intro tips hi
    have hstep : step config storage s (.getLastBlockFailed i) = some { s with
        builder := BlockBuilder.State.setBuild { s.builder with polling := true } i { tips, phase := .ended } } := by
      rw [step, hi]
    cases (hstay _ hstep n hn).1
  · rename_i i answers
    intro tips lastBlock hi
    obtain ⟨t, ht, -⟩ := exists_build config storage hi answers
    have hstep : step config storage s (.callbackThrew i answers) = some { s with
        builder := { t with polling := true } } := by
      rw [step, ht]
      rfl
    cases (hstay _ hstep n hn).1
  · trivial

theorem stopped_init : Stopped (init : State sha256) := nofun

/-- **A stopped builder stays stopped exactly in the runs in which no execution in flight finds nothing to build, or
fails, while it is to be stopped.** -/
theorem stays_stopped_iff (config : BlockBuilderConfig) (storage : BlockStorageConfig) (as : List (Action sha256)) :
    Lts.Meets (step config storage) (StaysStopped config storage) init as ↔
      Lts.Meets (step config storage) (Undisturbed config) init as :=
  Lts.meets_congr_of_inv (fun _ _ _ hs hg h => stopped_step hs hg h) (fun _ a hs => staysStopped_iff hs a)
    stopped_init

/-- The builder is stopped while an execution waits for the pool, which has no transaction. -/
def stoppedInFlight : List (Action Sha256.hash) :=
  [.builder (.load Chain.nil), .builder .appendNextBlock, .builder (.getLastBlock 0), .builder (.fetched 0),
    .builder .stop, .builder (.build 0 BlockBuilder.emptyPool)]

theorem run_stoppedInFlight : ((Lts.run (step BlockBuilder.builderConfig .unsigned) init stoppedInFlight).map
    fun s => (s.stopped, s.builder.polling)) = some (some 1, true) ∧
    ((Lts.run (step BlockBuilder.builderConfig .unsigned) init (stoppedInFlight ++ [.tick])).map
      fun s => (s.stopped, s.builder.builds.length)) = some (some 1, 2) := by
  decide +kernel

/-- **A builder stopped during a build sets its timer again**, and begins another build when it fires. -/
theorem stopped_builder_restarts : (∃ s, Lts.run (step BlockBuilder.builderConfig .unsigned) init stoppedInFlight =
      some s ∧ ¬ Stopped s) ∧
    ∃ s, Lts.run (step BlockBuilder.builderConfig .unsigned) init (stoppedInFlight ++ [.tick]) = some s ∧
      s.stopped = some 1 ∧ s.builder.builds.length = 2 := by
  obtain ⟨s, hs, heq⟩ := Option.map_eq_some_iff.1 run_stoppedInFlight.1
  obtain ⟨s', hs', heq'⟩ := Option.map_eq_some_iff.1 run_stoppedInFlight.2
  obtain ⟨hst, hp⟩ := Prod.mk.inj heq
  refine ⟨⟨s, hs, fun h1 => ?_⟩, s', hs', Prod.mk.inj heq'⟩
  rw [(h1 1 hst).1] at hp
  cases hp

end Polling
end Orbs
