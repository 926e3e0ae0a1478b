import OrbsNetwork.PersistedChain
import OrbsNetwork.Lib.Lts
/-!
# BenchmarkConsensus — the chain that a node derives from the consensus log

Gaggle announces every growth of its committed log by an event, and the `onCommitted` handlers of the events run one
after another.  A handler asks for the entries from `benchmarkIndex` on, so it begins with the entry at which the
handler before it ended; every entry goes through `commitBlock`, and one that the block storage rejects is skipped.

An entry that is offered again is rejected again, whether it was accepted the first time or not
(`append_boundary`).  So the stored chain is that of one walk over the log (`chain_of_log`).
-/
namespace Orbs
namespace BenchmarkConsensus

open Js BlockStorage HashChain

/-- A running `onCommitted`: the commit index it has read, and the entries it has still to commit; none while it
awaits `getBlocks`. -/
structure Handler where
  benchmarkCommitIndex : ℤ
  entries : Option (List WireBlock)

structure State where
  /-- The committed part of the gaggle log. -/
  log : List WireBlock
  /-- Events that no handler has taken yet. -/
  committed : ℕ
  benchmarkIndex : ℤ
  onCommitted : Option Handler
  blockStorage : BlockStorage
  /-- The last block that the block builder has committed. -/
  lastBlock : Option Block

inductive Action where
  /-- The commit index moves past these entries, and a `committed` event says so. -/
  | commit (batch : List WireBlock)
  /-- The handler of the next event starts. -/
  | onCommitted
  /-- Gaggle answers the handler's `getBlocks`. -/
  | getBlocks
  /-- The handler turns to its next entry, or ends. -/
  | next

def State.getCommitIndex (s : State) : ℤ := s.log.length - 1

/-- The entries of the log with index at least `max(a, 0)` and below `b`. -/
def getBlocks (log : List WireBlock) (a b : ℤ) : List WireBlock := (log.take b.toNat).drop a.toNat

section
variable (sha256 : Bytes → Bytes) (config : BlockStorageConfig)

/-- `commitBlock` of the block builder, on the transaction pool's answer that the report went well. -/
def commitBlock (block : Block) (s : State) : Except Str Unit × State :=
  match addBlock sha256 config (.ok ()) block s.blockStorage with
  | (.ok (), blockStorage) => (.ok (), { s with blockStorage, lastBlock := some block })
  | (.error e, blockStorage) => (.error e, { s with blockStorage })

/-- The body of the loop over the entries; what it throws is logged and forgotten. -/
def commitEntry (entry : WireBlock) (s : State) : State :=
  match (parseJsonWithBuffers (blockText entry)).bind Block.codec.dec with
  | some block => (commitBlock sha256 config block s).2
  | none => s

def step (s : State) : Action → Option State
  | .commit batch => some { s with log := s.log ++ batch, committed := s.committed + 1 }
  | .onCommitted =>
    if s.committed = 0 ∨ s.onCommitted.isSome then none
    else
      let benchmarkCommitIndex := s.getCommitIndex
      let onCommitted := if s.benchmarkIndex < benchmarkCommitIndex then
        some { benchmarkCommitIndex, entries := none } else none
      some { s with committed := s.committed - 1, onCommitted }
  | .getBlocks => match s.onCommitted with
    | some { benchmarkCommitIndex, entries := none } =>
      let entries := getBlocks s.log s.benchmarkIndex (benchmarkCommitIndex + 1)
      some { s with onCommitted := some { benchmarkCommitIndex, entries := some entries } }
    | _ => none
  | .next => match s.onCommitted with
    | some { benchmarkCommitIndex, entries := some (entry :: entries) } =>
      some { commitEntry sha256 config entry s with
        onCommitted := some { benchmarkCommitIndex, entries := some entries } }
    | some { benchmarkCommitIndex, entries := some [] } =>
      some { s with benchmarkIndex := benchmarkCommitIndex, onCommitted := none }
    | _ => none

end

/-- A node with a loaded block storage and an empty log. -/
def start (blockStorage : BlockStorage) : State where
  log := []
  committed := 0
  benchmarkIndex := -1
  onCommitted := none
  blockStorage
  lastBlock := none

/-- The part of the log that the handlers that have ended went through. -/
def State.processed (s : State) : List WireBlock := s.log.take (s.benchmarkIndex + 1).toNat

variable {sha256 : Bytes → Bytes} {config : BlockStorageConfig}

/-- One walk over a log that appends each entry that verifies on the current tip. -/
def walk (config : BlockStorageConfig) (c : BlockChain sha256) (log : List WireBlock) : BlockChain sha256 :=
  log.foldl (fun c entry => (append config c entry.1).getD c) c

theorem walk_concat (c : BlockChain sha256) (log : List WireBlock) (entry : WireBlock) :
    walk config c (log ++ [entry]) = (append config (walk config c log) entry.1).getD (walk config c log) := by
  unfold walk
  rw [List.foldl_append, List.foldl_cons, List.foldl_nil]

/-! ## Entries that are offered twice -/

theorem append_tip {c : BlockChain sha256} {b : Block} (h : c.tip = b) : append config c b = none := by
  cases hv : append config c b with
  | none => rfl
  | some d =>
    have hn := (verifyNewBlock_eq_ok.1 (verify_of_append hv)).2.2.1
    rw [h] at hn
    exact absurd hn (Nat.succ_ne_self _).symm

/-- **An entry that was just processed is rejected**, if it was accepted the first time because it is the tip now, and
if not because the tip has stayed. -/
theorem append_boundary (c : BlockChain sha256) (log : List WireBlock) (entry : WireBlock) :
    append config (walk config c (log ++ [entry])) entry.1 = none := by
  rw [walk_concat]
  cases ha : append config (walk config c log) entry.1 with
  | none => rw [Option.getD_none, ha]
  | some d =>
    obtain ⟨hn, rfl⟩ := append_eq_some ha
    rw [Option.getD_some]
    exact append_tip (Chain.tip_push _ _ hn)

theorem take_succ_eq {log : List WireBlock} {k : ℕ} {entry : WireBlock} (h : log[k]? = some entry) :
    log.take (k + 1) = log.take k ++ [entry] := by
  rw [List.take_add_one, h]
  rfl

/-! ## Steps -/

/-- **`commitBlock` on a stored chain**: what the handler does with an entry, in one of two ways. -/
theorem commitEntry_spec (config : BlockStorageConfig) {s : State} {c : BlockChain sha256}
    (h : Represents s.blockStorage c) (entry : WireBlock) :
    ∃ blockStorage lastBlock, commitEntry sha256 config entry s = { s with blockStorage, lastBlock } ∧
      Represents blockStorage ((append config c entry.1).getD c) := by
  unfold commitEntry
  rw [blockText_parses entry.2]
  dsimp only
  unfold commitBlock
  rcases addBlock_spec config h entry with ⟨d, hd, hok, hr⟩ | ⟨hnone, e, he⟩
  · rw [hd]
    refine ⟨_, some entry.1, ?_, hr⟩
    split
    · rename_i blockStorage hb
      rw [hb]
    · rename_i e blockStorage hb
      rw [hb] at hok
      cases hok
  · rw [hnone, he]
    exact ⟨s.blockStorage, s.lastBlock, rfl, h⟩

/-- The entries that a handler has still to commit, when the stored chain is that of the first `k` entries of the log:
they begin at entry `k`, or at the one before it. -/
def Remaining (log : List WireBlock) (k : ℕ) (handler : Handler) (entries : List WireBlock) : Prop :=
  ∃ j, (k = j ∨ k = j + 1) ∧ (k : ℤ) ≤ handler.benchmarkCommitIndex + 1 ∧
    entries = (log.take (handler.benchmarkCommitIndex + 1).toNat).drop j

/-- The stored chain is that of a walk over the first `k` entries of the log. -/
structure Inv (config : BlockStorageConfig) (c : BlockChain sha256) (s : State) (k : ℕ) : Prop where
  stored : Represents s.blockStorage (walk config c (s.log.take k))
  begun : -1 ≤ s.benchmarkIndex
  behind : s.benchmarkIndex < s.log.length
  idle : s.onCommitted = none → s.benchmarkIndex + 1 = k ∧ (s.committed = 0 → s.benchmarkIndex = s.getCommitIndex)
  running : ∀ handler, s.onCommitted = some handler →
    s.benchmarkIndex < handler.benchmarkCommitIndex ∧ handler.benchmarkCommitIndex ≤ s.getCommitIndex ∧
      (s.committed = 0 → handler.benchmarkCommitIndex = s.getCommitIndex) ∧
      (handler.entries = none → s.benchmarkIndex + 1 = k) ∧
      ∀ entries, handler.entries = some entries → Remaining s.log k handler entries

theorem Inv.le_length {c : BlockChain sha256} {s : State} {k : ℕ} (h : Inv config c s k) : k ≤ s.log.length := by
  have hc : s.getCommitIndex = s.log.length - 1 := rfl
  have hb := h.behind
  cases ho : s.onCommitted with
  | none =>
    have := (h.idle ho).1
    omega
  | some handler =>
    obtain ⟨h1, h2, -, h4, h5⟩ := h.running handler ho
    cases he : handler.entries with
    | none =>
      have := h4 he
      omega
    | some entries =>
      obtain ⟨j, -, hk, -⟩ := h5 entries he
      omega

theorem take_append_of_le (log batch : List WireBlock) {n : ℕ} (h : n ≤ log.length) :
    (log ++ batch).take n = log.take n := by
  rw [List.take_append, Nat.sub_eq_zero_of_le h, List.take_zero, List.append_nil]

theorem Inv.commit {c : BlockChain sha256} {s : State} {k : ℕ} (h : Inv config c s k) (batch : List WireBlock) :
    Inv config c { s with log := s.log ++ batch, committed := s.committed + 1 } k := by
  have hk := h.le_length
  have hlen : (s.log ++ batch).length = s.log.length + batch.length := List.length_append
  have hc : s.getCommitIndex = s.log.length - 1 := rfl
  have hb := h.behind
  constructor
  · rw [take_append_of_le _ _ hk]
    exact h.stored
  · exact h.begun
  · change s.benchmarkIndex < ((s.log ++ batch).length : ℤ)
    omega
  · intro ho
    exact ⟨(h.idle ho).1, fun h0 => absurd h0 (Nat.succ_ne_zero _)⟩
  · intro handler ho
    obtain ⟨h1, h2, -, h4, h5⟩ := h.running handler ho
    refine ⟨h1, ?_, fun h0 => absurd h0 (Nat.succ_ne_zero _), h4, fun entries he => ?_⟩
    · change _ ≤ ((s.log ++ batch).length : ℤ) - 1
      omega
    · obtain ⟨j, hj, hki, hd⟩ := h5 entries he
      refine ⟨j, hj, hki, ?_⟩
      rw [take_append_of_le _ _ (by omega)]
      exact hd

theorem Inv.onCommitted {c : BlockChain sha256} {s : State} {k : ℕ} (h : Inv config c s k)
    (ho : s.onCommitted = none) :
    Inv config c { s with
      committed := s.committed - 1
      onCommitted := if s.benchmarkIndex < s.getCommitIndex then
        some { benchmarkCommitIndex := s.getCommitIndex, entries := none } else none } k := by
  have hc : s.getCommitIndex = s.log.length - 1 := rfl
  have hb := h.behind
  obtain ⟨hk, -⟩ := h.idle ho
  constructor
  · exact h.stored
  · exact h.begun
  · exact h.behind
  · intro hnone
    refine ⟨hk, fun _ => ?_⟩
    change s.benchmarkIndex = s.getCommitIndex
    by_cases hlt : s.benchmarkIndex < s.getCommitIndex
    · rw [if_pos hlt] at hnone
      cases hnone
    · omega
  · intro handler hsome
    by_cases hlt : s.benchmarkIndex < s.getCommitIndex
    · rw [if_pos hlt] at hsome
      cases hsome
      exact ⟨hlt, le_rfl, fun _ => rfl, fun _ => hk, nofun⟩
    · rw [if_neg hlt] at hsome
      cases hsome

theorem Inv.getBlocks {c : BlockChain sha256} {s : State} {k : ℕ} (h : Inv config c s k) {ci : ℤ}
    (ho : s.onCommitted = some { benchmarkCommitIndex := ci, entries := none }) :
    Inv config c { s with onCommitted := some { benchmarkCommitIndex := ci
                                                entries := some (getBlocks s.log s.benchmarkIndex (ci + 1)) } } k := by
  obtain ⟨h1, h2, h3, h4, -⟩ := h.running _ ho
  have hk := h4 rfl
  have hbegun := h.begun
  constructor
  · exact h.stored
  · exact h.begun
  · exact h.behind
  · exact nofun
  · intro handler hsome
    cases hsome
    refine ⟨h1, h2, h3, nofun, fun entries he => ?_⟩
    cases he
    dsimp only at h1
    exact ⟨s.benchmarkIndex.toNat, by omega, by dsimp only; omega, rfl⟩

/-- The handler turns to its next entry: a new one, or the one at which the handler before it ended. -/
theorem Inv.next_entry {c : BlockChain sha256} {s : State} {k : ℕ} (h : Inv config c s k) {ci : ℤ} {entry : WireBlock}
    {entries : List WireBlock}
    (ho : s.onCommitted = some { benchmarkCommitIndex := ci, entries := some (entry :: entries) }) :
    ∃ k', Inv config c { commitEntry sha256 config entry s with
      onCommitted := some { benchmarkCommitIndex := ci, entries := some entries } } k' := by
  obtain ⟨h1, h2, h3, -, h5⟩ := h.running _ ho
  obtain ⟨j, hj, hki, hd⟩ := h5 _ rfl
  dsimp only at hki hd h1 h2 h3
  have hlen : ci ≤ s.log.length - 1 := h2
  have hget : (s.log.take (ci + 1).toNat)[j]? = some entry := by
    rw [← List.head?_drop, ← hd]
    rfl
  obtain ⟨hjn, -⟩ := List.getElem?_eq_some_iff.1 hget
  rw [List.length_take] at hjn
  have hentry : s.log[j]? = some entry := by
    rwa [List.getElem?_take_of_lt (by omega)] at hget
  have hrest : entries = (s.log.take (ci + 1).toNat).drop (j + 1) := by
    rw [← List.tail_drop, ← hd]
    rfl
  obtain ⟨blockStorage, lastBlock, he, hr⟩ := commitEntry_spec config h.stored entry
  have hstored : Represents blockStorage (walk config c (s.log.take (j + 1))) := by
    rcases hj with rfl | rfl
    · rw [take_succ_eq hentry, walk_concat]
      exact hr
    · rw [take_succ_eq hentry, append_boundary, Option.getD_none] at hr
      rw [take_succ_eq hentry]
      exact hr
  rw [he]
  refine ⟨j + 1, hstored, h.begun, h.behind, nofun, fun handler hsome => ?_⟩
  cases hsome
  refine ⟨h1, h2, h3, nofun, fun entries' he' => ?_⟩
  cases he'
  exact ⟨j + 1, .inl rfl, by dsimp only; omega, hrest⟩

theorem Inv.next_end {c : BlockChain sha256} {s : State} {k : ℕ} (h : Inv config c s k) {ci : ℤ}
    (ho : s.onCommitted = some { benchmarkCommitIndex := ci, entries := some [] }) :
    Inv config c { s with benchmarkIndex := ci, onCommitted := none } k := by
  obtain ⟨h1, h2, h3, -, h5⟩ := h.running _ ho
  obtain ⟨j, hj, hki, hd⟩ := h5 _ rfl
  dsimp only at hki hd h1 h2 h3
  have hlen : ci ≤ s.log.length - 1 := h2
  have hbegun := h.begun
  have hj' : (ci + 1).toNat ≤ j := by
    have := List.drop_eq_nil_iff.1 hd.symm
    rw [List.length_take] at this
    omega
  constructor
  · exact h.stored
  · change -1 ≤ ci
    omega
  · change ci < (s.log.length : ℤ)
    omega
  · intro _
    exact ⟨by dsimp only; omega, h3⟩
  · exact nofun

/-- **One step keeps the invariant**, for a prefix of the log that is one entry longer at most. -/
theorem step_inv {c : BlockChain sha256} {s s' : State} {a : Action} (h : ∃ k, Inv config c s k)
    (hs : step sha256 config s a = some s') : ∃ k, Inv config c s' k := by
  obtain ⟨k, h⟩ := h
  cases a with
  | commit batch =>
    cases hs
    exact ⟨k, h.commit batch⟩
  | onCommitted =>
    simp only [step] at hs
    split at hs
    · cases hs
    · rename_i hc
      cases hs
      push Not at hc
      exact ⟨k, h.onCommitted (by simpa using hc.2)⟩
  | getBlocks =>
    simp only [step] at hs
    split at hs
    · rename_i ci ho
      cases hs
      exact ⟨k, h.getBlocks ho⟩
    · cases hs
  | next =>
    simp only [step] at hs
    split at hs
    · rename_i ci entry entries ho
      rw [← Option.some.inj hs]
      exact h.next_entry ho
    · rename_i ci ho
      rw [← Option.some.inj hs]
      exact ⟨k, h.next_end ho⟩
    · cases hs

theorem inv_start {c : BlockChain sha256} {blockStorage : BlockStorage} (h : Represents blockStorage c) :
    Inv config c (start blockStorage) 0 :=
  ⟨h, le_rfl, by simp [start], fun _ => ⟨rfl, fun _ => rfl⟩, nofun⟩

theorem stored_of_run {c : BlockChain sha256} {blockStorage : BlockStorage} (h : Represents blockStorage c)
    {as : List Action} {s : State} (hr : Lts.run (step sha256 config) (start blockStorage) as = some s)
    (ho : s.onCommitted = none) :
    Represents s.blockStorage (walk config c s.processed) ∧ (s.committed = 0 → s.processed = s.log) := by
  obtain ⟨k, hk⟩ := Lts.run_inv' (I := fun s => ∃ k, Inv config c s k) (fun _ _ _ hi hs => step_inv hi hs)
    ⟨0, inv_start h⟩ hr
  obtain ⟨hbk, hend⟩ := hk.idle ho
  have hto : (s.benchmarkIndex + 1).toNat = k := by omega
  constructor
  · unfold State.processed
    rw [hto]
    exact hk.stored
  · intro h0
    have hc : s.benchmarkIndex = s.log.length - 1 := hend h0
    unfold State.processed
    rw [hc, sub_add_cancel, Int.toNat_natCast, List.take_length]

theorem append_congr {config' : BlockStorageConfig} {b : Block}
    (hv : verifySigned sha256 config b = .ok () ↔ verifySigned sha256 config' b = .ok ()) (c : BlockChain sha256) :
    append config c b = append config' c b := by
  cases h : verifyNewBlock sha256 config (some c.tip) b with
  | ok u =>
    have hb := verifyNewBlock_eq_ok.1 h
    have h' : verifyNewBlock sha256 config' (some c.tip) b = .ok () := verifyNewBlock_eq_ok.2 ⟨hv.1 hb.1, hb.2⟩
    rw [append_of_ok h, append_of_ok h']
  | error e =>
    rw [append_of_error h]
    cases h' : verifyNewBlock sha256 config' (some c.tip) b with
    | ok u =>
      have hb := verifyNewBlock_eq_ok.1 h'
      rw [verifyNewBlock_eq_ok.2 ⟨hv.2 hb.1, hb.2⟩] at h
      cases h
    | error e' => rw [append_of_error h']

theorem walk_congr {config' : BlockStorageConfig}
    (hv : ∀ b : WireBlock, verifySigned sha256 config b = .ok () ↔ verifySigned sha256 config' b = .ok ())
    (c : BlockChain sha256) (log : List WireBlock) : walk config c log = walk config' c log := by
  unfold walk
  congr
  funext d entry
  rw [append_congr (hv entry)]

/-- **The stored chain is that of one walk over the log**, whatever the batches; so two nodes that start from one chain,
accept the same signatures and have processed the same entries hold one chain. -/
theorem chain_of_log {c : BlockChain sha256} {blockStorage : BlockStorage} (h : Represents blockStorage c)
    {as : List Action} {s : State} (hr : Lts.run (step sha256 config) (start blockStorage) as = some s)
    (ho : s.onCommitted = none) :
    Represents s.blockStorage (walk config c s.processed) ∧ (s.committed = 0 → s.processed = s.log) ∧
      ∀ {config' : BlockStorageConfig} {blockStorage' : BlockStorage} {as' : List Action} {s' : State},
        (∀ b : WireBlock, verifySigned sha256 config b = .ok () ↔ verifySigned sha256 config' b = .ok ()) →
        Represents blockStorage' c → Lts.run (step sha256 config') (start blockStorage') as' = some s' →
        s'.onCommitted = none → s'.processed = s.processed →
        ∃ d : BlockChain sha256, Represents s.blockStorage d ∧ Represents s'.blockStorage d := by
  obtain ⟨hs, hlog⟩ := stored_of_run h hr ho
  refine ⟨hs, hlog, ?_⟩
  intro config' blockStorage' as' s' hv h' hr' ho' hp
  obtain ⟨hs', -⟩ := stored_of_run h' hr' ho'
  refine ⟨walk config c s.processed, hs, ?_⟩
  rw [walk_congr hv, ← hp]
  exact hs'

def handle (n : ℕ) : List Action := .onCommitted :: .getBlocks :: List.replicate (n + 1) .next

/-- Two siblings on the genesis block, in two batches and in one. -/
def twoBatches : List Action := .commit [firstBlock [1]] :: handle 1 ++ .commit [firstBlock [2]] :: handle 2

def oneBatch : List Action := .commit [firstBlock [1], firstBlock [2]] :: handle 2

def processedBy (as : List Action) : Option (List WireBlock) :=
  (Lts.run (step Sha256.hash .unsigned) (start (load Sha256.hash (opened .empty)).2) as).bind fun s =>
    if s.onCommitted.isNone ∧ s.committed = 0 then some s.processed else none

theorem run_of_processedBy {as : List Action} {log : List WireBlock} (h : processedBy as = some log) :
    ∃ s, Lts.run (step Sha256.hash .unsigned) (start (load Sha256.hash (opened .empty)).2) as = some s ∧
      s.onCommitted = none ∧ s.committed = 0 ∧ s.processed = log := by
  obtain ⟨s, hs, h⟩ := Option.bind_eq_some_iff.1 h
  split_ifs at h with hq
  exact ⟨s, hs, by simpa using hq.1, hq.2, Option.some.inj h⟩

theorem run_batches : processedBy twoBatches = some [firstBlock [1], firstBlock [2]] ∧
    processedBy oneBatch = some [firstBlock [1], firstBlock [2]] := by
  decide +kernel

theorem chain_of_log_batches : ∃ s s', ∃ d : BlockChain Sha256.hash,
    Lts.run (step Sha256.hash .unsigned) (start (load Sha256.hash (opened .empty)).2) twoBatches = some s ∧
    Lts.run (step Sha256.hash .unsigned) (start (load Sha256.hash (opened .empty)).2) oneBatch = some s' ∧
    Represents s.blockStorage (walk .unsigned (Chain.nil : BlockChain Sha256.hash) s.log) ∧
    Represents s.blockStorage d ∧ Represents s'.blockStorage d := by
  obtain ⟨s, hs, ho, h0, hp⟩ := run_of_processedBy run_batches.1
  obtain ⟨s', hs', ho', -, hp'⟩ := run_of_processedBy run_batches.2
  obtain ⟨hr, hlog, htwo⟩ := chain_of_log (load_empty Sha256.hash).2 hs ho
  obtain ⟨d, hd, hd'⟩ := htwo (fun _ => Iff.rfl) (load_empty Sha256.hash).2 hs' ho' (hp'.trans hp.symm)
  rw [hlog h0] at hr
  exact ⟨s, s', d, hs, hs', hr, hd, hd'⟩

end BenchmarkConsensus
end Orbs
