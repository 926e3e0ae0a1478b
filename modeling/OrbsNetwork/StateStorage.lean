import OrbsNetwork.PersistedChain
import OrbsNetwork.Lib.Hex
import OrbsNetwork.Lib.Split
import OrbsNetwork.Lib.JsMap
import OrbsNetwork.Lib.Lts
/-!
# StateStorage — the replay of the chain, and reads from it

A poll asks the block storage for page after page of blocks and applies their state differences one block at a time;
several polls may be under way, the chain may grow between two pages, and a block out of step ends its poll.  A read
waits until the replay has come as far as the chain was when it asked, then reads all its keys in one piece.

`valueAfter` says what a key holds after a list of blocks: its last write.  The key-value store is always the replay of
a prefix of the chain, and every read that returns is a snapshot of such a prefix (`snapshot_reads`).
-/
namespace Orbs
namespace StateStorage

open Js BlockStorage HashChain

/-! ## InMemoryKVStore -/

abbrev InMemoryKVStore := JsMap Str Str

namespace InMemoryKVStore

def generateMapKeyString (contractAddress : Bytes) (key : Str) : Str := Hex.encode contractAddress ++ '.' :: key

def getSync (m : InMemoryKVStore) (contractAddress : Bytes) (key : Str) : Option Str :=
  m.get (generateMapKeyString contractAddress key)

def setSync (m : InMemoryKVStore) (contractAddress : Bytes) (key value : Str) : InMemoryKVStore :=
  m.set (generateMapKeyString contractAddress key) value

/-- The values of the keys that have one. -/
def getMany (m : InMemoryKVStore) (contractAddress : Bytes) (keys : List Str) : JsMap Str Str :=
  keys.foldl (fun values key => match m.getSync contractAddress key with
    | some value => values.set key value
    | none => values) .empty

/-- The address ends at the first dot, so two keys of the store are equal only for one address and one key. -/
theorem generateMapKeyString_inj {a b : Bytes} {k l : Str} :
    generateMapKeyString a k = generateMapKeyString b l ↔ a = b ∧ k = l := by
  constructor
  · intro h
    obtain ⟨hab, hkl⟩ := Split.append_cons_inj (Hex.dot_not_mem a) (Hex.dot_not_mem b) h
    exact ⟨Hex.encode_injective hab, hkl⟩
  · rintro ⟨rfl, rfl⟩
    rfl

theorem getSync_setSync (m : InMemoryKVStore) (a b : Bytes) (k l v : Str) :
    (m.setSync a k v).getSync b l = if b = a ∧ l = k then some v else m.getSync b l := by
  rw [getSync, setSync, JsMap.get_set]
  simp only [generateMapKeyString_inj]
  rfl

theorem get_getMany (m : InMemoryKVStore) (a : Bytes) (keys : List Str) (key : Str) :
    (m.getMany a keys).get key = if key ∈ keys then m.getSync a key else none := by
  induction keys using List.reverseRecOn with
  | nil => rfl
  | append_singleton keys k ih =>
    rw [getMany, List.foldl_append, List.foldl_cons, List.foldl_nil, ← getMany]
    cases hk : m.getSync a k with
    | none =>
      dsimp only
      rw [ih]
      by_cases h : key = k
      · subst h
        simp [hk]
      · simp [h]
    | some v =>
      dsimp only
      rw [JsMap.get_set, ih]
      by_cases h : key = k
      · subst h
        simp [hk]
      · simp [h]

end InMemoryKVStore

/-! ## The replay of a chain -/

def applyStateDiff (m : InMemoryKVStore) (stateDiff : List ModifiedStateKey) : InMemoryKVStore :=
  stateDiff.foldl (fun m d => m.setSync d.contractAddress d.key d.value) m

def replay (blocks : List Block) : InMemoryKVStore :=
  blocks.foldl (fun m b => applyStateDiff m b.body.stateDiff) .empty

def lastWrite (writes : List ModifiedStateKey) (contractAddress : Bytes) (key : Str) : Option Str :=
  (writes.reverse.find? fun d => d.contractAddress = contractAddress ∧ d.key = key).map ModifiedStateKey.value

/-- What a key holds after a list of blocks, applied in order to the empty state. -/
def valueAfter (blocks : List Block) (contractAddress : Bytes) (key : Str) : Option Str :=
  lastWrite (blocks.flatMap fun b => b.body.stateDiff) contractAddress key

theorem replay_eq (blocks : List Block) : replay blocks = applyStateDiff .empty (blocks.flatMap fun b => b.body.stateDiff) := by
  rw [replay, applyStateDiff, List.foldl_flatMap]
  rfl

theorem getSync_applyStateDiff (writes : List ModifiedStateKey) (contractAddress : Bytes) (key : Str) :
    (applyStateDiff .empty writes).getSync contractAddress key = lastWrite writes contractAddress key := by
  induction writes using List.reverseRecOn with
  | nil => rfl
  | append_singleton writes d ih =>
    rw [applyStateDiff, List.foldl_append, List.foldl_cons, List.foldl_nil, ← applyStateDiff,
      InMemoryKVStore.getSync_setSync, ih, lastWrite, lastWrite, List.reverse_append, List.reverse_singleton,
      List.singleton_append]
    by_cases h : d.contractAddress = contractAddress ∧ d.key = key
    · rw [if_pos ⟨h.1.symm, h.2.symm⟩, List.find?_cons_of_pos (by simpa using h)]
      rfl
    · rw [if_neg fun hc => h ⟨hc.1.symm, hc.2.symm⟩, List.find?_cons_of_neg (by simpa using h)]

/-- **The replayed store holds the last writes.** -/
theorem getSync_replay (blocks : List Block) (contractAddress : Bytes) (key : Str) :
    (replay blocks).getSync contractAddress key = valueAfter blocks contractAddress key := by
  rw [replay_eq, getSync_applyStateDiff, valueAfter]

theorem replay_concat (blocks : List Block) (b : Block) :
    replay (blocks ++ [b]) = applyStateDiff (replay blocks) b.body.stateDiff := by
  rw [replay, List.foldl_append]
  rfl

/-! ## Polls and reads -/

/-- Where a call of `pollBlockStorage` is. -/
inductive PollPhase where
  /-- It awaits a page of blocks. -/
  | fetching
  /-- It has these blocks of the page still to apply. -/
  | mapping (blocks : List Block)
  | ended

/-- `blockHeight` is the counter of `mapOverBlocks`. -/
structure Poll where
  blockHeight : ℕ
  phase : PollPhase

/-- Where a call of `readKeys` is. -/
inductive ReadPhase where
  /-- It awaits `getLastBlock`. -/
  | asking
  /-- It waits for the block of this height, for at most this time. -/
  | waiting (height : ℕ) (timeout : ℤ)
  /-- `waitForBlockState` has returned. -/
  | ready
  | returned (values : JsMap Str Str)
  | failed

structure Read where
  startHeight : ℕ
  contractAddress : Bytes
  keys : List Str
  phase : ReadPhase

def SCROLL_LIMIT : ℕ := 500

structure State (sha256 : Bytes → Bytes) where
  /-- The chain of the block storage. -/
  chain : BlockChain sha256
  kvstore : InMemoryKVStore
  lastBlockHeight : ℕ
  polls : List Poll
  reads : List Read

inductive Action where
  /-- The block storage gets a block. -/
  | addBlock (block : Block)
  | pollBlockStorage
  /-- The block storage answers a poll's `getBlocks`, or fails to. -/
  | getBlocks (i : ℕ)
  | getBlocksFailed (i : ℕ)
  /-- A poll calls `syncNextBlock` on the next block of its page. -/
  | syncNextBlock (i : ℕ)
  /-- A poll that is through with its page asks for the next one. -/
  | nextPage (i : ℕ)
  | readKeys (contractAddress : Bytes) (keys : List Str)
  /-- The block storage answers a read's `getLastBlock`, or fails to. -/
  | getLastBlock (j : ℕ)
  | getLastBlockFailed (j : ℕ)
  /-- A turn of the loop of `waitForBlockState`. -/
  | waitForBlockState (j : ℕ)
  | getMany (j : ℕ)

variable {sha256 : Bytes → Bytes}

namespace State

def setPoll (s : State sha256) (i : ℕ) (p : Poll) : State sha256 := { s with polls := s.polls.set i p }

def setRead (s : State sha256) (j : ℕ) (r : Read) : State sha256 := { s with reads := s.reads.set j r }

end State

/-- One block, applied when it is the next one; the store and the height move together. -/
def syncNextBlock (s : State sha256) (block : Block) : Option (State sha256) :=
  if block.header.height = s.lastBlockHeight + 1 then
    some { s with kvstore := applyStateDiff s.kvstore block.body.stateDiff, lastBlockHeight := block.header.height }
  else none

def step (config : BlockStorageConfig) (s : State sha256) : Action → Option (State sha256)
  | .addBlock block => some { s with chain := (append config s.chain block).getD s.chain }
  | .pollBlockStorage => some { s with polls := s.polls ++ [{ blockHeight := s.lastBlockHeight, phase := .fetching }] }
  | .getBlocks i => match s.polls[i]? with
    | some { blockHeight, phase := .fetching } =>
      match blocksAbove s.chain blockHeight SCROLL_LIMIT with
      | [] => some (s.setPoll i { blockHeight, phase := .ended })
      | blocks => some (s.setPoll i { blockHeight, phase := .mapping blocks })
    | _ => none
  | .getBlocksFailed i => match s.polls[i]? with
    | some { blockHeight, phase := .fetching } => some (s.setPoll i { blockHeight, phase := .ended })
    | _ => none
  | .syncNextBlock i => match s.polls[i]? with
    | some { blockHeight, phase := .mapping (block :: blocks) } =>
      match syncNextBlock s block with
      | some s => some (s.setPoll i { blockHeight, phase := .mapping blocks })
      | none => some (s.setPoll i { blockHeight, phase := .ended })
    | _ => none
  | .nextPage i => match s.polls[i]? with
    | some { blockHeight, phase := .mapping [] } =>
      some (s.setPoll i { blockHeight := blockHeight + SCROLL_LIMIT, phase := .fetching })
    | _ => none
  | .readKeys contractAddress keys =>
    let startHeight := s.chain.tip.header.height
    some { s with reads := s.reads ++ [{ startHeight, contractAddress, keys, phase := .asking }] }
  | .getLastBlock j => match s.reads[j]? with
    | some { startHeight, contractAddress, keys, phase := .asking } =>
      let height := s.chain.tip.header.height
      some (s.setRead j { startHeight, contractAddress, keys, phase := .waiting height 5000 })
    | _ => none
  | .getLastBlockFailed j => match s.reads[j]? with
    | some { startHeight, contractAddress, keys, phase := .asking } =>
      some (s.setRead j { startHeight, contractAddress, keys, phase := .failed })
    | _ => none
  | .waitForBlockState j => match s.reads[j]? with
    | some { startHeight, contractAddress, keys, phase := .waiting height timeout } =>
      let phase := if timeout > 0 then
          if height ≤ s.lastBlockHeight then ReadPhase.ready else .waiting height (timeout - 200)
        else .failed
      some (s.setRead j { startHeight, contractAddress, keys, phase })
    | _ => none
  | .getMany j => match s.reads[j]? with
    | some { startHeight, contractAddress, keys, phase := .ready } =>
      let values := s.kvstore.getMany contractAddress keys
      some (s.setRead j { startHeight, contractAddress, keys, phase := .returned values })
    | _ => none

def start (chain : BlockChain sha256) : State sha256 :=
  { chain, kvstore := .empty, lastBlockHeight := 0, polls := [], reads := [] }

/-! ## What the store holds and what the reads give -/

/-- The values a read returned are those after blocks `1..k`, for one `k` from the height at its start up to the end of
the chain. -/
def Read.Snapshot (c : BlockChain sha256) (r : Read) (values : JsMap Str Str) : Prop :=
  ∃ k, r.startHeight ≤ k ∧ k ≤ c.rest.length ∧ ∀ key,
    values.get key = if key ∈ r.keys then valueAfter (c.rest.take k) r.contractAddress key else none

def Read.Sound (c : BlockChain sha256) (lastBlockHeight : ℕ) (r : Read) : Prop :=
  match r.phase with
  | .asking => r.startHeight ≤ c.rest.length
  | .waiting height _ => r.startHeight ≤ height
  | .ready => r.startHeight ≤ lastBlockHeight
  | .returned values => r.Snapshot c values
  | .failed => True

def Poll.Sound (c : BlockChain sha256) (p : Poll) : Prop := ∀ blocks, p.phase = .mapping blocks → blocks ⊆ c.blocks

structure Inv (s : State sha256) : Prop where
  height : s.lastBlockHeight ≤ s.chain.rest.length
  kvstore : s.kvstore = replay (s.chain.rest.take s.lastBlockHeight)
  polls : ∀ p ∈ s.polls, p.Sound s.chain
  reads : ∀ r ∈ s.reads, r.Sound s.chain s.lastBlockHeight

theorem take_eq_of_extends {l m : List Block} (h : l <+: m) {k : ℕ} (hk : k ≤ l.length) : m.take k = l.take k := by
  obtain ⟨t, rfl⟩ := h
  rw [List.take_append_of_le_length hk]

theorem Read.Sound.mono {c d : BlockChain sha256} {h h' : ℕ} {r : Read} (hr : r.Sound c h) (hp : c.rest <+: d.rest)
    (hh : h ≤ h') : r.Sound d h' := by
  unfold Read.Sound at hr ⊢
  have hl := hp.length_le
  split <;> rename_i hph <;> simp only [hph] at hr
  · omega
  · exact hr
  · omega
  · obtain ⟨k, hk, hkl, hv⟩ := hr
    refine ⟨k, hk, by omega, fun key => ?_⟩
    rw [take_eq_of_extends hp hkl]
    exact hv key
  · trivial

namespace Inv

variable {s : State sha256}

theorem setPoll (h : Inv s) {i : ℕ} {p : Poll} (hp : p.Sound s.chain) : Inv (s.setPoll i p) := by
  refine ⟨h.height, h.kvstore, fun q hq => ?_, h.reads⟩
  rcases List.mem_or_eq_of_mem_set hq with hq | rfl
  · exact h.polls q hq
  · exact hp

theorem setRead (h : Inv s) {j : ℕ} {r : Read} (hr : r.Sound s.chain s.lastBlockHeight) : Inv (s.setRead j r) := by
  refine ⟨h.height, h.kvstore, h.polls, fun q hq => ?_⟩
  rcases List.mem_or_eq_of_mem_set hq with hq | rfl
  · exact h.reads q hq
  · exact hr

theorem addBlock (h : Inv s) {config : BlockStorageConfig} {block : Block} {c : BlockChain sha256}
    (hc : append config s.chain block = some c) : Inv { s with chain := c } := by
  obtain ⟨hn, rfl⟩ := append_eq_some hc
  have hp : s.chain.rest <+: (s.chain.push block hn).rest := List.prefix_append _ _
  have hl := hp.length_le
  refine ⟨h.height.trans hl, ?_, fun p hm blocks hb => ?_, fun r hm => (h.reads r hm).mono hp le_rfl⟩
  · change s.kvstore = _
    rw [take_eq_of_extends hp h.height]
    exact h.kvstore
  · rw [Chain.blocks_push]
    exact List.Subset.trans (h.polls p hm blocks hb) (List.subset_append_left _ _)

/-- **Applying the next block of the chain advances the replay by one.** -/
theorem syncNextBlock (h : Inv s) {block : Block} (hb : block ∈ s.chain.blocks) {s' : State sha256}
    (hs : StateStorage.syncNextBlock s block = some s') :
    Inv s' ∧ s'.chain = s.chain := by
  rw [StateStorage.syncNextBlock] at hs
  split at hs
  case isFalse => cases hs
  rename_i hnext
  cases hs
  obtain ⟨i, hi⟩ := List.mem_iff_getElem?.1 hb
  have hh := height_eq s.chain hi
  have hget : s.chain.rest[s.lastBlockHeight]? = some block := by
    have hsucc : i = s.lastBlockHeight + 1 := by omega
    rw [hsucc] at hi
    exact hi
  obtain ⟨hlt, -⟩ := List.getElem?_eq_some_iff.1 hget
  refine ⟨⟨?_, ?_, h.polls, fun r hr => (h.reads r hr).mono (List.prefix_refl _) ?_⟩, rfl⟩
  · change block.header.height ≤ s.chain.rest.length
    omega
  · change applyStateDiff s.kvstore block.body.stateDiff = _
    rw [hnext, List.take_add_one, hget, Option.toList_some, replay_concat, ← h.kvstore]
  · change s.lastBlockHeight ≤ block.header.height
    omega

/-- The values that a read takes from the store are those after the blocks replayed so far. -/
theorem snapshot (h : Inv s) {r : Read} (hr : r.startHeight ≤ s.lastBlockHeight) :
    r.Snapshot s.chain (s.kvstore.getMany r.contractAddress r.keys) := by
  refine ⟨s.lastBlockHeight, hr, h.height, fun key => ?_⟩
  rw [InMemoryKVStore.get_getMany, h.kvstore, getSync_replay]

end Inv

/-- **Every step keeps the store a replay and the reads sound.** -/
theorem step_inv {config : BlockStorageConfig} {s s' : State sha256} {a : Action} (hs : Inv s)
    (h : step config s a = some s') : Inv s' := by
  cases a with
  | addBlock block =>
    cases h
    cases hc : append config s.chain block with
    | none => exact hs
    | some c => exact hs.addBlock hc
  | pollBlockStorage =>
    cases h
    refine ⟨hs.height, hs.kvstore, fun p hp => ?_, hs.reads⟩
    rcases List.mem_append.1 hp with hp | hp
    · exact hs.polls p hp
    · rw [List.mem_singleton.1 hp]
      exact fun _ hb => nomatch hb
  | getBlocks i =>
    rw [step] at h
    split at h
    case h_2 => cases h
    rename_i blockHeight hi
    split at h <;> cases h
    · exact hs.setPoll fun _ hb => nomatch hb
    · refine hs.setPoll fun blocks hb => ?_
      cases hb
      exact fun b hb => List.mem_cons_of_mem _ (List.mem_of_mem_drop (List.mem_of_mem_take hb))
  | getBlocksFailed i =>
    rw [step] at h
    split at h <;> cases h
    exact hs.setPoll fun _ hb => nomatch hb
  | syncNextBlock i =>
    rw [step] at h
    split at h
    case h_2 => cases h
    rename_i blockHeight block blocks hi
    have hsub := hs.polls _ (List.mem_of_getElem? hi) _ rfl
    split at h <;> cases h
    · rename_i t ht
      obtain ⟨hinv, hc⟩ := hs.syncNextBlock (hsub List.mem_cons_self) ht
      refine hinv.setPoll fun l hl => ?_
      cases hl
      rw [hc]
      exact fun b hb => hsub (List.mem_cons_of_mem _ hb)
    · exact hs.setPoll fun _ hb => nomatch hb
  | nextPage i =>
    rw [step] at h
    split at h <;> cases h
    exact hs.setPoll fun _ hb => nomatch hb
  | readKeys contractAddress keys =>
    cases h
    refine ⟨hs.height, hs.kvstore, hs.polls, fun r hr => ?_⟩
    rcases List.mem_append.1 hr with hr | hr
    · exact hs.reads r hr
    · rw [List.mem_singleton.1 hr]
      exact (height_tip s.chain).le
  | getLastBlock j =>
    rw [step] at h
    split at h <;> cases h
    rename_i startHeight contractAddress keys hj
    have hr : startHeight ≤ s.chain.rest.length := hs.reads _ (List.mem_of_getElem? hj)
    exact hs.setRead (hr.trans (height_tip s.chain).ge)
  | getLastBlockFailed j =>
    rw [step] at h
    split at h <;> cases h
    exact hs.setRead trivial
  | waitForBlockState j =>
    rw [step] at h
    split at h <;> cases h
    rename_i startHeight contractAddress keys height timeout hj
    have hr : startHeight ≤ height := hs.reads _ (List.mem_of_getElem? hj)
    refine hs.setRead ?_
    split_ifs with ht hh
    · exact hr.trans hh
    · exact hr
    · trivial
  | getMany j =>
    rw [step] at h
    split at h <;> cases h
    rename_i startHeight contractAddress keys hj
    have hr : startHeight ≤ s.lastBlockHeight := hs.reads _ (List.mem_of_getElem? hj)
    exact hs.setRead (hs.snapshot hr)

theorem inv_start (c : BlockChain sha256) : Inv (start c) where
  height := Nat.zero_le _
  kvstore := rfl
  polls _ h := (List.not_mem_nil h).elim
  reads _ h := (List.not_mem_nil h).elim

/-- **State reads are consistent snapshots of the replayed chain.**  At every moment of every run the store is the
replay of the first `lastBlockHeight` blocks, and each read that has returned has the values after the first `k`
blocks, for a single `k` from the height of the block storage at its start. -/
theorem snapshot_reads {config : BlockStorageConfig} {c : BlockChain sha256} {as : List Action} {s : State sha256}
    (hs : Lts.run (step config) (start c) as = some s) :
    (s.lastBlockHeight ≤ s.chain.rest.length ∧
      s.kvstore = replay (s.chain.rest.take s.lastBlockHeight) ∧
      ∀ contractAddress key, s.kvstore.getSync contractAddress key =
        valueAfter (s.chain.rest.take s.lastBlockHeight) contractAddress key) ∧
      ∀ r ∈ s.reads, ∀ values, r.phase = .returned values → r.Snapshot s.chain values := by
  have hi : Inv s := Lts.run_inv' (fun _ _ _ hi h => step_inv hi h) (inv_start c) hs
  refine ⟨⟨hi.height, hi.kvstore, fun a key => by rw [hi.kvstore, getSync_replay]⟩, fun r hr values hv => ?_⟩
  have := hi.reads r hr
  rwa [Read.Sound, hv] at this

/-! ## A read of a block that has just come -/

def writingBlock : Block := buildNextBlock Sha256.hash
  { transactions := [], transactionReceipts := [], stateDiff := [{ contractAddress := [7], key := ['k'], value := ['v'] }] }
  (some (generateGenesisBlock Sha256.hash))

def readAfterWrite : List Action :=
  [.addBlock writingBlock, .readKeys [7] [['k'], ['l']], .getLastBlock 0, .waitForBlockState 0, .pollBlockStorage,
    .getBlocks 0, .syncNextBlock 0, .nextPage 0, .getBlocks 0, .waitForBlockState 0, .getMany 0]

def returnedValues (s : State sha256) : List (List (Str × Str)) :=
  s.reads.filterMap fun r => match r.phase with
    | .returned values => some values.entries
    | _ => none

theorem run_readAfterWrite : ((Lts.run (step .unsigned) (start (Chain.nil : BlockChain Sha256.hash)) readAfterWrite).map
    returnedValues) = some [[(['k'], ['v'])]] := by
  decide +kernel

theorem snapshot_readAfterWrite : ∃ s : State Sha256.hash, Lts.run (step .unsigned) (start Chain.nil) readAfterWrite = some s ∧
    returnedValues s = [[(['k'], ['v'])]] ∧
    ∀ r ∈ s.reads, ∀ values, r.phase = .returned values → r.Snapshot s.chain values := by
  obtain ⟨s, hs, hv⟩ := Option.map_eq_some_iff.1 run_readAfterWrite
  exact ⟨s, hs, hv, (snapshot_reads hs).2⟩

end StateStorage
end Orbs
