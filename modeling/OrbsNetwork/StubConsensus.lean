import OrbsNetwork.Primitives
import OrbsNetwork.Lib.JsMap
import Mathlib.Data.List.Perm.Lattice
/-!
# StubConsensus — the leader's heartbeat

The leader records the last height that each node reported, and on a heartbeat lets its block builder go on when enough
nodes are synchronized.  Nodes that never reported and nodes that lag are counted against the same allowance, each on
its own, so together they may exceed it (`start_iff`).
-/
namespace Orbs
namespace StubConsensus

structure StubConsensusConfig where
  clusterSize : ℕ
  acceptableUnsyncedNodes : ℤ

/-- What a heartbeat tick does. -/
inductive Tick where
  /-- `blockBuilder.start()`. -/
  | start
  | broadcastCommitBlock (block : Block)
  /-- It only logs. -/
  | nothing
  deriving DecidableEq

section
variable {κ : Type}

/-- One turn of the loop over the reported heights: how many are not synced, and whether that is still acceptable. -/
def countUnsynced (config : StubConsensusConfig) (myHeight : ℕ) (acc : ℤ × Bool) (entry : κ × ℕ) : ℤ × Bool :=
  let howManyNodesAreNotSynced := if entry.2 ≠ myHeight then acc.1 + 1 else acc.1
  (howManyNodesAreNotSynced,
    if howManyNodesAreNotSynced > config.acceptableUnsyncedNodes then false else acc.2)

theorem foldl_countUnsynced (config : StubConsensusConfig) (myHeight : ℕ) (l : List (κ × ℕ)) (n : ℤ) (ok : Bool) :
    (l.foldl (countUnsynced config myHeight) (n, ok)).2 = true ↔
      ok = true ∧ (l ≠ [] → n + l.countP (fun p => p.2 ≠ myHeight) ≤ config.acceptableUnsyncedNodes) := by
  induction l generalizing n ok with
  | nil => simp
  | cons p l ih =>
    have hok : ∀ n' : ℤ, (if n' > config.acceptableUnsyncedNodes then false else ok) = true ↔
        ok = true ∧ n' ≤ config.acceptableUnsyncedNodes := by
      intro n'
      split_ifs with h
      · simp only [not_le.2 h, and_false]
      · simp only [not_lt.1 h, and_true]
    -- The count only grows, so the last one is acceptable only if the one at `p` is.
    have hrest : ∀ n' : ℤ, n' ≤ config.acceptableUnsyncedNodes ∧
        (l ≠ [] → n' + l.countP (fun p => p.2 ≠ myHeight) ≤ config.acceptableUnsyncedNodes) ↔
        n' + l.countP (fun p => p.2 ≠ myHeight) ≤ config.acceptableUnsyncedNodes := by
      intro n'
      by_cases hl : l = []
      · simp [hl]
      · exact ⟨fun h => h.2 hl, fun h => ⟨by omega, fun _ => h⟩⟩
    rw [List.foldl_cons, countUnsynced, ih, hok, and_assoc, hrest, List.countP_cons]
    by_cases hp : p.2 = myHeight
    · simp [hp]
    · simp only [ne_eq, hp, not_false_eq_true, if_true, decide_true, reduceCtorEq, true_imp_iff, Nat.cast_add,
        Nat.cast_one]
      rw [add_right_comm, add_assoc]

theorem countP_others {others : List κ} (hn : others.Nodup) {m : JsMap κ ℕ} (hm : ∀ k ∈ m.keys, k ∈ others)
    {q : κ → Bool} (hq : ∀ k, q k = true → k ∈ m.keys) : others.countP q = m.keys.countP q := by
  rw [List.countP_eq_length_filter, List.countP_eq_length_filter]
  refine ((List.perm_ext_iff_of_nodup (hn.filter _) (m.keys_nodup.filter _)).2 fun k => ?_).length_eq
  rw [List.mem_filter, List.mem_filter]
  exact ⟨fun h => ⟨hq k h.2, h.2⟩, fun h => ⟨hm k h.1, h.2⟩⟩

variable [DecidableEq κ]

def areEnoughNodesSyncedWithMe (config : StubConsensusConfig) (lastBlockHeightByNodeName : JsMap κ ℕ)
    (myHeight : ℕ) : Bool :=
  if (lastBlockHeightByNodeName.size : ℤ) < config.clusterSize - config.acceptableUnsyncedNodes - 1 then false
  else (lastBlockHeightByNodeName.entries.foldl (countUnsynced config myHeight) (0, true)).2

/-- A tick, once the storage has answered `getLastBlock`. -/
def onLeaderHeartbeatTick (config : StubConsensusConfig) (lastBlockHeightByNodeName : JsMap κ ℕ)
    (answer : Except Js.Str (Option Block)) : Tick :=
  match answer with
  | .ok (some block) =>
    if areEnoughNodesSyncedWithMe config lastBlockHeightByNodeName block.header.height then .start
    else .broadcastCommitBlock block
  | _ => .nothing

def onMessagesReceived (received : List (κ × ℕ)) : JsMap κ ℕ :=
  received.foldl (fun m p => m.set p.1 p.2) .empty

/-- The height a node reported last. -/
def lastReported (received : List (κ × ℕ)) (node : κ) : Option ℕ :=
  (received.reverse.find? fun p => p.1 = node).map Prod.snd

def silent (others : List κ) (received : List (κ × ℕ)) : ℕ :=
  others.countP fun node => lastReported received node = none

def lagging (others : List κ) (received : List (κ × ℕ)) (myHeight : ℕ) : ℕ :=
  others.countP fun node => decide (lastReported received node ≠ none) && decide (lastReported received node ≠ some myHeight)

def outOfSync (others : List κ) (received : List (κ × ℕ)) (myHeight : ℕ) : ℕ :=
  others.countP fun node => lastReported received node ≠ some myHeight

theorem get_onMessagesReceived (received : List (κ × ℕ)) (node : κ) :
    (onMessagesReceived received).get node = lastReported received node := by
  induction received using List.reverseRecOn with
  | nil => rfl
  | append_singleton received p ih =>
    rw [onMessagesReceived, List.foldl_append, List.foldl_cons, List.foldl_nil, JsMap.get_set, lastReported,
      List.reverse_append, List.reverse_singleton, List.singleton_append]
    by_cases h : p.1 = node
    · rw [if_pos h.symm, List.find?_cons_of_pos (by simpa using h)]
      rfl
    · rw [if_neg (Ne.symm h), List.find?_cons_of_neg (by simpa using h)]
      exact ih

theorem keys_onMessagesReceived {received : List (κ × ℕ)} {node : κ}
    (h : node ∈ (onMessagesReceived received).keys) : ∃ p ∈ received, p.1 = node := by
  obtain ⟨v, hv⟩ := JsMap.get_of_mem_keys h
  rw [get_onMessagesReceived, lastReported, Option.map_eq_some_iff] at hv
  obtain ⟨p, hp, -⟩ := hv
  have hk := List.find?_some hp
  exact ⟨p, List.mem_reverse.1 (List.mem_of_find?_eq_some hp), of_decide_eq_true hk⟩

/-! ## The two counts -/

theorem outOfSync_eq (others : List κ) (received : List (κ × ℕ)) (myHeight : ℕ) :
    outOfSync others received myHeight = silent others received + lagging others received myHeight := by
  rw [outOfSync, silent, lagging]
  induction others with
  | nil => rfl
  | cons node others ih =>
    rw [List.countP_cons, List.countP_cons, List.countP_cons, ih]
    cases lastReported received node with
    | none => simp; omega
    | some h => by_cases hh : h = myHeight <;> simp [hh]; omega

theorem size_eq {others : List κ} (hn : others.Nodup) {m : JsMap κ ℕ} (hm : ∀ k ∈ m.keys, k ∈ others) :
    others.countP (fun k => m.get k = none) + m.size = others.length := by
  have hcount : others.countP (fun k => m.has k) = m.size := by
    rw [countP_others hn hm fun k hk => JsMap.has_iff.1 hk, List.countP_eq_length.2 fun k hk => JsMap.has_iff.2 hk,
      JsMap.keys, List.length_map, JsMap.size]
  rw [List.length_eq_countP_add_countP (fun k => m.has k), hcount, Nat.add_comm]
  congr 1
  refine List.countP_congr fun k _ => ?_
  simp [JsMap.has]

theorem countP_entries {others : List κ} (hn : others.Nodup) {m : JsMap κ ℕ} (hm : ∀ k ∈ m.keys, k ∈ others)
    (myHeight : ℕ) : m.entries.countP (fun p => p.2 ≠ myHeight) =
      others.countP fun k => decide (m.get k ≠ none) && decide (m.get k ≠ some myHeight) := by
  have hq : ∀ k, (decide (m.get k ≠ none) && decide (m.get k ≠ some myHeight)) = true → k ∈ m.keys := by
    intro k hk
    rw [Bool.and_eq_true, decide_eq_true_eq] at hk
    rw [← JsMap.has_iff, JsMap.has, Option.isSome_iff_ne_none]
    exact hk.1
  rw [countP_others hn hm hq, JsMap.keys, List.countP_map]
  refine List.countP_congr fun p hp => ?_
  have hg : m.get p.1 = some p.2 := JsMap.get_eq_some_iff.2 hp
  simp [hg]

section
variable {config : StubConsensusConfig} {others : List κ} {received : List (κ × ℕ)}

/-- **Enough nodes count as synchronized exactly when the silent ones are within the allowance and so are the lagging
ones**, each on their own. -/
theorem areEnoughNodesSyncedWithMe_iff (hn : others.Nodup) (hc : config.clusterSize = others.length + 1)
    (hr : ∀ p ∈ received, p.1 ∈ others) (myHeight : ℕ) :
    areEnoughNodesSyncedWithMe config (onMessagesReceived received) myHeight = true ↔
      silent others received ≤ config.acceptableUnsyncedNodes ∧
        lagging others received myHeight ≤ config.acceptableUnsyncedNodes := by
  have hm : ∀ k ∈ (onMessagesReceived received).keys, k ∈ others := by
    intro k hk
    obtain ⟨p, hp, rfl⟩ := keys_onMessagesReceived hk
    exact hr p hp
  have hsize := size_eq hn hm
  have hlag := countP_entries hn hm myHeight
  simp only [get_onMessagesReceived] at hsize hlag
  change silent others received + _ = _ at hsize
  change _ = lagging others received myHeight at hlag
  have hempty : (onMessagesReceived received).entries = [] → (onMessagesReceived received).size = 0 := by
    intro h
    rw [JsMap.size, h]
    rfl
  have hnil : (onMessagesReceived received).entries = [] → lagging others received myHeight = 0 := by
    intro h
    rw [← hlag, h]
    rfl
  rw [areEnoughNodesSyncedWithMe]
  split_ifs with h
  · simp only [false_iff, not_and]
    omega
  · rw [foldl_countUnsynced, hlag]
    by_cases he : (onMessagesReceived received).entries = []
    · have := hempty he
      have := hnil he
      simp only [he, ne_eq, not_true_eq_false, false_imp_iff, and_self, true_iff]
      omega
    · simp only [he, ne_eq, not_false_eq_true, true_imp_iff, true_and]
      omega

/-- **When the heartbeat keeps to its allowance**: a tick that starts the builder leaves at most the allowed number of
nodes out of sync, except where the silent nodes alone and the lagging nodes alone are within the allowance and
together exceed it. -/
theorem start_iff (hn : others.Nodup) (hc : config.clusterSize = others.length + 1)
    (hr : ∀ p ∈ received, p.1 ∈ others) (block : Block) :
    (onLeaderHeartbeatTick config (onMessagesReceived received) (.ok (some block)) = .start →
        (outOfSync others received block.header.height : ℤ) ≤ config.acceptableUnsyncedNodes) ↔
      ¬ (silent others received ≤ config.acceptableUnsyncedNodes ∧
        lagging others received block.header.height ≤ config.acceptableUnsyncedNodes ∧
        config.acceptableUnsyncedNodes < silent others received + lagging others received block.header.height) := by
  have hs : onLeaderHeartbeatTick config (onMessagesReceived received) (.ok (some block)) = .start ↔
      areEnoughNodesSyncedWithMe config (onMessagesReceived received) block.header.height = true := by
    rw [onLeaderHeartbeatTick]
    split_ifs with h <;> simp [h]
  rw [hs, areEnoughNodesSyncedWithMe_iff hn hc hr, outOfSync_eq]
  push_cast
  omega

end

end

/-! ## One silent and one lagging node of three -/

def fourNodes : StubConsensusConfig := { clusterSize := 4, acceptableUnsyncedNodes := 1 }

def otherNodes : List Js.Str := ["node2".toList, "node3".toList, "node4".toList]

def blockAt (height : ℕ) : Block where
  header := { version := 0, prevBlockHash := [], height }
  body := { transactions := [], transactionReceipts := [], stateDiff := [] }
  signatureData := none

def oneSilent : List (Js.Str × ℕ) := [("node2".toList, 5), ("node3".toList, 5)]

def oneBehind : List (Js.Str × ℕ) := [("node2".toList, 5), ("node3".toList, 4)]

theorem start_iff_oneSilent :
    (onLeaderHeartbeatTick fourNodes (onMessagesReceived oneSilent) (.ok (some (blockAt 5))) = .start →
        (outOfSync otherNodes oneSilent (blockAt 5).header.height : ℤ) ≤ fourNodes.acceptableUnsyncedNodes) ↔
      ¬ (silent otherNodes oneSilent ≤ fourNodes.acceptableUnsyncedNodes ∧
        lagging otherNodes oneSilent (blockAt 5).header.height ≤ fourNodes.acceptableUnsyncedNodes ∧
        fourNodes.acceptableUnsyncedNodes <
          silent otherNodes oneSilent + lagging otherNodes oneSilent (blockAt 5).header.height) :=
  start_iff (by decide +kernel) rfl (by decide +kernel) (blockAt 5)

/-- **With one node allowed out of sync the leader goes on with two**: one that never reported and one that lags. -/
theorem start_beyond_allowance : (∀ p ∈ oneBehind, p.1 ∈ otherNodes) ∧
    onLeaderHeartbeatTick fourNodes (onMessagesReceived oneBehind) (.ok (some (blockAt 5))) = .start ∧
    ¬ (outOfSync otherNodes oneBehind (blockAt 5).header.height : ℤ) ≤ fourNodes.acceptableUnsyncedNodes := by
  decide +kernel

end StubConsensus
end Orbs
