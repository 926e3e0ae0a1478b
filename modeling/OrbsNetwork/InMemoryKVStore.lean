import OrbsNetwork.StateStorage
/-!
# InMemoryKVStore — one flat map for the keys of all contracts

The store keeps a value under one text: the address in hex, a dot and the contract's own key.  No two pairs of an
address and a key have the same text (`generateMapKeyString_inj`), whatever dots the key has.  So a pair reads the
value of the last operation that set it, however many other pairs have been set (`readsLastSet`).
-/
namespace Orbs
namespace StateStorage
namespace InMemoryKVStore

open Js

def setMany (m : InMemoryKVStore) (contractAddress : Bytes) (values : JsMap Str Str) : InMemoryKVStore :=
  values.entries.foldl (fun m p => m.setSync contractAddress p.1 p.2) m

/-- A call that writes; `set` is `setSync` behind a promise. -/
inductive Operation where
  | setSync (contractAddress : Bytes) (key value : Str)
  | setMany (contractAddress : Bytes) (values : JsMap Str Str)

def Operation.apply (m : InMemoryKVStore) : Operation → InMemoryKVStore
  | .setSync contractAddress key value => m.setSync contractAddress key value
  | .setMany contractAddress values => m.setMany contractAddress values

def applyAll (m : InMemoryKVStore) (operations : List Operation) : InMemoryKVStore :=
  operations.foldl Operation.apply m

/-! ## Pairs of an address and a key -/

/-- The value that an operation gives to a pair, if it sets exactly this one. -/
def Operation.sets (contractAddress : Bytes) (key : Str) : Operation → Option Str
  | .setSync a k value => if a = contractAddress ∧ k = key then some value else none
  | .setMany a values => if a = contractAddress then values.get key else none

def lastSet (operations : List Operation) (contractAddress : Bytes) (key : Str) : Option Str :=
  operations.reverse.findSome? (Operation.sets contractAddress key)

theorem lastSet_concat (operations : List Operation) (o : Operation) (contractAddress : Bytes) (key : Str) :
    lastSet (operations ++ [o]) contractAddress key =
      (o.sets contractAddress key).or (lastSet operations contractAddress key) := by
  rw [lastSet, List.reverse_append, List.reverse_singleton, List.singleton_append, List.findSome?_cons, lastSet]
  cases o.sets contractAddress key <;> rfl

/-- A value comes from an operation after which no other one sets the pair. -/
theorem lastSet_eq_some_iff {operations : List Operation} {contractAddress : Bytes} {key value : Str} :
    lastSet operations contractAddress key = some value ↔ ∃ before o after, operations = before ++ o :: after ∧
      o.sets contractAddress key = some value ∧ ∀ l ∈ after, l.sets contractAddress key = none := by
  rw [lastSet, List.findSome?_eq_some_iff]
  constructor
  · rintro ⟨after, o, before, h, hv, hn⟩
    refine ⟨before.reverse, o, after.reverse, ?_, hv, fun l hl => hn l (List.mem_reverse.1 hl)⟩
    rw [← List.reverse_reverse operations, h]
    simp
  · rintro ⟨before, o, after, rfl, hv, hn⟩
    exact ⟨after.reverse, o, before.reverse, by simp, hv, fun l hl => hn l (List.mem_reverse.1 hl)⟩

theorem lastSet_eq_none_iff {operations : List Operation} {contractAddress : Bytes} {key : Str} :
    lastSet operations contractAddress key = none ↔ ∀ o ∈ operations, o.sets contractAddress key = none := by
  rw [lastSet, List.findSome?_eq_none_iff]
  simp only [List.mem_reverse]

/-! ## What is read -/

/-- The texts of other addresses, and of other keys, are other texts. -/
theorem getSync_setMany (m : InMemoryKVStore) (a b : Bytes) (values : JsMap Str Str) (key : Str) :
    (m.setMany a values).getSync b key =
      if a = b then (values.get key).or (m.getSync b key) else m.getSync b key := by
  have hset := JsMap.get_foldl_set (fun p : Str × Str => generateMapKeyString a p.1) Prod.snd values.entries m
    (generateMapKeyString b key)
  rcases hset with ⟨p, hp, htext, hget⟩ | ⟨hne, hget⟩
  · obtain ⟨hab, hkey⟩ := generateMapKeyString_inj.1 htext
    rw [if_pos hab, ← hkey, JsMap.get_eq_some_iff.2 hp]
    exact hkey ▸ hget
  · by_cases hab : a = b
    · have hnone : values.get key = none := by
        rw [JsMap.get_eq_none_iff]
        intro hmem
        obtain ⟨p, hp, hkey⟩ := List.mem_map.1 hmem
        exact hne p hp (generateMapKeyString_inj.2 ⟨hab, hkey⟩)
      rw [if_pos hab, hnone, Option.none_or]
      exact hget
    · rw [if_neg hab]
      exact hget

/-- **One operation changes what it sets**, and nothing else. -/
theorem getSync_apply (m : InMemoryKVStore) (o : Operation) (contractAddress : Bytes) (key : Str) :
    (o.apply m).getSync contractAddress key = (o.sets contractAddress key).or (m.getSync contractAddress key) := by
  cases o with
  | setSync a k value =>
    rw [Operation.apply, getSync_setSync, Operation.sets]
    by_cases h : a = contractAddress ∧ k = key
    · rw [if_pos h, if_pos ⟨h.1.symm, h.2.symm⟩, Option.some_or]
    · rw [if_neg h, if_neg fun hc => h ⟨hc.1.symm, hc.2.symm⟩, Option.none_or]
  | setMany a values =>
    rw [Operation.apply, getSync_setMany, Operation.sets]
    split_ifs
    · rfl
    · rw [Option.none_or]

theorem getSync_applyAll (operations : List Operation) (contractAddress : Bytes) (key : Str) :
    (applyAll .empty operations).getSync contractAddress key = lastSet operations contractAddress key := by
  induction operations using List.reverseRecOn with
  | nil => rfl
  | append_singleton operations o ih =>
    rw [applyAll, List.foldl_append, List.foldl_cons, List.foldl_nil, ← applyAll, getSync_apply, ih, lastSet_concat]

/-- A pair has the value of the last operation that set exactly this pair, or none if no operation did. -/
structure ReadsLastSet (operations : List Operation) (m : InMemoryKVStore) : Prop where
  getSync : ∀ contractAddress key value, m.getSync contractAddress key = some value ↔
    ∃ before o after, operations = before ++ o :: after ∧ o.sets contractAddress key = some value ∧
      ∀ l ∈ after, l.sets contractAddress key = none
  neverSet : ∀ contractAddress key, m.getSync contractAddress key = none ↔
    ∀ o ∈ operations, o.sets contractAddress key = none
  getMany : ∀ contractAddress keys key, (m.getMany contractAddress keys).get key =
    if key ∈ keys then m.getSync contractAddress key else none

/-- **Every pair reads its last value**, and nothing if it has never been set. -/
theorem readsLastSet (operations : List Operation) : ReadsLastSet operations (applyAll .empty operations) := by
  refine ⟨fun contractAddress key value => ?_, fun contractAddress key => ?_, get_getMany _⟩
  · rw [getSync_applyAll]
    exact lastSet_eq_some_iff
  · rw [getSync_applyAll]
    exact lastSet_eq_none_iff

example : (applyAll .empty [.setSync [0xab] "c.d".toList ['1'], .setSync [0xab, 0xc0] "d".toList ['2']]).getSync
    [0xab] "c.d".toList = some ['1'] := by decide

/-! ## The blocks that are replayed -/

def writeOperation (d : ModifiedStateKey) : Operation := .setSync d.contractAddress d.key d.value

theorem applyStateDiff_eq (m : InMemoryKVStore) (stateDiff : List ModifiedStateKey) :
    applyStateDiff m stateDiff = applyAll m (stateDiff.map writeOperation) := by
  rw [applyAll, List.foldl_map]
  rfl

/-- **What a replayed chain holds are its writes, one operation each.** -/
theorem replay_eq_applyAll (blocks : List Block) :
    replay blocks = applyAll .empty ((blocks.flatMap fun b => b.body.stateDiff).map writeOperation) := by
  rw [replay_eq, applyStateDiff_eq]

end InMemoryKVStore
end StateStorage
end Orbs
