import OrbsNetwork.Lib.JsCodec
/-!
# JsonSorted — stable stringification loses nothing

The text with sorted keys parses to the value with sorted keys, and a property of the one is that of the other.
-/
namespace Js
namespace Val

theorem sortElems_eq (l : List Json) : sortElems l = l.map sortKeys := by
  induction l with
  | nil => rfl
  | cons v l ih => rw [sortElems, ih, List.map_cons]

theorem sortMembers_eq (l : List (Str × Json)) : sortMembers l = l.map fun p => (p.1, sortKeys p.2) := by
  induction l with
  | nil => rfl
  | cons p l ih => rw [sortMembers, ih, List.map_cons]

/-- The members of an object in the order of their keys. -/
def sorted (l : List (Str × Json)) : List (Str × Json) :=
  (l.map fun p => (p.1, sortKeys p.2)).insertionSort fun p q => strLe p.1 q.1

theorem sortKeys_obj (l : List (Str × Json)) : sortKeys (.obj l) = .obj (sorted l) := by
  rw [sortKeys, sortMembers_eq, sorted]

theorem perm_sorted (l : List (Str × Json)) : (sorted l).Perm (l.map fun p => (p.1, sortKeys p.2)) :=
  List.perm_insertionSort _ _

theorem nodup_sorted {l : List (Str × Json)} (h : (l.map Prod.fst).Nodup) : ((sorted l).map Prod.fst).Nodup := by
  apply ((perm_sorted l).map Prod.fst).nodup_iff.2
  rw [List.map_map]
  exact h

/-- Sorted members, of which none is under an index, are as the parser makes them. -/
theorem wf_sorted {l : List (Str × Json)} (hk : (l.map Prod.fst).Nodup)
    (hi : ∀ k ∈ l.map Prod.fst, Json.arrayIndex k = none) (h : ∀ p ∈ l, Json.Wf (sortKeys p.2)) :
    Json.Wf (.obj (sorted l)) := by
  refine .obj (nodup_sorted hk) (Json.propertyOrder_of_plain fun k hm => ?_) fun p hp => ?_
  · rw [((perm_sorted l).map Prod.fst).mem_iff, List.map_map] at hm
    exact hi k hm
  · obtain ⟨q, hq, rfl⟩ := List.mem_map.1 ((perm_sorted _).mem_iff.1 hp)
    exact h q hq

theorem sortElems_bytes (bytes : List UInt8) : sortElems (bytes.map fun b => Json.num (Number.ofNat b.toNat)) =
    bytes.map fun b => Json.num (Number.ofNat b.toNat) := by
  rw [sortElems_eq, List.map_map]
  rfl

theorem wf_sortKeys_bufferJson (bytes : List UInt8) : Json.Wf (sortKeys (bufferJson bytes)) := by
  rw [bufferJson, sortKeys_obj]
  refine wf_sorted (by decide : ["type".toList, "data".toList].Nodup) named_bufferJson fun p hp => ?_
  rcases List.mem_cons.1 hp with rfl | hp
  · exact .str _
  · rw [List.mem_singleton.1 hp, sortKeys, sortElems_bytes]
    exact wf_bytes bytes

theorem wf_sortKeys {v : Val} (h : v.Proper) : Json.Wf (sortKeys v.toJson) := by
  induction h with
  | null => exact .null
  | bool b => exact .bool b
  | num x => exact .num x
  | str s => exact .str s
  | buffer bytes => exact wf_sortKeys_bufferJson bytes
  | @arr l _ ih =>
    rw [toJson, sortKeys, sortElems_eq, elemsJson_eq, List.map_map]
    exact .arr (List.forall_mem_map.2 ih)
  | @obj l hk ht _ ih =>
    have hkeys := keys_membersJson l
    rw [toJson, sortKeys_obj]
    refine wf_sorted (hkeys ▸ hk) (fun k hm => (ht k (hkeys ▸ hm)).2) fun p hp => ?_
    rw [membersJson_eq] at hp
    obtain ⟨q, hq, rfl⟩ := List.mem_map.1 hp
    exact ih q hq

/-- **A stable text parses to the value with sorted keys.** -/
theorem parse_stableStringify {v : Val} (h : v.Proper) : Json.parse v.stableStringify = some (sortKeys v.toJson) :=
  Json.parse_stringify (wf_sortKeys h)

theorem get_eq_some_iff {l : List (Str × Val)} (hk : (l.map Prod.fst).Nodup) {k : Str} {v : Val} :
    get l k = some v ↔ (k, v) ∈ l := by
  constructor
  · intro h
    obtain ⟨p, hp, rfl⟩ := Option.map_eq_some_iff.1 h
    have hpk : p.1 = k := by simpa using List.find?_some hp
    exact hpk ▸ List.mem_of_find?_eq_some hp
  · exact fun h => get_of_mem hk h

/-- What is read back of the stable text of a value: Buffers as objects, keys in order. -/
def reread (v : Val) : Val := ofJson (sortKeys v.toJson)

theorem get_sorted {l : List (Str × Val)} (hk : (l.map Prod.fst).Nodup) (k : Str) :
    get (ofMembers (sorted (membersJson l))) k = (get l k).map reread := by
  have hk' : ((membersJson l).map Prod.fst).Nodup := keys_membersJson l ▸ hk
  have hn : ((ofMembers (sorted (membersJson l))).map Prod.fst).Nodup := by
    rw [ofMembers_eq, List.map_map]
    exact nodup_sorted hk'
  apply Option.ext
  intro w
  rw [get_eq_some_iff hn, Option.map_eq_some_iff, ofMembers_eq, List.mem_map]
  constructor
  · rintro ⟨p, hp, hw⟩
    obtain ⟨q, hq, rfl⟩ := List.mem_map.1 ((perm_sorted _).mem_iff.1 hp)
    rw [membersJson_eq] at hq
    obtain ⟨⟨k', v⟩, hv, rfl⟩ := List.mem_map.1 hq
    cases hw
    exact ⟨v, (get_eq_some_iff hk).2 hv, rfl⟩
  · rintro ⟨v, hv, rfl⟩
    refine ⟨(k, sortKeys v.toJson), (perm_sorted _).mem_iff.2 ?_, rfl⟩
    rw [membersJson_eq, List.map_map]
    exact List.mem_map.2 ⟨(k, v), (get_eq_some_iff hk).1 hv, rfl⟩

@[simp] theorem reread_str (s : Str) : reread (.str s) = .str s := rfl

theorem reread_buffer (bytes : List UInt8) : reread (.buffer bytes) = .obj
    [("data".toList, .arr (bytes.map fun b => ofNat b.toNat)), ("type".toList, .str "Buffer".toList)] := by
  have helems : ofElems (bytes.map fun b => Json.num (Number.ofNat b.toNat)) = bytes.map fun b => ofNat b.toNat := by
    rw [ofElems_eq, List.map_map]
    rfl
  have hsorted : sortKeys (bufferJson bytes) = .obj
      [("data".toList, .arr (bytes.map fun b => .num (Number.ofNat b.toNat))), ("type".toList, .str "Buffer".toList)] := by
    rw [bufferJson, sortKeys_obj, sorted]
    simp only [List.map_cons, List.map_nil, sortKeys, sortElems_bytes]
    rfl
  rw [reread, toJson, hsorted, ofJson, ofMembers, ofMembers, ofMembers, ofJson, ofJson, helems]

end Val
end Js
