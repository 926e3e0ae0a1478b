import OrbsNetwork.Lib.JsonRoundtrip
import Mathlib.Data.List.Sort
/-!
# JsValue — values with Node Buffers, and their texts

`Val` is a JSON value that may hold Buffers.  `JSON.stringify` prints a Buffer through its `toJSON`, as an object with
its `type` and its `data`; `stableStringify` is the json-stable-stringify package, the same text with the keys of every
object sorted.
-/
namespace Js

inductive Val where
  | null
  | bool (b : Bool)
  | num (x : Number)
  | str (s : Str)
  | buffer (bytes : List UInt8)
  | arr (l : List Val)
  | obj (l : List (Str × Val))

namespace Val

def ofNat (n : ℕ) : Val := .num (Number.ofNat n)

/-- `Buffer.prototype.toJSON`. -/
def bufferJson (bytes : List UInt8) : Json :=
  .obj [("type".toList, .str "Buffer".toList),
    ("data".toList, .arr (bytes.map fun b => .num (Number.ofNat b.toNat)))]

mutual

def toJson : Val → Json
  | .null => .null
  | .bool b => .bool b
  | .num x => .num x
  | .str s => .str s
  | .buffer bytes => bufferJson bytes
  | .arr l => .arr (elemsJson l)
  | .obj l => .obj (membersJson l)

def elemsJson : List Val → List Json
  | [] => []
  | v :: l => toJson v :: elemsJson l

def membersJson : List (Str × Val) → List (Str × Json)
  | [] => []
  | (k, v) :: l => (k, toJson v) :: membersJson l

end

def stringify (v : Val) : Str := v.toJson.stringify

mutual

/-- A value that came out of `JSON.parse`. -/
def ofJson : Json → Val
  | .null => .null
  | .bool b => .bool b
  | .num x => .num x
  | .str s => .str s
  | .arr l => .arr (ofElems l)
  | .obj l => .obj (ofMembers l)

def ofElems : List Json → List Val
  | [] => []
  | v :: l => ofJson v :: ofElems l

def ofMembers : List (Str × Json) → List (Str × Val)
  | [] => []
  | (k, v) :: l => (k, ofJson v) :: ofMembers l

end

/-! ## Sorted keys -/

/-- Strings in the order of their characters. -/
def strLe (a b : Str) : Bool := decide (a.map Char.toNat ≤ b.map Char.toNat)

mutual

def sortKeys : Json → Json
  | .arr l => .arr (sortElems l)
  | .obj l => .obj ((sortMembers l).insertionSort fun p q => strLe p.1 q.1)
  | v => v

def sortElems : List Json → List Json
  | [] => []
  | v :: l => sortKeys v :: sortElems l

def sortMembers : List (Str × Json) → List (Str × Json)
  | [] => []
  | (k, v) :: l => (k, sortKeys v) :: sortMembers l

end

def stableStringify (v : Val) : Str := (sortKeys v.toJson).stringify

/-! ## Values whose text loses nothing -/

/-- A key that makes no Buffer of an object and is no array index. -/
def Named (k : Str) : Prop := k ≠ "type".toList ∧ Json.arrayIndex k = none

instance (k : Str) : Decidable (Named k) := inferInstanceAs (Decidable (_ ∧ _))

/-- Finite numbers, and objects with different keys that are names. -/
inductive Proper : Val → Prop where
  | null : Proper .null
  | bool (b : Bool) : Proper (.bool b)
  | num (x : Binary64.Double) : Proper (.num (.fin x))
  | str (s : Str) : Proper (.str s)
  | buffer (bytes : List UInt8) : Proper (.buffer bytes)
  | arr {l : List Val} (h : ∀ v ∈ l, Proper v) : Proper (.arr l)
  | obj {l : List (Str × Val)} (hk : (l.map Prod.fst).Nodup) (ht : ∀ k ∈ l.map Prod.fst, Named k)
      (h : ∀ p ∈ l, Proper p.2) : Proper (.obj l)

theorem elemsJson_eq : ∀ l : List Val, elemsJson l = l.map toJson
  | [] => rfl
  | v :: l => by rw [elemsJson, elemsJson_eq l]; rfl

theorem membersJson_eq : ∀ l : List (Str × Val), membersJson l = l.map fun p => (p.1, p.2.toJson)
  | [] => rfl
  | (k, v) :: l => by rw [membersJson, membersJson_eq l]; rfl

theorem keys_membersJson (l : List (Str × Val)) : (membersJson l).map Prod.fst = l.map Prod.fst := by
  rw [membersJson_eq, List.map_map]
  rfl

theorem ofElems_eq : ∀ l : List Json, ofElems l = l.map ofJson
  | [] => rfl
  | v :: l => by rw [ofElems, ofElems_eq l, List.map_cons]

theorem ofMembers_eq : ∀ l : List (Str × Json), ofMembers l = l.map fun p => (p.1, ofJson p.2)
  | [] => rfl
  | (k, v) :: l => by rw [ofMembers, ofMembers_eq l, List.map_cons]

theorem ofJson_eq_num {v : Json} {x : Number} (h : ofJson v = .num x) : v = .num x := by
  cases v <;> cases h
  rfl

theorem proper_ofNat {n : ℕ} (h : n ≤ 2 ^ 53) : Proper (ofNat n) := by
  rw [ofNat, Number.ofNat_eq h]
  exact .num _

theorem wf_bytes (bytes : List UInt8) : Json.Wf (.arr (bytes.map fun b => .num (Number.ofNat b.toNat))) := by
  refine .arr fun v hv => ?_
  obtain ⟨b, -, rfl⟩ := List.mem_map.1 hv
  rw [Number.ofNat_eq (by have := b.toNat_lt; omega)]
  exact .num _

theorem named_bufferJson : ∀ k ∈ ["type".toList, "data".toList], Json.arrayIndex k = none := by decide

theorem wf_bufferJson (bytes : List UInt8) : Json.Wf (bufferJson bytes) := by
  refine .obj (show ["type".toList, "data".toList].Nodup by decide) (Json.propertyOrder_of_plain named_bufferJson)
    fun p hp => ?_
  rcases List.mem_cons.1 hp with rfl | hp
  · exact .str _
  · rw [List.mem_singleton.1 hp]
    exact wf_bytes bytes

theorem Proper.wf {v : Val} (hv : Proper v) : Json.Wf v.toJson := by
  induction hv with
  | null => exact .null
  | bool b => exact .bool b
  | num x => exact .num x
  | str s => exact .str s
  | buffer bytes => exact wf_bufferJson bytes
  | arr _ ih =>
    refine .arr fun w hw => ?_
    rw [elemsJson_eq] at hw
    obtain ⟨v, hv, rfl⟩ := List.mem_map.1 hw
    exact ih v hv
  | @obj l hk ht _ ih =>
    have hkeys := keys_membersJson l
    refine .obj (hkeys ▸ hk) (Json.propertyOrder_of_plain fun k hm => (ht k (hkeys ▸ hm)).2) fun p hp => ?_
    rw [membersJson_eq] at hp
    obtain ⟨q, hq, rfl⟩ := List.mem_map.1 hp
    exact ih q hq

end Val
end Js
