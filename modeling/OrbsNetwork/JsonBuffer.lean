import OrbsNetwork.Lib.JsCoerce
/-!
# JsonBuffer — `parseJsonWithBuffers`

`JSON.parse` with a reviver that turns the JSON of a Buffer back into a Buffer.  The reviver works bottom up: it sees
an object after its members.  `none` is an exception: the text is not JSON, or a Buffer's element has no number value.
-/
namespace Orbs

open Js

/-- The reviver on an object: `"type" in v && v.type === "Buffer" && "data" in v && Array.isArray(v.data)`. -/
def bufferOf (l : List (Str × Val)) : Option Val :=
  match Val.get l "type".toList, Val.get l "data".toList with
  | some (.str t), some (.arr data) =>
    if t = "Buffer".toList then (data.mapM Val.toByte).map .buffer else some (.obj l)
  | _, _ => some (.obj l)

mutual

def revive : Json → Option Val
  | .null => some .null
  | .bool b => some (.bool b)
  | .num x => some (.num x)
  | .str s => some (.str s)
  | .arr l => (reviveElems l).map .arr
  | .obj l => (reviveMembers l).bind bufferOf

def reviveElems : List Json → Option (List Val)
  | [] => some []
  | v :: l => do
    let w ← revive v
    let ws ← reviveElems l
    pure (w :: ws)

def reviveMembers : List (Str × Json) → Option (List (Str × Val))
  | [] => some []
  | (k, v) :: l => do
    let w ← revive v
    let ws ← reviveMembers l
    pure ((k, w) :: ws)

end

def parseJsonWithBuffers (json : Str) : Option Val := (Json.parse json).bind revive

theorem reviveElems_map : ∀ {l : List Val}, (∀ v ∈ l, revive v.toJson = some v) →
    reviveElems (l.map Val.toJson) = some l
  | [], _ => rfl
  | v :: l, h => by
    rw [List.map_cons, reviveElems, h v (by simp), reviveElems_map fun w hw => h w (by simp [hw])]
    rfl

theorem reviveMembers_map : ∀ {l : List (Str × Val)}, (∀ p ∈ l, revive p.2.toJson = some p.2) →
    reviveMembers (l.map fun p => (p.1, p.2.toJson)) = some l
  | [], _ => rfl
  | p :: l, h => by
    rw [List.map_cons, reviveMembers, h p (by simp), reviveMembers_map fun q hq => h q (by simp [hq])]
    rfl

theorem bufferOf_of_not_mem {l : List (Str × Val)} (h : "type".toList ∉ l.map Prod.fst) :
    bufferOf l = some (.obj l) := by
  have hf : (l.find? fun p => decide (p.1 = "type".toList)) = none := by
    rw [List.find?_eq_none]
    intro p hp hk
    exact h (List.mem_map.2 ⟨p, hp, of_decide_eq_true hk⟩)
  rw [bufferOf, Val.get, hf]
  rfl

theorem reviveElems_bytes (bytes : List UInt8) :
    reviveElems (bytes.map fun b => .num (Number.ofNat b.toNat)) = some (bytes.map fun b => Val.ofNat b.toNat) := by
  induction bytes with
  | nil => rfl
  | cons b bytes ih =>
    rw [List.map_cons, reviveElems, ih]
    rfl

theorem mapM_toByte (bytes : List UInt8) : (bytes.map fun b => Val.ofNat b.toNat).mapM Val.toByte = some bytes := by
  induction bytes with
  | nil => rfl
  | cons b bytes ih =>
    rw [List.map_cons, List.mapM_cons, Val.toByte_ofNat, ih]
    rfl

theorem revive_bufferJson (bytes : List UInt8) : revive (Val.bufferJson bytes) = some (.buffer bytes) := by
  rw [Val.bufferJson, revive, reviveMembers, reviveMembers, revive, revive, reviveElems_bytes]
  change (((bytes.map fun b => Val.ofNat b.toNat).mapM Val.toByte).map Val.buffer) = _
  rw [mapM_toByte]
  rfl

theorem revive_toJson {v : Val} (hv : v.Proper) : revive v.toJson = some v := by
  induction hv with
  | null => rfl
  | bool b => rfl
  | num x => rfl
  | str s => rfl
  | buffer bytes => exact revive_bufferJson bytes
  | arr _ ih =>
    rw [Val.toJson, Val.elemsJson_eq, revive, reviveElems_map ih]
    rfl
  | obj _ ht _ ih =>
    rw [Val.toJson, Val.membersJson_eq, revive, reviveMembers_map ih]
    exact bufferOf_of_not_mem fun hm => (ht _ hm).1 rfl

/-- **What `JSON.stringify` wrote, `parseJsonWithBuffers` reads back.** -/
theorem parseJsonWithBuffers_stringify {v : Val} (hv : v.Proper) : parseJsonWithBuffers v.stringify = some v := by
  rw [parseJsonWithBuffers, Val.stringify, Json.parse_stringify hv.wf, Option.bind_some, revive_toJson hv]

end Orbs
