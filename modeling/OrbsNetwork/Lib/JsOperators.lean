import OrbsNetwork.Lib.JsCoerce
/-!
# JsOperators — operators on values of any type

The operators `<` and `+` and the property `length`, on values that came out of `JSON.parse` and on `undefined`, which is
`none`.  The operators convert their operands to primitives first, and throw a `TypeError` where `ToString` does; that is
the outer `none` here.
-/
namespace Js

/-- The UTF-16 code units of a string. -/
def codeUnits (s : Str) : List ℕ :=
  s.flatMap fun c =>
    if c.toNat < 0x10000 then [c.toNat]
    else [0xD800 + (c.toNat - 0x10000) / 0x400, 0xDC00 + (c.toNat - 0x10000) % 0x400]

namespace Val

/-- `ToString`, `ToNumber` and `ToPrimitive` do not throw. -/
def convertible (v : Option Val) : Bool := v.all fun v => v.toStr.isSome

/-- `ToPrimitive`. -/
def toPrimitive : Option Val → Option (Option Val)
  | none => some none
  | some (.buffer bytes) => some (some (.str (Utf8.decode bytes)))
  | some (.arr l) => (toStr (.arr l)).map fun s => some (.str s)
  | some (.obj l) => (toStr (.obj l)).map fun s => some (.str s)
  | some v => some (some v)

def numberOf (v : Option Val) : Option Number := v.elim (some .nan) toNumber

def textOf (v : Option Val) : Option Str := v.elim (some "undefined".toList) toStr

/-- The operator `<`: strings by their code units, all else by numbers. -/
def less (a b : Option Val) : Option Bool :=
  match toPrimitive a, toPrimitive b with
  | some (some (.str s)), some (some (.str t)) => some (decide (codeUnits s < codeUnits t))
  | some x, some y => (numberOf x).bind fun x => (numberOf y).map fun y => x.lt y
  | _, _ => none

/-- The operator `+`: a string with anything makes a string. -/
def plus (a b : Option Val) : Option Val :=
  match toPrimitive a, toPrimitive b with
  | some (some (.str s)), some y => (textOf y).map fun t => .str (s ++ t)
  | some x, some (some (.str t)) => (textOf x).map fun s => .str (s ++ t)
  | some x, some y => (numberOf x).bind fun x => (numberOf y).map fun y => .num (x.add y)
  | _, _ => none

theorem isSome_textOf (v : Option Val) : (textOf v).isSome = convertible v := by
  cases v <;> rfl

theorem isSome_numberOf (v : Option Val) : (numberOf v).isSome = convertible v := by
  rcases v with _ | v
  · rfl
  · cases v with
    | bool b => cases b <;> rfl
    | arr l => exact Option.isSome_map
    | obj l => exact Option.isSome_map
    | _ => rfl

theorem isSome_toPrimitive (v : Option Val) : (toPrimitive v).isSome = convertible v := by
  rcases v with _ | v
  · rfl
  · cases v with
    | bool b => cases b <;> rfl
    | arr l => exact Option.isSome_map
    | obj l => exact Option.isSome_map
    | _ => rfl

/-- What `ToPrimitive` gives converts further. -/
theorem convertible_of_toPrimitive {v x : Option Val} (h : toPrimitive v = some x) : convertible x = true := by
  rcases v with _ | v
  · cases h
    rfl
  · cases v with
    | bool b => cases b <;> cases h <;> rfl
    | arr l =>
      obtain ⟨s, -, rfl⟩ := Option.map_eq_some_iff.1 h
      rfl
    | obj l =>
      obtain ⟨s, -, rfl⟩ := Option.map_eq_some_iff.1 h
      rfl
    | _ =>
      cases h
      rfl

theorem isSome_of_toPrimitive {v x : Option Val} (h : toPrimitive v = some x) :
    (textOf x).isSome = true ∧ (numberOf x).isSome = true := by
  rw [isSome_textOf, isSome_numberOf, convertible_of_toPrimitive h]
  exact ⟨rfl, rfl⟩

theorem isSome_less (a b : Option Val) : (less a b).isSome = (convertible a && convertible b) := by
  rw [← isSome_toPrimitive, ← isSome_toPrimitive]
  unfold less
  cases ha : toPrimitive a with
  | none => rfl
  | some x =>
    cases hb : toPrimitive b with
    | none => simp
    | some y =>
      obtain ⟨m, hm⟩ := Option.isSome_iff_exists.1 (isSome_of_toPrimitive ha).2
      obtain ⟨n, hn⟩ := Option.isSome_iff_exists.1 (isSome_of_toPrimitive hb).2
      split
      · rfl
      · rename_i hx hy
        cases hx
        cases hy
        rw [hm, hn]
        rfl
      · rename_i h
        exact absurd rfl (h x y rfl)

theorem isSome_plus (a b : Option Val) : (plus a b).isSome = (convertible a && convertible b) := by
  rw [← isSome_toPrimitive, ← isSome_toPrimitive]
  unfold plus
  cases ha : toPrimitive a with
  | none => rfl
  | some x =>
    cases hb : toPrimitive b with
    | none => simp
    | some y =>
      obtain ⟨s, hs⟩ := Option.isSome_iff_exists.1 (isSome_of_toPrimitive ha).1
      obtain ⟨t, ht⟩ := Option.isSome_iff_exists.1 (isSome_of_toPrimitive hb).1
      obtain ⟨m, hm⟩ := Option.isSome_iff_exists.1 (isSome_of_toPrimitive ha).2
      obtain ⟨n, hn⟩ := Option.isSome_iff_exists.1 (isSome_of_toPrimitive hb).2
      split
      · rename_i hx hy
        cases hy
        rw [ht]
        rfl
      · rename_i hx hy
        cases hx
        rw [hs]
        rfl
      · rename_i hx hy
        cases hx
        cases hy
        rw [hm, hn]
        rfl
      · rename_i h
        exact absurd rfl (h x y rfl)

end Val
end Js
