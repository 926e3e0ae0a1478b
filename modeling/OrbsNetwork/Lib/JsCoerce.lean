import OrbsNetwork.Lib.JsValue
import OrbsNetwork.Lib.Utf8
/-!
# JsCoerce — conversions of a value to a string, a number and a byte

The abstract operations `ToString`, `ToNumber` and `ToUint8` on values that came out of `JSON.parse`.  Such an object
has no methods of its own, so it converts through the inherited `toString`; an own property of that name hides it and
makes the conversion a `TypeError`, which is `none` here.
-/
namespace Js

/-- `ToUint8`: the integer part modulo 256. -/
def Number.toUint8 : Number → UInt8
  | .fin x => UInt8.ofNat ((if x.val < 0 then ⌈x.val⌉ else ⌊x.val⌋) % 256).toNat
  | _ => 0

theorem Number.toUint8_fin {x : Binary64.Double} {n : ℕ} (h : x.val = (n : ℤ)) :
    Number.toUint8 (.fin x) = UInt8.ofNat n := by
  have h0 : ¬ (x.val < 0) := by rw [h]; simp
  rw [Number.toUint8, if_neg h0, h, Int.floor_intCast]
  apply UInt8.toNat_inj.1
  simp only [UInt8.toNat_ofNat']
  omega

namespace Val

def get (l : List (Str × Val)) (k : Str) : Option Val := (l.find? fun p => p.1 = k).map Prod.snd

mutual

/-- `ToString`. -/
def toStr : Val → Option Str
  | .null => some "null".toList
  | .bool true => some "true".toList
  | .bool false => some "false".toList
  | .num x => some x.toString
  | .str s => some s
  | .buffer bytes => some (Utf8.decode bytes)
  | .arr l => (elemTexts l).map fun ts => List.intercalate [','] ts
  | .obj l => if (get l "toString".toList).isSome then none else some "[object Object]".toList

/-- The texts that `Array.prototype.join` puts together: `null` is the empty one. -/
def elemTexts : List Val → Option (List Str)
  | [] => some []
  | .null :: l => (elemTexts l).map fun ts => [] :: ts
  | v :: l => do
    let t ← toStr v
    let ts ← elemTexts l
    pure (t :: ts)

end

/-- `ToNumber`. -/
def toNumber : Val → Option Number
  | .null => some (Number.ofNat 0)
  | .bool b => some (Number.ofNat b.toNat)
  | .num x => some x
  | v => v.toStr.map Number.ofString

/-- A byte of `new Buffer(array)`. -/
def toByte (v : Val) : Option UInt8 := v.toNumber.map Number.toUint8

theorem toByte_ofNat (b : UInt8) : toByte (ofNat b.toNat) = some b := by
  have hb := b.toNat_lt
  rw [ofNat, Number.ofNat_eq (by omega), toByte, toNumber, Option.map_some, Number.toUint8_fin rfl]
  simp

end Val
end Js
