import OrbsNetwork.Lib.JsCoerce
/-!
# JsObject — reading a value whose type nobody checked

Property reads, truth values and the texts of values that came out of `JSON.parse`.  `none` is `undefined`; an error
is an exception with its text.
-/
namespace Js

/-- A property read. -/
def property (v : Option Val) (key : Str) : Except Str (Option Val) :=
  match v with
  | none => .error ("TypeError: Cannot read property '".toList ++ key ++ "' of undefined".toList)
  | some .null => .error ("TypeError: Cannot read property '".toList ++ key ++ "' of null".toList)
  | some (.obj l) => .ok (Val.get l key)
  | some _ => .ok none

/-- `if (v)`. -/
def truthy : Option Val → Bool
  | none | some .null => false
  | some (.bool b) => b
  | some (.num x) => x.truthy
  | some (.str s) => s ≠ []
  | some _ => true

/-- `v.toString(encoding)`: a number takes the argument for a radix, and all others but Buffers ignore it. -/
def encodedText (encoding : List UInt8 → Str) : Option Val → Except Str Str
  | none => .error "TypeError: Cannot read property 'toString' of undefined".toList
  | some .null => .error "TypeError: Cannot read property 'toString' of null".toList
  | some (.buffer bytes) => .ok (encoding bytes)
  | some (.num _) => .error "RangeError: toString() radix argument must be between 2 and 36".toList
  | some v => match v.toStr with
    | some text => .ok text
    | none => .error "TypeError: toString is not a function".toList

/-- `${v}`. -/
def templateText : Option Val → Except Str Str
  | none => .ok "undefined".toList
  | some v => match v.toStr with
    | some text => .ok text
    | none => .error "TypeError: Cannot convert object to primitive value".toList

/-- The members of an object literal that stable stringification keeps. -/
def defined (l : List (Str × Option Val)) : Val := .obj (l.filterMap fun p => p.2.map fun v => (p.1, v))

end Js
