import OrbsNetwork.Lib.JsNumber
import Mathlib.Data.List.Sort
/-!
# Json — `JSON.stringify` and `JSON.parse`

Values, their text, and the parser of the ECMAScript JSON grammar.  `parse` reads white space, escapes and every
number form.  A repeated key keeps its first place and its last value, and the keys that are array indices come first, in
ascending order.  A lone surrogate escape, which no Unicode text can hold, reads as U+FFFD.  The parsers of arrays and
objects take the parser of their elements as an argument, so the only recursion of `parseValue` is on its fuel; the
length of the text is always enough (`JsonRoundtrip`).
-/
namespace Js

inductive Json where
  | null
  | bool (b : Bool)
  | num (x : Number)
  | str (s : Str)
  | arr (l : List Json)
  | obj (l : List (Str × Json))

namespace Json

/-! ## Text -/

/-- `QuoteJSONString` on one character. -/
def escape (c : Char) : Str :=
  if c = '"' then ['\\', '"']
  else if c = '\\' then ['\\', '\\']
  else if c.toNat = 8 then ['\\', 'b']
  else if c.toNat = 9 then ['\\', 't']
  else if c.toNat = 10 then ['\\', 'n']
  else if c.toNat = 12 then ['\\', 'f']
  else if c.toNat = 13 then ['\\', 'r']
  else if c.toNat < 32 then
    ['\\', 'u', '0', '0', Nat.digitChar (c.toNat / 16), Nat.digitChar (c.toNat % 16)]
  else [c]

def quote (s : Str) : Str := '"' :: (s.flatMap escape ++ ['"'])

/-- A number prints as itself, the non-finite ones as `null`. -/
def numberText : Number → Str
  | .fin x => Number.toString (.fin x)
  | _ => "null".toList

mutual

/-- `JSON.stringify`. -/
def stringify : Json → Str
  | .null => "null".toList
  | .bool true => "true".toList
  | .bool false => "false".toList
  | .num x => numberText x
  | .str s => quote s
  | .arr [] => ['[', ']']
  | .arr (v :: l) => '[' :: (stringify v ++ elemsText l)
  | .obj [] => ['{', '}']
  | .obj ((k, v) :: l) => '{' :: (quote k ++ ':' :: (stringify v ++ membersText l))

def elemsText : List Json → Str
  | [] => [']']
  | v :: l => ',' :: (stringify v ++ elemsText l)

def membersText : List (Str × Json) → Str
  | [] => ['}']
  | (k, v) :: l => ',' :: (quote k ++ ':' :: (stringify v ++ membersText l))

end

/-! ## Parsing -/

def isSpace (c : Char) : Bool := c = ' ' || c = '\t' || c = '\n' || c = '\r'

def skipSpace (cs : Str) : Str := cs.dropWhile isSpace

def hexVal (c : Char) : Option ℕ :=
  if c.isDigit then some (c.toNat - 48)
  else if 97 ≤ c.toNat ∧ c.toNat ≤ 102 then some (c.toNat - 87)
  else if 65 ≤ c.toNat ∧ c.toNat ≤ 70 then some (c.toNat - 55)
  else none

def hex4 (a b c d : Char) : Option ℕ := do
  let a ← hexVal a
  let b ← hexVal b
  let c ← hexVal c
  let d ← hexVal d
  pure (((a * 16 + b) * 16 + c) * 16 + d)

/-- The code of a one-letter escape. -/
def simpleEscape (c : Char) : Option ℕ :=
  if c = '"' ∨ c = '\\' ∨ c = '/' then some c.toNat
  else if c = 'b' then some 8
  else if c = 't' then some 9
  else if c = 'n' then some 10
  else if c = 'f' then some 12
  else if c = 'r' then some 13
  else none

/-- A string after its opening quote: the code units, and what follows the closing quote. -/
def scanUnits : Str → Option (List ℕ × Str)
  | [] => none
  | c :: cs =>
    if c = '"' then some ([], cs)
    else if c = '\\' then
      match cs with
      | 'u' :: h1 :: h2 :: h3 :: h4 :: cs => do
        let n ← hex4 h1 h2 h3 h4
        let (l, cs) ← scanUnits cs
        pure (n :: l, cs)
      | e :: cs => do
        let n ← simpleEscape e
        let (l, cs) ← scanUnits cs
        pure (n :: l, cs)
      | [] => none
    else if c.toNat < 32 then none
    else do
      let (l, cs) ← scanUnits cs
      pure (c.toNat :: l, cs)

def isHigh (n : ℕ) : Bool := 0xD800 ≤ n && n < 0xDC00
def isLow (n : ℕ) : Bool := 0xDC00 ≤ n && n < 0xE000

def ofUnit (n : ℕ) : Char := if isHigh n || isLow n then Char.ofNat 0xFFFD else Char.ofNat n

/-- Code units to characters: an escaped surrogate pair is one character. -/
def decodeUnits : List ℕ → Str
  | h :: l :: rest =>
    if isHigh h && isLow l then Char.ofNat (0x10000 + (h - 0xD800) * 0x400 + (l - 0xDC00)) :: decodeUnits rest
    else ofUnit h :: decodeUnits (l :: rest)
  | [h] => [ofUnit h]
  | [] => []

def parseString (cs : Str) : Option (Str × Str) :=
  (scanUnits cs).map fun p => (decodeUnits p.1, p.2)

/-- Set a property: a repeated key keeps its place. -/
def setKey (k : Str) (v : Json) : List (Str × Json) → List (Str × Json)
  | [] => [(k, v)]
  | (k', v') :: l => if k' = k then (k, v) :: l else (k', v') :: setKey k v l

/-- The array index that a key is the text of. -/
def arrayIndex (k : Str) : Option ℕ :=
  if k.all Char.isDigit then
    let n := k.foldl (fun n c => 10 * n + (c.toNat - 48)) 0
    if k = Nat.toDigits 10 n ∧ n < 2 ^ 32 - 1 then some n else none
  else none

/-- `OrdinaryOwnPropertyKeys`: the indices in ascending order, then the other keys in the order in which they were set. -/
def propertyOrder (l : List (Str × Json)) : List (Str × Json) :=
  (l.filter fun p => (arrayIndex p.1).isSome).insertionSort (fun p q => (arrayIndex p.1).getD 0 ≤ (arrayIndex q.1).getD 0) ++
    l.filter fun p => !(arrayIndex p.1).isSome

def ofMembers (l : List (Str × Json)) : Json :=
  .obj (propertyOrder (l.foldl (fun acc p => setKey p.1 p.2 acc) []))

/-- The elements of a non-empty array, up to and with the closing bracket. -/
def parseElems (value : Str → Option (Json × Str)) : ℕ → Str → Option (List Json × Str)
  | 0, _ => none
  | n + 1, cs => do
    let (v, cs) ← value cs
    match skipSpace cs with
    | ',' :: cs => do
      let (l, cs) ← parseElems value n cs
      pure (v :: l, cs)
    | ']' :: cs => pure ([v], cs)
    | _ => none

/-- The members of a non-empty object, up to and with the closing brace. -/
def parseMembers (value : Str → Option (Json × Str)) : ℕ → Str → Option (List (Str × Json) × Str)
  | 0, _ => none
  | n + 1, cs =>
    match skipSpace cs with
    | '"' :: cs => do
      let (k, cs) ← parseString cs
      match skipSpace cs with
      | ':' :: cs => do
        let (v, cs) ← value cs
        match skipSpace cs with
        | ',' :: cs => do
          let (l, cs) ← parseMembers value n cs
          pure ((k, v) :: l, cs)
        | '}' :: cs => pure ([(k, v)], cs)
        | _ => none
      | _ => none
    | _ => none

def parseValue : ℕ → Str → Option (Json × Str)
  | 0, _ => none
  | n + 1, cs =>
    match skipSpace cs with
    | 'n' :: 'u' :: 'l' :: 'l' :: cs => some (.null, cs)
    | 't' :: 'r' :: 'u' :: 'e' :: cs => some (.bool true, cs)
    | 'f' :: 'a' :: 'l' :: 's' :: 'e' :: cs => some (.bool false, cs)
    | '"' :: cs => (parseString cs).map fun p => (.str p.1, p.2)
    | '[' :: cs =>
      match skipSpace cs with
      | ']' :: cs => some (.arr [], cs)
      | cs => (parseElems (parseValue n) n cs).map fun p => (.arr p.1, p.2)
    | '{' :: cs =>
      match skipSpace cs with
      | '}' :: cs => some (.obj [], cs)
      | cs => (parseMembers (parseValue n) n cs).map fun p => (ofMembers p.1, p.2)
    | cs => (Number.scan cs).map fun p => (.num p.1, p.2)

/-- `JSON.parse`: `none` is the `SyntaxError`. -/
def parse (cs : Str) : Option Json :=
  match parseValue (cs.length + 1) cs with
  | some (v, rest) => if skipSpace rest = [] then some v else none
  | none => none

end Json
end Js
