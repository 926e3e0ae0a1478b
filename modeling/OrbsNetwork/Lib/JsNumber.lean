import OrbsNetwork.Lib.Binary64
import Mathlib.Tactic.NormNum
/-!
# JsNumber — the ECMAScript Number type

`Js.Number` is a binary64 value: `NaN`, the infinities, and the finite doubles.  Addition and subtraction round the
exact result; the relational operators are false on `NaN`.  `Number.toString` prints the shortest digits that read
back as the same double, and `Number.ofString` is the conversion `Number(s)` of a string.

`scanUnsigned_format` is the law that matters: a printed decimal scans back as the same rational.
-/
namespace Js

open Binary64

/-- A string, as its characters. -/
abbrev Str := List Char

instance : LawfulBEq Str := List.instLawfulBEq

inductive Number where
  | nan
  | inf (neg : Bool)
  | fin (x : Double)
  deriving DecidableEq

namespace Number

/-- The value of an exact result: rounded, and infinite out of range. -/
def ofRat (q : ℚ) : Number :=
  if h : |nearest q| < 2 ^ 1024 then .fin ⟨nearest q, nearest_nearest q, h⟩ else .inf (decide (q < 0))

def ofNat (n : ℕ) : Number := ofRat n

def neg : Number → Number
  | .nan => .nan
  | .inf b => .inf (!b)
  | .fin x => .fin x.neg

def add : Number → Number → Number
  | .nan, _ => .nan
  | _, .nan => .nan
  | .inf a, .inf b => if a = b then .inf a else .nan
  | .inf a, .fin _ => .inf a
  | .fin _, .inf b => .inf b
  | .fin x, .fin y => ofRat (x.val + y.val)

def sub (a b : Number) : Number := add a b.neg

/-- The operator `<`. -/
def lt : Number → Number → Bool
  | .nan, _ => false
  | _, .nan => false
  | .inf a, .inf b => a && !b
  | .inf a, .fin _ => a
  | .fin _, .inf b => !b
  | .fin x, .fin y => decide (x.val < y.val)

/-- The operator `<=`. -/
def le : Number → Number → Bool
  | .nan, _ => false
  | _, .nan => false
  | .inf a, .inf b => a || !b
  | .inf a, .fin _ => a
  | .fin _, .inf b => !b
  | .fin x, .fin y => decide (x.val ≤ y.val)

/-- `ToBoolean`. -/
def truthy : Number → Bool
  | .nan => false
  | .inf _ => true
  | .fin x => x.val ≠ 0

theorem ofRat_of_nearest {q : ℚ} {x : Double} (h : nearest q = x.val) : ofRat q = .fin x := by
  have hr : |nearest q| < 2 ^ 1024 := by rw [h]; exact x.inRange
  rw [ofRat, dif_pos hr, fin.injEq]
  exact Double.ext h

theorem ofRat_val (x : Double) : ofRat x.val = .fin x := ofRat_of_nearest x.isNearest

theorem ofNat_eq {n : ℕ} (h : n ≤ 2 ^ 53) :
    ofNat n = .fin (.ofInt n (by rw [abs_of_nonneg (by omega)]; omega)) := by
  refine ofRat_of_nearest ?_
  have := nearest_intCast (n := (n : ℤ)) (by rw [abs_of_nonneg (by omega)]; omega)
  simpa [Double.ofInt] using this

theorem lt_of_le_of_lt {a b c : Number} (h1 : le a b = true) (h2 : lt b c = true) : lt a c = true := by
  cases a with
  | nan => cases h1
  | inf a =>
    cases b with
    | nan => cases h2
    | inf b => cases c <;> revert h1 h2 <;> cases a <;> cases b <;> simp [le, lt]
    | fin y => cases c <;> revert h1 h2 <;> cases a <;> simp [le, lt]
  | fin x =>
    cases b with
    | nan => cases h2
    | inf b => cases c <;> revert h1 h2 <;> cases b <;> simp [le, lt]
    | fin y =>
      cases c with
      | nan => cases h2
      | inf c => exact h2
      | fin z =>
        simp only [le, lt, decide_eq_true_eq] at h1 h2 ⊢
        exact h1.trans_lt h2

theorem lt_of_lt_of_le {a b c : Number} (h1 : lt a b = true) (h2 : le b c = true) : lt a c = true := by
  cases c with
  | nan => cases b <;> cases h2
  | inf c =>
    cases b with
    | nan => cases h2
    | inf b => cases a <;> revert h1 h2 <;> cases b <;> cases c <;> simp [le, lt]
    | fin y => cases a <;> revert h1 h2 <;> cases c <;> simp [le, lt]
  | fin z =>
    cases b with
    | nan => cases h2
    | inf b => cases a <;> revert h1 h2 <;> cases b <;> simp [le, lt]
    | fin y =>
      cases a with
      | nan => cases h1
      | inf a => exact h1
      | fin x =>
        simp only [le, lt, decide_eq_true_eq] at h1 h2 ⊢
        exact h1.trans_le h2

theorem ofNat_le_ofNat {m n : ℕ} (h : m ≤ n) (hn : n ≤ 2 ^ 53) : le (ofNat m) (ofNat n) = true := by
  rw [ofNat_eq hn, ofNat_eq (h.trans hn)]
  simpa [le, Double.ofInt] using h

/-- `Number.MAX_SAFE_INTEGER`. -/
def maxSafeInteger : Number := ofNat (2 ^ 53 - 1)

theorem sub_fin (x y : Double) : sub (.fin x) (.fin y) = ofRat (x.val - y.val) := by
  rw [sub, neg, add, Double.neg, sub_eq_add_neg]

/-- Rounding does not pass a double, however large the other values are. -/
theorem sub_ofNat {m n : ℕ} (h : n ≤ m) (hm : m ≤ 2 ^ 53) : sub (ofNat m) (ofNat n) = ofNat (m - n) := by
  rw [ofNat_eq hm, ofNat_eq (h.trans hm), sub_fin, ofNat, Nat.cast_sub h]
  simp only [Double.ofInt, Int.cast_natCast]

theorem add_ofNat {m n : ℕ} (h : m + n ≤ 2 ^ 53) : add (ofNat m) (ofNat n) = ofNat (m + n) := by
  rw [ofNat_eq (n := m) (by omega), ofNat_eq (n := n) (by omega), add, ofNat, Nat.cast_add]
  simp only [Double.ofInt, Int.cast_natCast]

theorem lt_fin_of_ofNat {m : ℕ} (hm : m ≤ 2 ^ 53) (x : Double) : lt (ofNat m) (.fin x) = decide ((m : ℚ) < x.val) := by
  rw [ofNat_eq hm, lt]
  simp only [Double.ofInt, Int.cast_natCast]

theorem lt_ofNat {m n : ℕ} (hm : m ≤ 2 ^ 53) (hn : n ≤ 2 ^ 53) : lt (ofNat m) (ofNat n) = decide (m < n) := by
  rw [ofNat_eq hn, lt_fin_of_ofNat hm]
  simp only [Double.ofInt, Int.cast_natCast, Nat.cast_lt]

theorem ofNat_inj {m n : ℕ} (hm : m ≤ 2 ^ 53) (hn : n ≤ 2 ^ 53) (h : ofNat m = ofNat n) : m = n := by
  rw [ofNat_eq hm, ofNat_eq hn, fin.injEq, Double.ofInt, Double.ofInt, Double.mk.injEq] at h
  exact_mod_cast h

theorem le_of_lt_ofRat {q : ℚ} {x b : Double} (hq : q ≤ b.val) (h : lt (ofRat q) (.fin x) = false) : x.val ≤ b.val := by
  have hb : nearest q ≤ b.val := nearest_le b.isNearest hq
  rw [ofRat] at h
  split_ifs at h with hr
  · simp only [lt, decide_eq_false_iff_not, not_lt] at h
    exact h.trans hb
  by_cases h0 : q < 0
  · rw [decide_eq_true h0] at h
    cases h
  · have hpos : 0 ≤ nearest q := le_nearest (by simpa using nearest_intCast (n := 0) (by norm_num)) (not_lt.1 h0)
    refine absurd ?_ hr
    rw [abs_of_nonneg hpos]
    exact (hb.trans (le_abs_self _)).trans_lt b.inRange

/-- **A positive amount for which there is room below the largest safe integer only makes a number larger.** -/
theorem add_of_room {x : Double} {z : Number} (hx : 0 ≤ x.val) (hn : z ≠ .nan) (hz : le z (ofNat 0) = false)
    (h : lt (sub maxSafeInteger z) (.fin x) = false) : ∃ y : Double, add (.fin x) z = .fin y ∧ x.val ≤ y.val := by
  have hmax : maxSafeInteger = .fin (.ofInt (2 ^ 53 - 1) (by norm_num)) := ofNat_eq (by norm_num)
  rw [ofNat_eq (by norm_num)] at hz
  rw [hmax] at h
  cases z with
  | nan => exact absurd rfl hn
  | inf neg =>
    cases neg with
    | false => cases h
    | true => cases hz
  | fin z =>
    have hpos : 0 < z.val := by simpa [le, Double.ofInt] using hz
    rw [sub_fin] at h
    have hxM : x.val ≤ 2 ^ 53 := by
      have := le_of_lt_ofRat (b := .ofInt (2 ^ 53 - 1) (by norm_num)) (by linarith) h
      refine this.trans ?_
      norm_num [Double.ofInt]
    have hzM : z.val ≤ 2 ^ 53 := by
      by_contra hlt
      have := le_of_lt_ofRat (b := .ofInt (-1) (by norm_num))
        (by norm_num [Double.ofInt] at hlt ⊢; linarith) h
      norm_num [Double.ofInt] at this
      linarith
    have hlo : x.val ≤ nearest (x.val + z.val) := le_nearest x.isNearest (by linarith)
    have hhi : nearest (x.val + z.val) ≤ 2 ^ 54 := by
      have hfix := nearest_of_mantissa (m := 1) (u := 54) (by norm_num) (by norm_num)
      refine nearest_le (by norm_num at hfix ⊢; exact hfix) ?_
      norm_num at hxM hzM ⊢
      linarith
    have hr : |nearest (x.val + z.val)| < 2 ^ 1024 := by
      rw [abs_of_nonneg (hx.trans hlo)]
      exact hhi.trans_lt (pow_lt_pow_right₀ (by norm_num) (by norm_num))
    exact ⟨⟨_, nearest_nearest _, hr⟩, by rw [add, ofRat, dif_pos hr], hlo⟩

/-! ## Printing -/

/-- The value of a decimal `(mantissa, exponent)`. -/
def decimalVal (p : ℕ × ℤ) : ℚ := p.1 * 10 ^ p.2

/-- Of two neighbouring decimals the closer one that reads back as `q`. -/
def closer (q : ℚ) (lo hi : ℕ × ℤ) : Option (ℕ × ℤ) :=
  if nearest (decimalVal lo) = q then
    if nearest (decimalVal hi) = q ∧ decimalVal hi - q < q - decimalVal lo then some hi else some lo
  else if nearest (decimalVal hi) = q then some hi
  else none

/-- The best decimal of `k` digits for the double `q`, when one reads back as `q`. -/
def candidate (q : ℚ) (k : ℕ) : Option (ℕ × ℤ) :=
  let e : ℤ := Int.log 10 q + 1 - k
  let lo := ⌊q / 10 ^ e⌋₊
  closer q (lo, e) (if lo + 1 = 10 ^ k then (1, e + k) else (lo + 1, e))

/-- The digits of `Number::toString` for a positive double.  An integer up to `2 ^ 53` has no shorter decimal than
its own digits; the exact expansion is the last resort of the search, which seventeen digits always end. -/
def shortest (q : ℚ) : ℕ × ℤ :=
  if q.den = 1 ∧ q.num ≤ 2 ^ 53 then (q.num.toNat, 0)
  else ((List.range' 1 17).findSome? (candidate q)).getD ((q * 10 ^ 1074).num.toNat, -1074)

/-- The layout of `Number::toString`: plain up to 21 digits, else scientific. -/
def format (s : ℕ) (e : ℤ) : Str :=
  let d := Nat.toDigits 10 s
  let n := e + d.length
  if d.length ≤ n ∧ n ≤ 21 then d ++ List.replicate (n - d.length).toNat '0'
  else if 0 < n ∧ n ≤ 21 then d.take n.toNat ++ '.' :: d.drop n.toNat
  else if -6 < n ∧ n ≤ 0 then '0' :: '.' :: (List.replicate (-n).toNat '0' ++ d)
  else d.take 1 ++ (if d.length = 1 then [] else '.' :: d.drop 1)
    ++ 'e' :: (if n - 1 < 0 then '-' else '+') :: Nat.toDigits 10 (n - 1).natAbs

def formatRat (q : ℚ) : Str := format (shortest q).1 (shortest q).2

def toString : Number → Str
  | .nan => "NaN".toList
  | .inf false => "Infinity".toList
  | .inf true => "-Infinity".toList
  | .fin x => if x.val = 0 then ['0'] else if x.val < 0 then '-' :: formatRat (-x.val) else formatRat x.val

theorem toString_fin (x : Double) : toString (.fin x) =
    if x.val = 0 then ['0'] else if x.val < 0 then '-' :: formatRat (-x.val) else formatRat x.val := rfl

/-! ## Scanning -/

def digitsVal (cs : Str) : ℕ := Nat.ofDigitChars 10 cs 0

/-- The integer part of a JSON number: no leading zero. -/
def scanInteger : Str → Option (Str × Str)
  | '0' :: cs => some (['0'], cs)
  | cs => if cs.takeWhile Char.isDigit = [] then none
          else some (cs.takeWhile Char.isDigit, cs.dropWhile Char.isDigit)

def scanFraction : Str → Option (Str × Str)
  | '.' :: cs => if cs.takeWhile Char.isDigit = [] then none
                 else some (cs.takeWhile Char.isDigit, cs.dropWhile Char.isDigit)
  | cs => some ([], cs)

def scanExpDigits (neg : Bool) (cs : Str) : Option (ℤ × Str) :=
  if cs.takeWhile Char.isDigit = [] then none
  else some ((if neg then -1 else 1) * (digitsVal (cs.takeWhile Char.isDigit) : ℤ), cs.dropWhile Char.isDigit)

def scanExponent : Str → Option (ℤ × Str)
  | c :: cs =>
    if c = 'e' ∨ c = 'E' then
      match cs with
      | '+' :: ds => scanExpDigits false ds
      | '-' :: ds => scanExpDigits true ds
      | ds => scanExpDigits false ds
    else some (0, c :: cs)
  | [] => some (0, [])

/-- An unsigned JSON number: its exact value and what follows it. -/
def scanUnsigned (cs : Str) : Option (ℚ × Str) := do
  let (i, cs) ← scanInteger cs
  let (f, cs) ← scanFraction cs
  let (e, cs) ← scanExponent cs
  pure ((digitsVal (i ++ f) : ℚ) * 10 ^ (e - f.length), cs)

/-- A JSON number. -/
def scan : Str → Option (Number × Str)
  | '-' :: cs => (scanUnsigned cs).map fun p => (ofRat (-p.1), p.2)
  | cs => (scanUnsigned cs).map fun p => (ofRat p.1, p.2)

/-! ## Conversion of a string -/

/-- White space and line ends, as `trim` removes them. -/
def isStrWhite (c : Char) : Bool :=
  [9, 10, 11, 12, 13, 32, 0xA0, 0x1680, 0x2028, 0x2029, 0x202F, 0x205F, 0x3000, 0xFEFF].contains c.toNat
    || (0x2000 ≤ c.toNat && c.toNat ≤ 0x200A)

def trim (s : Str) : Str := ((s.dropWhile isStrWhite).reverse.dropWhile isStrWhite).reverse

def digitVal (c : Char) : ℕ :=
  if c.isDigit then c.toNat - 48 else if 97 ≤ c.toNat then c.toNat - 87 else c.toNat - 55

/-- The digits of a `0x`, `0o` or `0b` literal. -/
def ofRadix (b : ℕ) (cs : Str) : Number :=
  if cs ≠ [] ∧ cs.all fun c => c.isAlphanum && decide (digitVal c < b) then
    ofNat (cs.foldl (fun n c => n * b + digitVal c) 0)
  else .nan

/-- `StrUnsignedDecimalLiteral`: an integer part, a fraction or both, then an exponent. -/
def ofDecimal (neg : Bool) (cs : Str) : Number :=
  if cs = "Infinity".toList then .inf neg
  else
    let i := cs.takeWhile Char.isDigit
    let (f, rest) := match cs.dropWhile Char.isDigit with
      | '.' :: r => (r.takeWhile Char.isDigit, r.dropWhile Char.isDigit)
      | r => ([], r)
    match scanExponent rest with
    | some (e, []) =>
      if i ++ f = [] then .nan
      else
        let q : ℚ := digitsVal (i ++ f) * 10 ^ (e - f.length)
        ofRat (if neg then -q else q)
    | _ => .nan

/-- `Number(s)` of a string. -/
def ofString (s : Str) : Number :=
  match trim s with
  | [] => ofNat 0
  | '0' :: 'x' :: cs | '0' :: 'X' :: cs => ofRadix 16 cs
  | '0' :: 'o' :: cs | '0' :: 'O' :: cs => ofRadix 8 cs
  | '0' :: 'b' :: cs | '0' :: 'B' :: cs => ofRadix 2 cs
  | '+' :: cs => ofDecimal false cs
  | '-' :: cs => ofDecimal true cs
  | cs => ofDecimal false cs

/-! ## A printed number scans back -/

/-- What may follow a number: nothing that would continue it. -/
def NumberEnd (rest : Str) : Prop := ∀ c ∈ rest.head?, c.isDigit = false ∧ c ≠ '.' ∧ c ≠ 'e' ∧ c ≠ 'E'

theorem numberEnd_nil : NumberEnd [] := by intro c hc; cases hc

theorem takeWhile_digits {ds rest : Str} (hd : ∀ c ∈ ds, c.isDigit = true)
    (hr : ∀ c ∈ rest.head?, c.isDigit = false) : (ds ++ rest).takeWhile Char.isDigit = ds := by
  rw [List.takeWhile_append_of_pos hd]
  cases rest with
  | nil => simp
  | cons c cs => simp [hr c rfl]

theorem dropWhile_digits {ds rest : Str} (hd : ∀ c ∈ ds, c.isDigit = true)
    (hr : ∀ c ∈ rest.head?, c.isDigit = false) : (ds ++ rest).dropWhile Char.isDigit = rest := by
  rw [List.dropWhile_append_of_pos hd]
  cases rest with
  | nil => simp
  | cons c cs => simp [hr c rfl]

theorem toDigits_isDigit (n : ℕ) : ∀ c ∈ Nat.toDigits 10 n, c.isDigit = true :=
  fun _ hc => Nat.isDigit_of_mem_toDigits (by norm_num) (by norm_num) hc

theorem toDigits_head {n : ℕ} (h : 0 < n) : ∃ c cs, Nat.toDigits 10 n = c :: cs ∧ c ≠ '0' := by
  induction n using Nat.strong_induction_on with
  | _ n ih =>
    by_cases hlt : n < 10
    · have hne : ∀ m < 10, 0 < m → m.digitChar ≠ '0' := by decide
      exact ⟨n.digitChar, [], Nat.toDigits_of_lt_base hlt, hne n hlt h⟩
    · obtain ⟨c, cs, hcs, hc⟩ := ih (n / 10) (by omega) (by omega)
      refine ⟨c, cs ++ [(n % 10).digitChar], ?_, hc⟩
      rw [Nat.toDigits_of_base_le (by norm_num) (by omega), hcs]
      rfl

theorem digitsVal_toDigits (n : ℕ) : digitsVal (Nat.toDigits 10 n) = n :=
  Nat.ofDigitChars_toDigits (by norm_num) (by norm_num)

theorem digitsVal_append_zeros (ds : Str) (n : ℕ) :
    digitsVal (ds ++ List.replicate n '0') = digitsVal ds * 10 ^ n := by
  rw [digitsVal, Nat.ofDigitChars_append, Nat.ofDigitChars_replicate_zero, Nat.mul_comm]
  rfl

theorem digitsVal_zeros_append (ds : Str) (n : ℕ) : digitsVal (List.replicate n '0' ++ ds) = digitsVal ds := by
  rw [digitsVal, Nat.ofDigitChars_append, Nat.ofDigitChars_replicate_zero]
  rfl

theorem scanInteger_digits {c : Char} {cs rest : Str} (hd : ∀ x ∈ c :: cs, x.isDigit = true) (hc : c ≠ '0')
    (hr : ∀ x ∈ rest.head?, x.isDigit = false) : scanInteger (c :: cs ++ rest) = some (c :: cs, rest) := by
  unfold scanInteger
  split
  · rename_i heq
    rw [List.cons_append, List.cons.injEq] at heq
    exact absurd heq.1 hc
  · rw [takeWhile_digits hd hr, dropWhile_digits hd hr]
    simp

theorem scanFraction_digits {ds rest : Str} (hne : ds ≠ []) (hd : ∀ x ∈ ds, x.isDigit = true)
    (hr : ∀ x ∈ rest.head?, x.isDigit = false) : scanFraction ('.' :: (ds ++ rest)) = some (ds, rest) := by
  rw [scanFraction, takeWhile_digits hd hr, dropWhile_digits hd hr, if_neg hne]

theorem scanFraction_none {rest : Str} (hr : ∀ x ∈ rest.head?, x ≠ '.') : scanFraction rest = some ([], rest) := by
  unfold scanFraction
  split
  · exact absurd rfl (hr '.' rfl)
  · rfl

theorem scanExponent_none {rest : Str} (hr : NumberEnd rest) : scanExponent rest = some (0, rest) := by
  cases rest with
  | nil => rfl
  | cons c cs =>
    obtain ⟨-, -, h1, h2⟩ := hr c rfl
    simp [scanExponent, h1, h2]

theorem scanExponent_signed (z : ℤ) {rest : Str} (hr : NumberEnd rest) :
    scanExponent ('e' :: (if z < 0 then '-' else '+') :: (Nat.toDigits 10 z.natAbs ++ rest)) = some (z, rest) := by
  have hd := toDigits_isDigit z.natAbs
  have hr' : ∀ x ∈ rest.head?, x.isDigit = false := fun x hx => (hr x hx).1
  have hscan : ∀ neg, scanExpDigits neg (Nat.toDigits 10 z.natAbs ++ rest) =
      some ((if neg then -1 else 1) * (z.natAbs : ℤ), rest) := by
    intro neg
    rw [scanExpDigits, takeWhile_digits hd hr', dropWhile_digits hd hr', if_neg Nat.toDigits_ne_nil,
      digitsVal_toDigits]
  by_cases hz : z < 0
  · simp only [scanExponent, hz, if_true, true_or, hscan, Int.natCast_natAbs, abs_of_neg hz]
    simp
  · simp only [scanExponent, hz, if_false, if_true, true_or, hscan, Int.natCast_natAbs, abs_of_nonneg (not_lt.1 hz)]
    simp

theorem scanUnsigned_eq {cs i f c1 c2 rest : Str} {e : ℤ} (hi : scanInteger cs = some (i, c1))
    (hf : scanFraction c1 = some (f, c2)) (he : scanExponent c2 = some (e, rest)) :
    scanUnsigned cs = some ((digitsVal (i ++ f) : ℚ) * 10 ^ (e - f.length), rest) := by
  simp [scanUnsigned, hi, hf, he]

/-! One lemma per layout of `format`, over the digits `d` of a positive number. -/

section Layouts

variable {d rest : Str} (hall : ∀ c ∈ d, c.isDigit = true) (hhead : ∃ c cs, d = c :: cs ∧ c ≠ '0')
  (hr : NumberEnd rest)

include hall hr

theorem scan_zeros (n : ℕ) (hne : d ≠ []) :
    scanUnsigned ('0' :: '.' :: (List.replicate n '0' ++ d) ++ rest) =
      some ((digitsVal d : ℚ) * 10 ^ (-(n + d.length : ℤ)), rest) := by
  have hi : scanInteger ('0' :: '.' :: (List.replicate n '0' ++ d) ++ rest) =
      some (['0'], '.' :: (List.replicate n '0' ++ d ++ rest)) := rfl
  have hf : scanFraction ('.' :: (List.replicate n '0' ++ d ++ rest)) = some (List.replicate n '0' ++ d, rest) := by
    refine scanFraction_digits (by simp [hne]) (fun x hx => ?_) fun x hx => (hr x hx).1
    rcases List.mem_append.1 hx with hx | hx
    · rw [List.eq_of_mem_replicate hx]; rfl
    · exact hall x hx
  have hval : digitsVal (['0'] ++ (List.replicate n '0' ++ d)) = digitsVal d := by
    rw [← List.append_assoc, show ['0'] = List.replicate 1 '0' from rfl, List.replicate_append_replicate,
      digitsVal_zeros_append]
  rw [scanUnsigned_eq hi hf (scanExponent_none hr), hval, List.length_append, List.length_replicate]
  simp

include hhead

theorem scan_plain (n : ℕ) :
    scanUnsigned (d ++ List.replicate n '0' ++ rest) = some ((digitsVal d : ℚ) * 10 ^ n, rest) := by
  obtain ⟨c, cs, rfl, hc⟩ := hhead
  have hall' : ∀ x ∈ c :: cs ++ List.replicate n '0', x.isDigit = true := by
    intro x hx
    rcases List.mem_append.1 hx with hx | hx
    · exact hall x hx
    · rw [List.eq_of_mem_replicate hx]; rfl
  have hi : scanInteger (c :: cs ++ List.replicate n '0' ++ rest) = some (c :: cs ++ List.replicate n '0', rest) :=
    scanInteger_digits hall' hc fun x hx => (hr x hx).1
  rw [scanUnsigned_eq hi (scanFraction_none fun x hx => (hr x hx).2.1) (scanExponent_none hr), List.append_nil,
    digitsVal_append_zeros]
  simp

theorem scan_point {n : ℕ} (h0 : 0 < n) (hn : n < d.length) :
    scanUnsigned (d.take n ++ '.' :: d.drop n ++ rest) =
      some ((digitsVal d : ℚ) * 10 ^ ((n : ℤ) - d.length), rest) := by
  obtain ⟨c, cs, hd, hc⟩ := hhead
  obtain ⟨m, rfl⟩ : ∃ m, n = m + 1 := ⟨n - 1, by omega⟩
  have htake : d.take (m + 1) = c :: cs.take m := by rw [hd]; rfl
  have hi : scanInteger (d.take (m + 1) ++ '.' :: d.drop (m + 1) ++ rest) =
      some (d.take (m + 1), '.' :: (d.drop (m + 1) ++ rest)) := by
    rw [List.append_assoc, htake]
    refine scanInteger_digits (fun x hx => ?_) hc (by simp)
    exact hall x (List.mem_of_mem_take (htake ▸ hx))
  have hf : scanFraction ('.' :: (d.drop (m + 1) ++ rest)) = some (d.drop (m + 1), rest) :=
    scanFraction_digits (by simp; omega) (fun x hx => hall x (List.mem_of_mem_drop hx)) fun x hx => (hr x hx).1
  rw [scanUnsigned_eq hi hf (scanExponent_none hr), List.take_append_drop, List.length_drop]
  congr 4
  omega

theorem scan_scientific (z : ℤ) :
    scanUnsigned (d.take 1 ++ (if d.length = 1 then [] else '.' :: d.drop 1)
        ++ 'e' :: (if z < 0 then '-' else '+') :: Nat.toDigits 10 z.natAbs ++ rest) =
      some ((digitsVal d : ℚ) * 10 ^ (z - (d.length - 1)), rest) := by
  obtain ⟨c, cs, rfl, hc⟩ := hhead
  have hexp := scanExponent_signed z hr
  generalize htail : 'e' :: (if z < 0 then '-' else '+') :: (Nat.toDigits 10 z.natAbs ++ rest) = tail at hexp
  have happ : ∀ a b : Str, a ++ b ++ 'e' :: (if z < 0 then '-' else '+') :: Nat.toDigits 10 z.natAbs ++ rest =
      a ++ (b ++ tail) := by
    intro a b; rw [← htail]; simp
  have htd : ∀ x ∈ tail.head?, x.isDigit = false ∧ x ≠ '.' := by rw [← htail]; simp
  have hi : ∀ r : Str, (∀ x ∈ r.head?, x.isDigit = false) → scanInteger ([c] ++ r) = some ([c], r) :=
    fun r h => scanInteger_digits (fun x hx => hall x (by simp_all)) hc h
  rw [happ, List.take_succ_cons, List.take_zero]
  cases cs with
  | nil =>
    rw [if_pos (show [c].length = 1 from rfl), List.nil_append, scanUnsigned_eq (hi tail fun x hx => (htd x hx).1)
      (scanFraction_none fun x hx => (htd x hx).2) hexp]
    simp
  | cons a cs =>
    have hf : scanFraction ('.' :: (a :: cs) ++ tail) = some (a :: cs, tail) :=
      scanFraction_digits (by simp) (fun x hx => hall x (List.mem_cons_of_mem _ hx)) fun x hx => (htd x hx).1
    rw [if_neg (by simp), List.drop_succ_cons, List.drop_zero, scanUnsigned_eq (hi _ (by simp)) hf hexp]
    simp

end Layouts

/-- **A printed decimal scans back as the rational it stands for.** -/
theorem scanUnsigned_format {s : ℕ} (hs : 0 < s) (e : ℤ) {rest : Str} (hr : NumberEnd rest) :
    scanUnsigned (format s e ++ rest) = some ((s : ℚ) * 10 ^ e, rest) := by
  have hall := toDigits_isDigit s
  have hhead := toDigits_head hs
  have hne : Nat.toDigits 10 s ≠ [] := Nat.toDigits_ne_nil
  conv_rhs => rw [← digitsVal_toDigits s]
  unfold format
  generalize Nat.toDigits 10 s = d at hall hhead hne ⊢
  dsimp only
  by_cases h1 : d.length ≤ e + d.length ∧ e + d.length ≤ 21
  · rw [if_pos h1, scan_plain hall hhead hr, ← zpow_natCast, show ((e + d.length - d.length).toNat : ℤ) = e by omega]
  rw [if_neg h1]
  by_cases h2 : 0 < e + d.length ∧ e + d.length ≤ 21
  · rw [if_pos h2, scan_point hall hhead hr (by omega) (by omega),
      show ((e + d.length).toNat : ℤ) - d.length = e by omega]
  rw [if_neg h2]
  by_cases h3 : -6 < e + d.length ∧ e + d.length ≤ 0
  · rw [if_pos h3, scan_zeros hall hr _ hne, show -(((-(e + d.length)).toNat : ℤ) + d.length) = e by omega]
  · rw [if_neg h3, scan_scientific hall hhead hr, show e + d.length - 1 - ((d.length : ℤ) - 1) = e by omega]

/-! ## The digits printed for a double read back as the double -/

theorem closer_spec {q : ℚ} {lo hi p : ℕ × ℤ} (h : closer q lo hi = some p) : nearest (decimalVal p) = q := by
  unfold closer at h
  split_ifs at h with h1 h2 h3 <;> simp only [Option.some.injEq] at h <;> subst h
  · exact h2.1
  · exact h1
  · exact h3

/-- A positive multiple of `2 ^ -k` has at most `k` decimals. -/
theorem exact_expansion {q : ℚ} {n : ℤ} {k : ℕ} (hn : q = n * 2 ^ (-k : ℤ)) (hpos : 0 < q) :
    (((q * 10 ^ k).num.toNat : ℕ) : ℚ) * 10 ^ (-k : ℤ) = q := by
  have hint : q * 10 ^ k = ((n * 5 ^ k : ℤ) : ℚ) := by
    calc q * 10 ^ k = n * (2 ^ (-k : ℤ) * 2 ^ k) * 5 ^ k := by
          rw [show (10 : ℚ) = 2 * 5 by norm_num, mul_pow]
          conv_lhs => rw [hn]
          ring
      _ = ((n * 5 ^ k : ℤ) : ℚ) := by
          rw [← zpow_natCast 2 k, ← zpow_add₀ (by norm_num)]; push_cast; simp
  have hnn : 0 ≤ n * 5 ^ k := by
    have : (0 : ℚ) ≤ ((n * 5 ^ k : ℤ) : ℚ) := by rw [← hint]; positivity
    exact_mod_cast this
  have hnat : (((q * 10 ^ k).num.toNat : ℕ) : ℚ) = q * 10 ^ k := by
    rw [hint, Rat.num_intCast]
    exact_mod_cast congrArg (Int.cast : ℤ → ℚ) (Int.toNat_of_nonneg hnn)
  rw [hnat, mul_assoc, ← zpow_natCast, ← zpow_add₀ (by norm_num)]
  simp

theorem shortest_spec {q : ℚ} (hq : nearest q = q) (hpos : 0 < q) :
    nearest (decimalVal (shortest q)) = q := by
  unfold shortest
  split_ifs with hint
  · have hnum : ((q.num.toNat : ℕ) : ℚ) = q := by
      have h0 : 0 ≤ q.num := (Rat.num_pos.2 hpos).le
      have hz : ((q.num.toNat : ℕ) : ℚ) = (q.num : ℚ) := by
        exact_mod_cast congrArg (Int.cast : ℤ → ℚ) (Int.toNat_of_nonneg h0)
      rw [hz]
      exact Rat.den_eq_one_iff q |>.1 hint.1
    simpa [decimalVal, hnum] using hq
  · cases hf : (List.range' 1 17).findSome? (candidate q) with
    | some p =>
      obtain ⟨k, -, hk⟩ := List.exists_of_findSome?_eq_some hf
      exact closer_spec hk
    | none =>
      obtain ⟨n, hn⟩ := grid_of_fixed hq (neg_1074_le_ulpExp q)
      rw [Option.getD_none]
      exact (congrArg nearest (exact_expansion (k := 1074) hn hpos)).trans hq

theorem shortest_pos {q : ℚ} (hq : nearest q = q) (hpos : 0 < q) : 0 < (shortest q).1 := by
  rcases Nat.eq_zero_or_pos (shortest q).1 with h0 | h0
  · have h := shortest_spec hq hpos
    rw [decimalVal, h0, Nat.cast_zero, zero_mul] at h
    have hz : nearest 0 = 0 := by simpa using nearest_intCast (n := 0) (by norm_num)
    rw [hz] at h
    exact absurd h hpos.ne
  · exact h0

theorem scanUnsigned_formatRat {q : ℚ} (hq : nearest q = q) (hpos : 0 < q) {rest : Str} (hr : NumberEnd rest) :
    ∃ p, scanUnsigned (formatRat q ++ rest) = some (p, rest) ∧ nearest p = q :=
  ⟨_, scanUnsigned_format (shortest_pos hq hpos) _ hr, shortest_spec hq hpos⟩

theorem scan_of_not_minus {cs : Str} (h : ∀ c ∈ cs.head?, c ≠ '-') :
    scan cs = (scanUnsigned cs).map fun p => (ofRat p.1, p.2) := by
  unfold scan
  split
  · exact absurd rfl (h '-' rfl)
  · rfl

theorem format_head {s : ℕ} (hs : 0 < s) (e : ℤ) (rest : Str) :
    ∃ c cs, format s e ++ rest = c :: cs ∧ c.isDigit = true := by
  obtain ⟨c, cs, hd, -⟩ := toDigits_head hs
  have hc : c.isDigit = true := toDigits_isDigit s c (by rw [hd]; exact List.mem_cons_self)
  unfold format
  rw [hd]
  dsimp only
  split_ifs with h1 h2 h3 <;> try exact ⟨_, _, rfl, hc⟩
  · obtain ⟨m, hm⟩ : ∃ m, (e + (c :: cs).length).toNat = m + 1 := ⟨(e + (c :: cs).length).toNat - 1, by omega⟩
    rw [hm]
    exact ⟨_, _, rfl, hc⟩
  · exact ⟨_, _, rfl, rfl⟩

/-- **A printed finite number scans back as itself.** -/
theorem scan_toString (x : Double) {rest : Str} (hr : NumberEnd rest) :
    scan (toString (.fin x) ++ rest) = some (.fin x, rest) := by
  rw [toString_fin]
  split_ifs with h0 hneg
  · have hx : ofRat 0 = .fin x := by rw [← h0]; exact ofRat_val x
    have hu : scanUnsigned (['0'] ++ rest) = some ((digitsVal (['0'] ++ []) : ℚ) * 10 ^ ((0 : ℤ) - (0 : ℕ)), rest) :=
      scanUnsigned_eq (f := []) rfl (scanFraction_none fun c hc => (hr c hc).2.1) (scanExponent_none hr)
    rw [scan_of_not_minus (by simp), hu]
    simp [digitsVal, Nat.ofDigitChars_cons, hx]
  · obtain ⟨p, hp, hpx⟩ := scanUnsigned_formatRat (q := -x.val) x.neg.isNearest (by linarith) hr
    rw [List.cons_append, scan, hp, Option.map_some, ofRat_of_nearest (q := -p) (x := x) (by rw [nearest_neg, hpx]; ring)]
  · have hpos : 0 < x.val := lt_of_le_of_ne (not_lt.1 hneg) (Ne.symm h0)
    obtain ⟨p, hp, hpx⟩ := scanUnsigned_formatRat x.isNearest hpos hr
    have hhead : ∀ c ∈ (formatRat x.val ++ rest).head?, c ≠ '-' := by
      obtain ⟨c, cs, hc, hdig⟩ := format_head (shortest_pos x.isNearest hpos) (shortest x.val).2 rest
      intro a ha
      rw [formatRat, hc] at ha
      cases ha
      rintro rfl
      exact absurd hdig (by decide)
    rw [scan_of_not_minus hhead, hp, Option.map_some, ofRat_of_nearest hpx]

/-! ## Integers -/

theorem formatRat_natCast {n : ℕ} (h : n ≤ 2 ^ 53) : formatRat n = Nat.toDigits 10 n := by
  have hden : (n : ℚ).den = 1 ∧ (n : ℚ).num ≤ 2 ^ 53 := ⟨Rat.den_natCast n, by rw [Rat.num_natCast]; exact_mod_cast h⟩
  have hshort : shortest n = (n, 0) := by
    unfold shortest
    rw [if_pos hden, Rat.num_natCast, Int.toNat_natCast]
  have hlen : (Nat.toDigits 10 n).length ≤ 21 :=
    (Nat.length_toDigits_le_iff (by norm_num) (by norm_num)).2 (h.trans_lt (by norm_num))
  unfold formatRat format
  rw [hshort]
  dsimp only
  rw [if_pos ⟨by omega, by omega⟩]
  simp

/-- The decimal digits of an integer. -/
def decimal (t : ℤ) : Str := if t < 0 then '-' :: Nat.toDigits 10 t.natAbs else Nat.toDigits 10 t.natAbs

/-- **An integer up to `2 ^ 53` prints as its decimal digits.** -/
theorem toString_intCast {t : ℤ} (h : |t| ≤ 2 ^ 53) : (ofRat t).toString = decimal t := by
  have habs : t.natAbs ≤ 2 ^ 53 := by
    rw [Int.abs_eq_natAbs] at h
    exact_mod_cast h
  have hnear : ofRat (t : ℚ) = .fin (.ofInt t h) := ofRat_of_nearest (nearest_intCast h)
  have hval : (Double.ofInt t h).val = (t : ℚ) := rfl
  unfold decimal
  rw [hnear, toString_fin, hval]
  by_cases hzero : t = 0
  · rw [hzero]
    rfl
  rw [if_neg (by exact_mod_cast hzero)]
  by_cases hneg : t < 0
  · have hcast : -(t : ℚ) = (t.natAbs : ℚ) := by
      rw [Nat.cast_natAbs, abs_of_neg hneg]
      push_cast
      rfl
    rw [if_pos (by exact_mod_cast hneg), if_pos hneg, hcast, formatRat_natCast habs]
  · have hcast : (t : ℚ) = (t.natAbs : ℚ) := by
      rw [Nat.cast_natAbs, abs_of_nonneg (not_lt.1 hneg)]
    rw [if_neg (by exact_mod_cast hneg), if_neg hneg, hcast, formatRat_natCast habs]
end Number
end Js
