import Mathlib.Data.Nat.Digits.Lemmas
import Mathlib.Tactic.Ring
import Mathlib.Data.List.TakeWhile
/-!
# Base58 — the Bitcoin alphabet

A byte string is a big-endian number; its text is one `1` per leading zero byte and then the base-58 digits of the
number, most significant first.
-/
namespace Base58

def alphabet : List Char := "123456789ABCDEFGHJKLMNPQRSTUVWXYZabcdefghijkmnopqrstuvwxyz".toList

def ofDigitsBE (b : ℕ) (ds : List ℕ) : ℕ := Nat.ofDigits b ds.reverse

/-- The big-endian digits of a number, no leading zero. -/
def digitsBE (b n : ℕ) : List ℕ := (Nat.digits b n).reverse

def encode (bytes : List UInt8) : List Char :=
  let zeros := (bytes.takeWhile (· == 0)).length
  List.replicate zeros '1'
    ++ (digitsBE 58 (ofDigitsBE 256 (bytes.map UInt8.toNat))).map fun d => alphabet.getD d '1'

/-- `none` on a character outside the alphabet. -/
def decode (s : List Char) : Option (List UInt8) :=
  if s.all alphabet.contains then
    let zeros := (s.takeWhile (· == '1')).length
    some (List.replicate zeros 0
      ++ (digitsBE 256 (ofDigitsBE 58 (s.map alphabet.idxOf))).map UInt8.ofNat)
  else none

/-! ## Digits -/

theorem ofDigitsBE_replicate_zero (b n : ℕ) (ds : List ℕ) :
    ofDigitsBE b (List.replicate n 0 ++ ds) = ofDigitsBE b ds := by
  unfold ofDigitsBE
  rw [List.reverse_append, List.reverse_replicate, Nat.ofDigits_append_replicate_zero]

theorem ofDigitsBE_digitsBE (b n : ℕ) : ofDigitsBE b (digitsBE b n) = n := by
  unfold ofDigitsBE digitsBE
  rw [List.reverse_reverse, Nat.ofDigits_digits]

theorem ofDigitsBE_lt {b : ℕ} (hb : 1 < b) {ds : List ℕ} (hlt : ∀ d ∈ ds, d < b) : ofDigitsBE b ds < b ^ ds.length := by
  have h := Nat.ofDigits_lt_base_pow_length hb fun d hd => hlt d (List.mem_reverse.1 hd)
  rwa [List.length_reverse] at h

theorem digitsBE_lt {b n : ℕ} (hb : 1 < b) : ∀ d ∈ digitsBE b n, d < b :=
  fun _ hd => Nat.digits_lt_base hb (List.mem_reverse.1 hd)

theorem digitsBE_ofDigitsBE {b : ℕ} (hb : 1 < b) {ds : List ℕ} (hlt : ∀ d ∈ ds, d < b) (hhead : ∀ d ∈ ds.head?, d ≠ 0) :
    digitsBE b (ofDigitsBE b ds) = ds := by
  unfold digitsBE ofDigitsBE
  rw [Nat.digits_ofDigits b hb, List.reverse_reverse]
  · exact fun d hd => hlt d (List.mem_reverse.1 hd)
  · intro hne
    rw [List.getLast_reverse]
    exact hhead _ (List.head?_eq_some_head _)

theorem head_digitsBE {b n : ℕ} : ∀ d ∈ (digitsBE b n).head?, d ≠ 0 := by
  intro d hd
  unfold digitsBE at hd
  rw [List.head?_reverse] at hd
  have hne : Nat.digits b n ≠ [] := by
    rintro h
    rw [h] at hd
    cases hd
  rw [List.getLast?_eq_some_getLast hne] at hd
  cases hd
  have hn : n ≠ 0 := by
    rintro rfl
    exact hne (Nat.digits_zero b)
  exact Nat.getLast_digit_ne_zero b hn

theorem replicate_append_dropWhile {α : Type} [DecidableEq α] (a : α) (l : List α) :
    List.replicate (l.takeWhile (· == a)).length a ++ l.dropWhile (· == a) = l := by
  have h : l.takeWhile (· == a) = List.replicate (l.takeWhile (· == a)).length a :=
    List.eq_replicate_of_mem fun b hb => by simpa using List.mem_takeWhile_imp hb
  rw [← h, List.takeWhile_append_dropWhile]

theorem digitsBE_dropWhile {b : ℕ} (hb : 1 < b) {ds : List ℕ} (hlt : ∀ d ∈ ds, d < b) :
    digitsBE b (ofDigitsBE b ds) = ds.dropWhile (· == 0) := by
  have hval : ofDigitsBE b ds = ofDigitsBE b (ds.dropWhile (· == 0)) := by
    conv_lhs => rw [← replicate_append_dropWhile 0 ds]
    exact ofDigitsBE_replicate_zero b _ _
  rw [hval, digitsBE_ofDigitsBE hb fun d hd => hlt d ((List.dropWhile_sublist _).mem hd)]
  intro d hd
  have := List.head?_dropWhile_not (· == 0) ds
  rw [Option.mem_def] at hd
  rw [hd] at this
  simpa using this

/-! ## From one base to another -/

/-- The digits in base `c` of a big-endian number in base `b`, with as many leading zeros as it has there. -/
def recode (b c : ℕ) (ds : List ℕ) : List ℕ :=
  List.replicate (ds.takeWhile (· == 0)).length 0 ++ digitsBE c (ofDigitsBE b ds)

theorem takeWhile_digitsBE (b n : ℕ) : (digitsBE b n).takeWhile (· == 0) = [] := by
  cases hd : digitsBE b n with
  | nil => rfl
  | cons d ds =>
    have hne : d ≠ 0 := head_digitsBE d (by rw [hd]; rfl)
    rw [List.takeWhile_cons_of_neg]
    simpa using hne

theorem takeWhile_recode (b c : ℕ) (ds : List ℕ) :
    (recode b c ds).takeWhile (· == 0) = List.replicate (ds.takeWhile (· == 0)).length 0 := by
  unfold recode
  rw [List.takeWhile_append_of_pos (by simp), takeWhile_digitsBE, List.append_nil]

theorem recode_lt {b c : ℕ} (hc : 1 < c) {ds : List ℕ} : ∀ d ∈ recode b c ds, d < c := by
  intro d hd
  rcases List.mem_append.1 hd with hd | hd
  · rw [List.eq_of_mem_replicate hd]
    exact Nat.zero_lt_of_lt hc
  · exact digitsBE_lt hc d hd

/-- **Back in the first base the digits are the same.** -/
theorem recode_recode {b c : ℕ} (hb : 1 < b) {ds : List ℕ} (hlt : ∀ d ∈ ds, d < b) :
    recode c b (recode b c ds) = ds := by
  have hvalue : ofDigitsBE c (recode b c ds) = ofDigitsBE b ds := by
    unfold recode
    rw [ofDigitsBE_replicate_zero, ofDigitsBE_digitsBE]
  rw [recode, takeWhile_recode, hvalue, digitsBE_dropWhile hb hlt, List.length_replicate]
  exact replicate_append_dropWhile 0 ds

/-! ## Symbols -/

theorem idxOf_symbol : ∀ d < 58, alphabet.idxOf (alphabet.getD d '1') = d := by decide +kernel

theorem symbol_mem : ∀ d < 58, alphabet.getD d '1' ∈ alphabet := by decide +kernel

theorem symbol_idxOf {c : Char} (hc : c ∈ alphabet) : alphabet.getD (alphabet.idxOf c) '1' = c := by
  rw [List.getD_eq_getElem?_getD, List.getElem?_eq_getElem (List.idxOf_lt_length_of_mem hc), List.getElem_idxOf]
  rfl

theorem idxOf_lt {c : Char} (hc : c ∈ alphabet) : alphabet.idxOf c < 58 := List.idxOf_lt_length_of_mem hc

theorem idxOf_eq_zero {c : Char} : alphabet.idxOf c = 0 ↔ c = '1' := by
  constructor
  · intro h
    by_contra hne
    have hcons : alphabet.idxOf c = "23456789ABCDEFGHJKLMNPQRSTUVWXYZabcdefghijkmnopqrstuvwxyz".toList.idxOf c + 1 :=
      List.idxOf_cons_ne _ (Ne.symm hne)
    omega
  · rintro rfl
    rfl

theorem takeWhile_map_idxOf (s : List Char) :
    ((s.map alphabet.idxOf).takeWhile (· == 0)).length = (s.takeWhile (· == '1')).length := by
  have hone : ((· == 0) ∘ alphabet.idxOf : Char → Bool) = (· == '1') := by
    funext c
    rw [Function.comp_apply, Bool.eq_iff_iff, beq_iff_eq, beq_iff_eq]
    exact idxOf_eq_zero
  rw [List.takeWhile_map, hone, List.length_map]

theorem takeWhile_map_toNat (bytes : List UInt8) :
    ((bytes.map UInt8.toNat).takeWhile (· == 0)).length = (bytes.takeWhile (· == 0)).length := by
  have hzero : ((· == 0) ∘ UInt8.toNat : UInt8 → Bool) = (· == 0) := by
    funext b
    rw [Function.comp_apply, Bool.eq_iff_iff, beq_iff_eq, beq_iff_eq]
    exact UInt8.toNat_inj (b := 0)
  rw [List.takeWhile_map, hzero, List.length_map]

theorem toNat_lt_256 (bytes : List UInt8) : ∀ d ∈ bytes.map UInt8.toNat, d < 256 := by
  intro d hd
  obtain ⟨b, -, rfl⟩ := List.mem_map.1 hd
  exact b.toNat_lt

theorem encode_eq_recode (bytes : List UInt8) :
    encode bytes = (recode 256 58 (bytes.map UInt8.toNat)).map fun d => alphabet.getD d '1' := by
  unfold encode recode
  rw [List.map_append, List.map_replicate, takeWhile_map_toNat]
  rfl

theorem decode_eq_recode {s : List Char} (hs : ∀ c ∈ s, c ∈ alphabet) :
    decode s = some ((recode 58 256 (s.map alphabet.idxOf)).map UInt8.ofNat) := by
  have hall : s.all alphabet.contains = true := by
    rw [List.all_eq_true]
    exact fun c hc => List.contains_iff_mem.2 (hs c hc)
  unfold decode recode
  rw [if_pos hall, List.map_append, List.map_replicate, takeWhile_map_idxOf]
  rfl

theorem encode_mem (bytes : List UInt8) : ∀ c ∈ encode bytes, c ∈ alphabet := by
  intro c hc
  rw [encode_eq_recode] at hc
  obtain ⟨d, hd, rfl⟩ := List.mem_map.1 hc
  exact symbol_mem d (recode_lt (by decide) d hd)

/-- **What was encoded decodes as itself.** -/
theorem decode_encode (bytes : List UInt8) : decode (encode bytes) = some bytes := by
  have hdigits : (encode bytes).map alphabet.idxOf = recode 256 58 (bytes.map UInt8.toNat) := by
    rw [encode_eq_recode, List.map_map]
    conv_rhs => rw [← List.map_id (recode _ _ _)]
    exact List.map_congr_left fun d hd => idxOf_symbol d (recode_lt (by decide) d hd)
  rw [decode_eq_recode (encode_mem bytes), hdigits, recode_recode (by decide) (toNat_lt_256 bytes), List.map_map]
  conv_rhs => rw [← List.map_id bytes]
  exact congrArg some (List.map_congr_left fun b _ => UInt8.ofNat_toNat)

/-- **A text over the alphabet is what its bytes encode as.** -/
theorem encode_decode {s : List Char} (hs : ∀ c ∈ s, c ∈ alphabet) {bytes : List UInt8} (h : decode s = some bytes) :
    encode bytes = s := by
  have hlt : ∀ d ∈ s.map alphabet.idxOf, d < 58 := by
    intro d hd
    obtain ⟨c, hc, rfl⟩ := List.mem_map.1 hd
    exact idxOf_lt (hs c hc)
  rw [decode_eq_recode hs, Option.some.injEq] at h
  have hdigits : bytes.map UInt8.toNat = recode 58 256 (s.map alphabet.idxOf) := by
    rw [← h, List.map_map]
    conv_rhs => rw [← List.map_id (recode _ _ _)]
    exact List.map_congr_left fun d hd => UInt8.toNat_ofNat_of_lt' (recode_lt (by decide) d hd)
  rw [encode_eq_recode, hdigits, recode_recode (by decide) hlt, List.map_map]
  conv_rhs => rw [← List.map_id s]
  exact List.map_congr_left fun c hc => symbol_idxOf (hs c hc)

theorem ofDigitsBE_cons (b d : ℕ) (ds : List ℕ) : ofDigitsBE b (d :: ds) = d * b ^ ds.length + ofDigitsBE b ds := by
  unfold ofDigitsBE
  rw [List.reverse_cons, Nat.ofDigits_append, Nat.ofDigits_singleton, List.length_reverse]
  ring

theorem length_digitsBE {b n k : ℕ} (hb : 1 < b) (hlow : b ^ k ≤ n) (hhigh : n < b ^ (k + 1)) :
    (digitsBE b n).length = k + 1 := by
  have hle := (Nat.digits_length_le_iff hb n).2 hhigh
  have hlt := (Nat.lt_digits_length_iff hb n).2 hlow
  unfold digitsBE
  rw [List.length_reverse]
  omega

/-- The length of a text whose first character is not a zero. -/
theorem length_encode {b : UInt8} {rest : List UInt8} {k : ℕ} (hb : b ≠ 0) (hlow : 58 ^ k ≤ b.toNat * 256 ^ rest.length)
    (hhigh : 256 ^ (rest.length + 1) ≤ 58 ^ (k + 1)) : (encode (b :: rest)).length = k + 1 := by
  have hvalue := ofDigitsBE_cons 256 b.toNat (rest.map UInt8.toNat)
  have hlt : ofDigitsBE 256 (rest.map UInt8.toNat) < 256 ^ rest.length := by
    have h := ofDigitsBE_lt (by decide) (toNat_lt_256 rest)
    rwa [List.length_map] at h
  have hmul : b.toNat * 256 ^ rest.length + 256 ^ rest.length ≤ 256 ^ (rest.length + 1) := by
    rw [pow_succ', ← Nat.succ_mul]
    exact Nat.mul_le_mul_right _ b.toNat_lt
  rw [List.length_map] at hvalue
  unfold encode
  dsimp only
  rw [List.takeWhile_cons_of_neg (by simpa using hb), List.length_nil, List.replicate_zero, List.nil_append,
    List.length_map, List.map_cons, hvalue]
  exact length_digitsBE (by decide) (by omega) (by omega)

end Base58
