import OrbsNetwork.Lib.Base58
/-!
# Radix — a number taken from one base to another in a buffer

The digits of the first base come one by one, most significant first; each multiplies the number in the buffer and is
added to it.  The buffer holds the digits in the second base, least significant first, with a mark from which on they
are zero.
-/
namespace Radix

open Base58 (ofDigitsBE digitsBE)

/-- One digit of base `m` into the digits of base `b`.  It goes on while there are digits below `high` or a carry, and
returns where it stopped; `none` is a carry past the end of the buffer. -/
def mulAdd (m b : ℕ) : ℕ → ℕ → List ℕ → Option (List ℕ × ℕ)
  | _, carry, [] => if carry = 0 then some ([], 0) else none
  | high, carry, d :: ds =>
    if high = 0 ∧ carry = 0 then some (d :: ds, 0)
    else (mulAdd m b (high - 1) ((carry + m * d) / b) ds).map fun r => ((carry + m * d) % b :: r.1, r.2 + 1)

/-- The digits of `value` in a buffer; from `high` on they are zero. -/
structure Holds (b size value : ℕ) (s : List ℕ × ℕ) : Prop where
  length : s.1.length = size
  digits : ∀ d ∈ s.1, d < b
  zeros : ∀ d ∈ s.1.drop s.2, d = 0
  value : Nat.ofDigits b s.1 = value

variable {m b : ℕ}

theorem ofDigits_eq_zero {ds : List ℕ} (h : ∀ d ∈ ds, d = 0) : Nat.ofDigits b ds = 0 := by
  rw [List.eq_replicate_of_mem h, Nat.ofDigits_replicate_zero]

theorem holds_replicate (hb : 0 < b) (size : ℕ) : Holds b size 0 (List.replicate size 0, 0) := by
  refine ⟨List.length_replicate, fun d hd => ?_, fun d hd => List.eq_of_mem_replicate hd, Nat.ofDigits_replicate_zero⟩
  rw [List.eq_of_mem_replicate hd]
  exact hb

/-- **One digit more**: the value becomes `carry + m * value`, if the buffer has room for it. -/
theorem mulAdd_spec (hb : 0 < b) : ∀ {ds : List ℕ} {high carry value : ℕ}, Holds b ds.length value (ds, high) →
    carry + m * value < b ^ ds.length →
    ∃ s, mulAdd m b high carry ds = some s ∧ Holds b ds.length (carry + m * value) s
  | [], high, carry, value, h, hroom => by
    have hv : value = 0 := h.value.symm
    have hc : carry = 0 := by
      rw [hv, List.length_nil, pow_zero] at hroom
      omega
    refine ⟨([], 0), if_pos hc, rfl, nofun, nofun, ?_⟩
    rw [hv, hc]
    rfl
  | d :: ds, high, carry, value, h, hroom => by
    have hvalue : d + b * Nat.ofDigits b ds = value := by
      rw [← h.value, Nat.ofDigits_cons]
    unfold mulAdd
    split
    · rename_i hstop
      have hz := h.zeros
      rw [hstop.1] at hz
      have hzero : Nat.ofDigits b (d :: ds) = 0 := ofDigits_eq_zero hz
      have hv : value = 0 := h.value.symm.trans hzero
      refine ⟨(d :: ds, 0), rfl, rfl, h.digits, hz, ?_⟩
      rw [hzero, hv, hstop.2, mul_zero, add_zero]
    · have hzeros : ∀ x ∈ ds.drop (high - 1), x = 0 := by
        intro x hx
        apply h.zeros
        cases high with
        | zero => exact List.mem_cons_of_mem _ hx
        | succ high => exact hx
      have hrest : Holds b ds.length (Nat.ofDigits b ds) (ds, high - 1) :=
        ⟨rfl, fun x hx => h.digits x (List.mem_cons_of_mem _ hx), hzeros, rfl⟩
      -- The digit that stays and the carry that goes on make the new value.
      have hsplit : (carry + m * d) % b + b * ((carry + m * d) / b + m * Nat.ofDigits b ds) = carry + m * value := by
        rw [mul_add, ← add_assoc, Nat.mod_add_div, ← hvalue]
        ring
      have hroom' : (carry + m * d) / b + m * Nat.ofDigits b ds < b ^ ds.length := by
        apply lt_of_mul_lt_mul_left _ hb.le
        calc b * ((carry + m * d) / b + m * Nat.ofDigits b ds) ≤ carry + m * value := by
              rw [← hsplit]
              exact Nat.le_add_left _ _
          _ < b ^ (ds.length + 1) := hroom
          _ = b * b ^ ds.length := pow_succ' b ds.length
      obtain ⟨s, hs, hlen, hdig, hz, hval⟩ := mulAdd_spec hb hrest hroom'
      rw [hs]
      refine ⟨_, rfl, congrArg (· + 1) hlen, ?_, hz, ?_⟩
      · intro x hx
        rcases List.mem_cons.1 hx with rfl | hx
        · exact Nat.mod_lt _ hb
        · exact hdig x hx
      · rw [Nat.ofDigits_cons, hval]
        exact hsplit

theorem le_foldl (hm : 0 < m) (digits : List ℕ) (value : ℕ) : value ≤ digits.foldl (fun v d => d + m * v) value := by
  induction digits generalizing value with
  | nil => exact le_rfl
  | cons d digits ih =>
    have hmul : value ≤ m * value := Nat.le_mul_of_pos_left value hm
    have hrest := ih (d + m * value)
    rw [List.foldl_cons]
    omega

theorem foldl_eq_ofDigitsBE (m : ℕ) (digits : List ℕ) : digits.foldl (fun v d => d + m * v) 0 = ofDigitsBE m digits := by
  unfold ofDigitsBE
  rw [Nat.ofDigits_eq_foldr, List.foldr_reverse]
  rfl

/-- All digits, one after another. -/
theorem foldlM_mulAdd (hb : 0 < b) (hm : 0 < m) {size : ℕ} (digits : List ℕ) : ∀ {s : List ℕ × ℕ} {value : ℕ},
    Holds b size value s → digits.foldl (fun v d => d + m * v) value < b ^ size →
    ∃ s', digits.foldlM (fun s d => mulAdd m b s.2 d s.1) s = some s' ∧
      Holds b size (digits.foldl (fun v d => d + m * v) value) s' := by
  induction digits with
  | nil => exact fun h _ => ⟨_, rfl, h⟩
  | cons d digits ih =>
    rintro ⟨ds, high⟩ value h hroom
    have hlen := h.length
    subst hlen
    obtain ⟨s, hs, hholds⟩ := mulAdd_spec hb h ((le_foldl hm digits _).trans_lt hroom)
    obtain ⟨s', hs', hholds'⟩ := ih hholds hroom
    refine ⟨s', ?_, hholds'⟩
    rw [List.foldlM_cons, hs]
    exact hs'

/-- What is left of the buffer without the zeros in front, read from its most significant digit. -/
theorem Holds.digitsBE {size value : ℕ} {s : List ℕ × ℕ} (hb : 1 < b) (h : Holds b size value s) :
    s.1.reverse.dropWhile (· == 0) = digitsBE b value := by
  rw [← Base58.digitsBE_dropWhile hb fun d hd => h.digits d (List.mem_reverse.1 hd), ← h.value, ofDigitsBE,
    List.reverse_reverse]

/-- Where the buffer is zero from the mark on, nothing is lost by skipping that part. -/
theorem Holds.dropWhile_drop {size value : ℕ} {s : List ℕ × ℕ} (h : Holds b size value s) :
    (s.1.reverse.drop (size - s.2)).dropWhile (· == 0) = s.1.reverse.dropWhile (· == 0) := by
  have hdrop : s.1.reverse.drop (size - s.2) = (s.1.take s.2).reverse := by
    rw [← h.length, List.reverse_take]
  have hzeros : (s.1.drop s.2).reverse.dropWhile (· == 0) = [] := by
    rw [List.dropWhile_eq_nil_iff]
    intro d hd
    rw [h.zeros d (List.mem_reverse.1 hd)]
    rfl
  conv_rhs => rw [← List.take_append_drop s.2 s.1, List.reverse_append]
  rw [hdrop, List.dropWhile_append, hzeros]
  rfl

/-- The size of a buffer from a ratio that is rounded up. -/
theorem pow_lt_pow_of_ratio {p q : ℕ} (hb : 1 < b) (hq : 0 < q) (h : m ^ q ≤ b ^ p) (n : ℕ) :
    m ^ n < b ^ (n * p / q + 1) := by
  have hsize : n * p < q * (n * p / q + 1) := Nat.lt_mul_div_succ (n * p) hq
  apply lt_of_pow_lt_pow_left₀ q (Nat.zero_le _)
  calc (m ^ n) ^ q = (m ^ q) ^ n := by rw [← pow_mul, ← pow_mul, mul_comm]
    _ ≤ (b ^ p) ^ n := Nat.pow_le_pow_left h n
    _ = b ^ (n * p) := by rw [← pow_mul, mul_comm]
    _ < b ^ (q * (n * p / q + 1)) := Nat.pow_lt_pow_right hb hsize
    _ = (b ^ (n * p / q + 1)) ^ q := by rw [← pow_mul, mul_comm]

end Radix
