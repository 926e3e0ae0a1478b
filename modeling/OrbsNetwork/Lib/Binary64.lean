import Mathlib.Data.Int.Log
import Mathlib.Data.Rat.Floor
import Mathlib.Tactic.Linarith
import Mathlib.Tactic.Ring
import Mathlib.Tactic.Positivity
/-!
# Binary64 — rounding a rational to the nearest IEEE 754 double

A finite double is a rational `m * 2 ^ u` with `|m| ≤ 2 ^ 53` and `-1074 ≤ u`, below `2 ^ 1024`.  `nearest` rounds
to the closest one, ties to the even mantissa, ignoring the range; a `Double` is a rational that `nearest` leaves
alone.  Three facts carry every use: `nearest` is idempotent (`nearest_nearest`), it never crosses a double
(`nearest_le`, `le_nearest`), and it is exact on the integers up to `2 ^ 53` (`nearest_intCast`).

Signed zero is not represented: the two zeros are equal, print alike and add alike.
-/
namespace Binary64

/-- The closest integer, ties to the even one. -/
def roundHalfEven (q : ℚ) : ℤ :=
  if q - ⌊q⌋ < 1 / 2 then ⌊q⌋
  else if 1 / 2 < q - ⌊q⌋ then ⌊q⌋ + 1
  else if ⌊q⌋ % 2 = 0 then ⌊q⌋ else ⌊q⌋ + 1

theorem roundHalfEven_intCast (n : ℤ) : roundHalfEven n = n := by
  simp [roundHalfEven]

theorem le_roundHalfEven {n : ℤ} {q : ℚ} (h : (n : ℚ) ≤ q) : n ≤ roundHalfEven q := by
  have hf : n ≤ ⌊q⌋ := Int.le_floor.2 h
  unfold roundHalfEven
  split_ifs <;> omega

theorem roundHalfEven_le {n : ℤ} {q : ℚ} (h : q ≤ n) : roundHalfEven q ≤ n := by
  rcases h.lt_or_eq with hlt | rfl
  · have hf : ⌊q⌋ < n := Int.floor_lt.2 hlt
    unfold roundHalfEven
    split_ifs <;> omega
  · exact (roundHalfEven_intCast n).le

/-- The exponent of the last mantissa bit at the magnitude of `q`. -/
def ulpExp (q : ℚ) : ℤ := max (Int.log 2 |q| - 52) (-1074)

/-- The nearest double, were the exponent range unbounded above. -/
def nearest (q : ℚ) : ℚ := roundHalfEven (q / 2 ^ ulpExp q) * 2 ^ ulpExp q

theorem two_zpow_pos (u : ℤ) : (0 : ℚ) < 2 ^ u := zpow_pos (by norm_num) u

theorem zpow_split {u v : ℤ} (h : v ≤ u) : (2 : ℚ) ^ u = ((2 ^ (u - v).toNat : ℤ) : ℚ) * 2 ^ v := by
  rw [Int.cast_pow, Int.cast_ofNat, ← zpow_natCast, ← zpow_add₀ (by norm_num)]
  congr 1
  omega

theorem neg_1074_le_ulpExp (q : ℚ) : -1074 ≤ ulpExp q := le_max_right _ _

theorem abs_lt_zpow_ulpExp (q : ℚ) : |q| < 2 ^ (ulpExp q + 53) := by
  have h1 : |q| < (2 : ℚ) ^ (Int.log 2 |q| + 1) := by
    simpa using Int.lt_zpow_succ_log_self (R := ℚ) (b := 2) (by norm_num) |q|
  refine h1.trans_le (zpow_le_zpow_right₀ (by norm_num) ?_)
  have : Int.log 2 |q| - 52 ≤ ulpExp q := le_max_left _ _
  omega

/-- A magnitude above the subnormal range fills its 53 bits. -/
theorem zpow_ulpExp_le_abs {q : ℚ} (hq : q ≠ 0) (hu : -1074 < ulpExp q) : (2 : ℚ) ^ (ulpExp q + 52) ≤ |q| := by
  have hlog : ulpExp q = Int.log 2 |q| - 52 := by unfold ulpExp at hu ⊢; omega
  rw [hlog, sub_add_cancel]
  simpa using Int.zpow_log_le_self (R := ℚ) (b := 2) (by norm_num) (abs_pos.2 hq)

/-- A number on the grid of `2 ^ u` with at most 53 bits is on the grid of its own magnitude. -/
theorem grid_of_mantissa {m u : ℤ} (hm : |m| ≤ 2 ^ 53) (hu : -1074 ≤ u) :
    ∃ n : ℤ, (m : ℚ) * 2 ^ u = n * 2 ^ ulpExp (m * 2 ^ u) := by
  generalize hq : (m : ℚ) * 2 ^ u = q
  by_cases hle : ulpExp q ≤ u
  · refine ⟨m * 2 ^ (u - ulpExp q).toNat, ?_⟩
    calc q = m * 2 ^ u := hq.symm
      _ = _ := by rw [zpow_split hle]; push_cast; ring
  by_cases hq0 : q = 0
  · exact ⟨0, by simp [hq0]⟩
  -- the grid of `q` is coarser than `2 ^ u` only for the mantissa `± 2 ^ 53`
  have hmag := zpow_ulpExp_le_abs hq0 (by omega)
  have habs : |q| = |m| * 2 ^ u := by
    rw [← hq, abs_mul, abs_of_pos (two_zpow_pos u), Int.cast_abs]
  have hmQ : ((|m| : ℤ) : ℚ) ≤ 2 ^ (53 : ℤ) := by exact_mod_cast hm
  have hup : |q| ≤ 2 ^ (u + 53) := by
    rw [habs, add_comm u, zpow_add₀ (by norm_num)]
    exact mul_le_mul_of_nonneg_right hmQ (two_zpow_pos u).le
  have hexp : ulpExp q + 52 ≤ u + 53 := (zpow_le_zpow_iff_right₀ (by norm_num)).1 (hmag.trans hup)
  have hulp : ulpExp q = u + 1 := by omega
  have hm53 : |m| = 2 ^ 53 := by
    refine le_antisymm hm ?_
    rw [habs, hulp, show u + 1 + 52 = 53 + u by ring, zpow_add₀ (by norm_num)] at hmag
    exact_mod_cast le_of_mul_le_mul_right hmag (two_zpow_pos u)
  have heven : m = m / 2 * 2 := by
    rcases abs_choice m with h | h <;> omega
  refine ⟨m / 2, ?_⟩
  rw [hulp, ← hq, zpow_add₀ (by norm_num), zpow_one]
  conv_lhs => rw [heven]
  push_cast; ring

theorem mantissa_le (q : ℚ) : |roundHalfEven (q / 2 ^ ulpExp q)| ≤ 2 ^ 53 := by
  have h2 := two_zpow_pos (ulpExp q)
  have hlt := abs_lt_zpow_ulpExp q
  rw [add_comm, zpow_add₀ (by norm_num), abs_lt] at hlt
  rw [abs_le]
  constructor
  · refine le_roundHalfEven ?_
    rw [le_div_iff₀ h2]
    push_cast
    have := hlt.1
    norm_num at this ⊢
    linarith
  · refine roundHalfEven_le ?_
    rw [div_le_iff₀ h2]
    push_cast
    have := hlt.2
    norm_num at this ⊢
    linarith

/-- On its own grid a number rounds to itself. -/
theorem nearest_of_grid {q : ℚ} {n : ℤ} (h : q = n * 2 ^ ulpExp q) : nearest q = q := by
  have h2 := two_zpow_pos (ulpExp q)
  have hdiv : q / 2 ^ ulpExp q = n := by
    rw [div_eq_iff h2.ne']; exact h
  rw [nearest, hdiv, roundHalfEven_intCast]
  exact h.symm

theorem nearest_of_mantissa {m u : ℤ} (hm : |m| ≤ 2 ^ 53) (hu : -1074 ≤ u) :
    nearest (m * 2 ^ u) = m * 2 ^ u := by
  obtain ⟨n, hn⟩ := grid_of_mantissa hm hu
  exact nearest_of_grid hn

/-- **Rounding is idempotent.** -/
theorem nearest_nearest (q : ℚ) : nearest (nearest q) = nearest q :=
  nearest_of_mantissa (mantissa_le q) (neg_1074_le_ulpExp q)

/-- **Rounding is exact on the integers up to `2 ^ 53`.** -/
theorem nearest_intCast {n : ℤ} (h : |n| ≤ 2 ^ 53) : nearest n = n := by
  simpa using nearest_of_mantissa (u := 0) h (by norm_num)

/-- A double is on the grid of every smaller exponent. -/
theorem grid_of_fixed {b : ℚ} (hb : nearest b = b) {v : ℤ} (hv : v ≤ ulpExp b) :
    ∃ n : ℤ, b = n * 2 ^ v := by
  unfold nearest at hb
  generalize roundHalfEven (b / 2 ^ ulpExp b) = r at hb
  refine ⟨r * 2 ^ (ulpExp b - v).toNat, ?_⟩
  calc b = r * 2 ^ ulpExp b := hb.symm
    _ = _ := by rw [zpow_split hv]; push_cast; ring

/-- The binade bound that separates a double from a larger magnitude on a coarser grid. -/
theorem abs_lt_of_ulpExp_lt {b q : ℚ} (hq : q ≠ 0) (h : ulpExp b < ulpExp q) :
    |b| < 2 ^ (ulpExp q + 52) ∧ 2 ^ (ulpExp q + 52) ≤ |q| := by
  refine ⟨(abs_lt_zpow_ulpExp b).trans_le (zpow_le_zpow_right₀ (by norm_num) (by omega)), ?_⟩
  exact zpow_ulpExp_le_abs hq (lt_of_le_of_lt (neg_1074_le_ulpExp b) h)

/-- **Rounding never passes a double from below.** -/
theorem nearest_le {q b : ℚ} (hb : nearest b = b) (h : q ≤ b) : nearest q ≤ b := by
  have h2 := two_zpow_pos (ulpExp q)
  by_cases hv : ulpExp q ≤ ulpExp b
  · obtain ⟨n, hn⟩ := grid_of_fixed hb hv
    have hle : roundHalfEven (q / 2 ^ ulpExp q) ≤ n := roundHalfEven_le (by rw [div_le_iff₀ h2, ← hn]; exact h)
    rw [hn, nearest]
    exact mul_le_mul_of_nonneg_right (by exact_mod_cast hle) h2.le
  by_cases hq0 : q = 0
  · subst hq0
    have : nearest 0 = 0 := by simpa using nearest_intCast (n := 0) (by norm_num)
    rwa [this]
  -- here `q` is negative and its binade lies below that of `b`
  obtain ⟨hlt, hle⟩ := abs_lt_of_ulpExp_lt hq0 (not_le.1 hv)
  have hbl := (abs_lt.1 hlt).1
  have hqneg : q ≤ -2 ^ (ulpExp q + 52) := by
    rcases abs_choice q with hc | hc
    · have := (abs_lt.1 hlt).2; rw [hc] at hle; linarith
    · rw [hc] at hle; linarith
  have hround : roundHalfEven (q / 2 ^ ulpExp q) ≤ -2 ^ 52 := by
    refine roundHalfEven_le ?_
    rw [div_le_iff₀ h2]
    rw [add_comm, zpow_add₀ (by norm_num)] at hqneg
    push_cast
    norm_num at hqneg ⊢
    linarith
  have hcast : (roundHalfEven (q / 2 ^ ulpExp q) : ℚ) ≤ ((-2 ^ 52 : ℤ) : ℚ) := by exact_mod_cast hround
  have hmul := mul_le_mul_of_nonneg_right hcast h2.le
  rw [add_comm, zpow_add₀ (by norm_num)] at hbl
  rw [nearest]
  push_cast at hmul
  norm_num at hbl hmul ⊢
  linarith

theorem roundHalfEven_neg (q : ℚ) : roundHalfEven (-q) = -roundHalfEven q := by
  have h1 := Int.floor_le q
  have h2 := Int.lt_floor_add_one q
  by_cases hint : q = ⌊q⌋
  · rw [hint, roundHalfEven_intCast, ← Int.cast_neg, roundHalfEven_intCast]
  have h3 : (⌊q⌋ : ℚ) < q := lt_of_le_of_ne h1 (Ne.symm hint)
  have hfl : ⌊-q⌋ = -⌊q⌋ - 1 := by
    rw [Int.floor_eq_iff]; push_cast; constructor <;> linarith
  have hfr : -q - ((-⌊q⌋ - 1 : ℤ) : ℚ) = 1 - (q - ⌊q⌋) := by push_cast; ring
  unfold roundHalfEven
  rw [hfl, hfr]
  split_ifs <;> first | omega | (exfalso; linarith)

theorem nearest_neg (q : ℚ) : nearest (-q) = -nearest q := by
  have : ulpExp (-q) = ulpExp q := by unfold ulpExp; rw [abs_neg]
  rw [nearest, this, neg_div, roundHalfEven_neg, nearest]
  push_cast; ring

/-- **Rounding never passes a double from above.** -/
theorem le_nearest {q b : ℚ} (hb : nearest b = b) (h : b ≤ q) : b ≤ nearest q := by
  have := nearest_le (q := -q) (b := -b) (by rw [nearest_neg, hb]) (neg_le_neg h)
  rw [nearest_neg] at this
  linarith

/-- A finite double: in range and its own rounding. -/
structure Double where
  val : ℚ
  isNearest : nearest val = val
  inRange : |val| < 2 ^ 1024

theorem Double.ext {x y : Double} (h : x.val = y.val) : x = y := by
  cases x; cases y; cases h; rfl

instance : DecidableEq Double := fun x y =>
  decidable_of_iff (x.val = y.val) ⟨Double.ext, fun h => h ▸ rfl⟩

def Double.neg (x : Double) : Double :=
  ⟨-x.val, by rw [nearest_neg, x.isNearest], by rw [abs_neg]; exact x.inRange⟩

/-- The double of an integer that needs no rounding. -/
def Double.ofInt (n : ℤ) (h : |n| ≤ 2 ^ 53) : Double :=
  ⟨n, nearest_intCast h, by
    have hc : |(n : ℚ)| ≤ 2 ^ 53 := by exact_mod_cast h
    exact hc.trans_lt (pow_lt_pow_right₀ (by norm_num) (by norm_num))⟩

end Binary64
