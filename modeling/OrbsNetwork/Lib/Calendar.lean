import Mathlib.Tactic.Linarith
/-!
# Calendar — days, months and years in UTC

A day is its number since 1970-01-01, and a month is counted from zero.  The year of a day is computed from the mean
length of a year and then corrected; every other fact is about the days at which years and months start.
-/
namespace Calendar

/-- The first day of a year. -/
def dayFromYear (y : ℤ) : ℤ := 365 * (y - 1970) + (y - 1969) / 4 - (y - 1901) / 100 + (y - 1601) / 400

def isLeap (y : ℤ) : Bool := y % 4 = 0 && (y % 100 ≠ 0 || y % 400 = 0)

def yearFromDay (d : ℤ) : ℤ :=
  let y := 1970 + 400 * d / 146097
  if d < dayFromYear y then y - 1 else if dayFromYear (y + 1) ≤ d then y + 1 else y

/-- The days of a year before a month. -/
def daysBefore (leap : Bool) (month : ℕ) : ℕ :=
  [0, 31, 59, 90, 120, 151, 181, 212, 243, 273, 304, 334, 365].getD month 365 + if leap && 2 ≤ month then 1 else 0

/-- The month of a day in the year. -/
def monthInYear (leap : Bool) (n : ℕ) : ℕ := ((List.range 11).filter fun m => daysBefore leap (m + 1) ≤ n).length

def monthFromDay (d : ℤ) : ℕ := monthInYear (isLeap (yearFromDay d)) (d - dayFromYear (yearFromDay d)).toNat

/-- The first day of a month. -/
def firstOfMonth (y : ℤ) (month : ℕ) : ℤ := dayFromYear y + daysBefore (isLeap y) month

def daysInMonth (y : ℤ) (month : ℕ) : ℤ := firstOfMonth y (month + 1) - firstOfMonth y month

/-! ## Years -/

theorem dayFromYear_succ (y : ℤ) : dayFromYear (y + 1) = dayFromYear y + 365 + if isLeap y then 1 else 0 := by
  unfold dayFromYear isLeap
  by_cases h4 : y % 4 = 0
  · by_cases h100 : y % 100 = 0
    · by_cases h400 : y % 400 = 0
      · simp [h4, h100, h400]
        omega
      · simp [h4, h100, h400]
        omega
    · simp [h4, h100]
      omega
  · simp [h4]
    omega

theorem dayFromYear_lt_succ (y : ℤ) : dayFromYear y < dayFromYear (y + 1) := by
  rw [dayFromYear_succ]
  split <;> omega

/-- **A day lies in its year.** -/
theorem yearFromDay_spec (d : ℤ) : dayFromYear (yearFromDay d) ≤ d ∧ d < dayFromYear (yearFromDay d + 1) := by
  have hlow : dayFromYear (1970 + 400 * d / 146097 - 1) ≤ d := by
    unfold dayFromYear
    omega
  have hhigh : d < dayFromYear (1970 + 400 * d / 146097 + 1 + 1) := by
    unfold dayFromYear
    omega
  unfold yearFromDay
  dsimp only
  split
  · rename_i h
    rw [sub_add_cancel]
    exact ⟨hlow, h⟩
  split
  · rename_i h
    exact ⟨h, hhigh⟩
  · rename_i h h'
    exact ⟨not_lt.1 h, not_le.1 h'⟩

theorem dayFromYear_lt_iff {y y' : ℤ} : dayFromYear y < dayFromYear y' ↔ y < y' :=
  (strictMono_int_of_lt_succ dayFromYear_lt_succ).lt_iff_lt

theorem yearFromDay_eq {d y : ℤ} (h : dayFromYear y ≤ d) (h' : d < dayFromYear (y + 1)) : yearFromDay d = y := by
  obtain ⟨hlow, hhigh⟩ := yearFromDay_spec d
  have h1 := dayFromYear_lt_iff.1 (hlow.trans_lt h')
  have h2 := dayFromYear_lt_iff.1 (h.trans_lt hhigh)
  omega

/-! ## Months -/

theorem daysBefore_spec : ∀ leap : Bool, ∀ n < 366, (n < 365 ∨ leap = true) →
    monthInYear leap n ≤ 11 ∧ daysBefore leap (monthInYear leap n) ≤ n ∧ n < daysBefore leap (monthInYear leap n + 1) := by
  decide +kernel

theorem daysBefore_twelve (leap : Bool) : daysBefore leap 12 = 365 + if leap then 1 else 0 := by
  cases leap <;> rfl

/-- **A day lies in its month.** -/
theorem monthFromDay_spec (d : ℤ) : monthFromDay d ≤ 11 ∧ firstOfMonth (yearFromDay d) (monthFromDay d) ≤ d ∧
    d < firstOfMonth (yearFromDay d) (monthFromDay d + 1) := by
  obtain ⟨hlow, hhigh⟩ := yearFromDay_spec d
  rw [dayFromYear_succ] at hhigh
  obtain ⟨n, hn⟩ : ∃ n : ℕ, d - dayFromYear (yearFromDay d) = n := ⟨_, (Int.toNat_of_nonneg (by omega)).symm⟩
  have hlt : n < 366 ∧ (n < 365 ∨ isLeap (yearFromDay d) = true) := by
    by_cases hleap : isLeap (yearFromDay d) = true
    · rw [if_pos hleap] at hhigh
      exact ⟨by omega, .inr hleap⟩
    · rw [if_neg hleap] at hhigh
      exact ⟨by omega, .inl (by omega)⟩
  have hmonth : monthFromDay d = monthInYear (isLeap (yearFromDay d)) n := by
    unfold monthFromDay
    rw [hn, Int.toNat_natCast]
  obtain ⟨h11, hfirst, hlast⟩ := daysBefore_spec (isLeap (yearFromDay d)) n hlt.1 hlt.2
  rw [hmonth]
  unfold firstOfMonth
  exact ⟨h11, by omega, by omega⟩

theorem daysInMonth_bounds (y : ℤ) {month : ℕ} (h : month ≤ 11) : 28 ≤ daysInMonth y month ∧ daysInMonth y month ≤ 31 := by
  have hall : ∀ leap : Bool, ∀ m < 12, daysBefore leap m + 28 ≤ daysBefore leap (m + 1) ∧
      daysBefore leap (m + 1) ≤ daysBefore leap m + 31 := by decide
  have := hall (isLeap y) month (by omega)
  unfold daysInMonth firstOfMonth
  omega

theorem daysBefore_mono (leap : Bool) {m n : ℕ} (h : m ≤ n) (hn : n ≤ 12) : daysBefore leap m ≤ daysBefore leap n := by
  have hall : ∀ leap : Bool, ∀ n < 13, ∀ m < n + 1, daysBefore leap m ≤ daysBefore leap n := by decide
  exact hall leap n (by omega) m (by omega)

/-- The year and the month of a day are determined by where the month starts and ends. -/
theorem monthFromDay_eq {d y : ℤ} {month : ℕ} (hm : month ≤ 11) (h : firstOfMonth y month ≤ d)
    (h' : d < firstOfMonth y (month + 1)) : yearFromDay d = y ∧ monthFromDay d = month := by
  have hyear : yearFromDay d = y := by
    have h12 := daysBefore_mono (isLeap y) (show month + 1 ≤ 12 by omega) le_rfl
    have hsucc := dayFromYear_succ y
    have htwelve := daysBefore_twelve (isLeap y)
    unfold firstOfMonth at h h'
    apply yearFromDay_eq
    · omega
    · rw [hsucc]
      split_ifs at htwelve ⊢ <;> omega
  obtain ⟨h11, hfirst, hlast⟩ := monthFromDay_spec d
  rw [hyear] at hfirst hlast
  refine ⟨hyear, ?_⟩
  unfold firstOfMonth at h h' hfirst hlast
  by_contra hne
  rcases lt_or_gt_of_ne hne with hlt | hgt
  · have := daysBefore_mono (isLeap y) (show monthFromDay d + 1 ≤ month by omega) (by omega)
    omega
  · have := daysBefore_mono (isLeap y) (show month + 1 ≤ monthFromDay d by omega) (by omega)
    omega

theorem firstOfMonth_twelve (y : ℤ) : firstOfMonth y 12 = firstOfMonth (y + 1) 0 := by
  have hsucc := dayFromYear_succ y
  have htwelve := daysBefore_twelve (isLeap y)
  have hzero : daysBefore (isLeap (y + 1)) 0 = 0 := by
    cases isLeap (y + 1) <;> rfl
  unfold firstOfMonth
  rw [hzero, htwelve, hsucc]
  split <;> omega

/-- **The last day of a month.** -/
theorem lastOfMonth (y : ℤ) {month : ℕ} (hm : month ≤ 11) :
    yearFromDay (firstOfMonth y (month + 1) - 1) = y ∧ monthFromDay (firstOfMonth y (month + 1) - 1) = month := by
  have hbounds := daysInMonth_bounds y hm
  unfold daysInMonth at hbounds
  exact monthFromDay_eq hm (by omega) (by omega)

/-! ## Dates -/

/-- The day of a date; the month may be the twelfth one, and the date one outside the month. -/
def makeDay (y : ℤ) (month : ℕ) (date : ℤ) : ℤ := firstOfMonth (y + (month / 12 : ℕ)) (month % 12) + date - 1

/-- The date of a day in its month. -/
def dateFromDay (d : ℤ) : ℤ := d - firstOfMonth (yearFromDay d) (monthFromDay d) + 1

theorem makeDay_eq (y : ℤ) {month : ℕ} (hm : month ≤ 12) (date : ℤ) :
    makeDay y month date = firstOfMonth y month + date - 1 := by
  unfold makeDay
  rcases hm.lt_or_eq with hlt | rfl
  · rw [Nat.div_eq_of_lt hlt, Nat.mod_eq_of_lt hlt, Nat.cast_zero, add_zero]
  · rw [firstOfMonth_twelve]
    rfl

/-- **The day before the next month has the number of days of this month as its date.** -/
theorem dateFromDay_makeDay (y : ℤ) {month : ℕ} (hm : month ≤ 11) :
    dateFromDay (makeDay y (month + 1) 0) = daysInMonth y month := by
  obtain ⟨hyear, hmonth⟩ := lastOfMonth y hm
  rw [makeDay_eq y (by omega), add_zero, dateFromDay, hyear, hmonth, daysInMonth]
  omega

end Calendar
