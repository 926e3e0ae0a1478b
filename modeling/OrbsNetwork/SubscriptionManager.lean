import OrbsNetwork.TransactionPool
import OrbsNetwork.Lib.Calendar
/-!
# SubscriptionManager — the fee of a subscription in its first month

A subscription that started this month pays its share of the rate, up to the end of the month.  The bounds of the month
go through texts: the first seven characters of the ISO date, and the number of a day.  But the end is taken at the
beginning of the last day, so on that day the fee is negative or nothing (`prorated_iff`).

The local time zone is UTC, numbers are rational, and `none` is `NaN`.
-/
namespace Orbs

open Js Calendar

/-! ## Dates -/

namespace Date

def msPerDay : ℤ := 86400000

/-- `padStart` with zeros. -/
def pad (width n : ℕ) : Str := List.replicate (width - (Nat.toDigits 10 n).length) '0' ++ Nat.toDigits 10 n

def isoYear (y : ℤ) : Str :=
  if 0 ≤ y ∧ y ≤ 9999 then pad 4 y.toNat else (if y < 0 then '-' else '+') :: pad 6 y.natAbs

def toISOString (t : ℤ) : Str :=
  let day := t / msPerDay
  let ms := (t % msPerDay).toNat
  isoYear (yearFromDay day) ++ '-' :: (pad 2 (monthFromDay day + 1) ++ '-' :: (pad 2 (dateFromDay day).toNat ++ 'T' ::
    (pad 2 (ms / 3600000) ++ ':' :: (pad 2 (ms / 60000 % 60) ++ ':' :: (pad 2 (ms / 1000 % 60) ++ '.' ::
      (pad 3 (ms % 1000) ++ ['Z']))))))

/-- A number of fixed width. -/
def scanDigits (width : ℕ) (s : Str) : Option (ℕ × Str) :=
  if (s.take width).length = width ∧ (s.take width).all Char.isDigit then
    some (Number.digitsVal (s.take width), s.drop width)
  else none

def scanYear : Str → Option (ℤ × Str)
  | '+' :: s => (scanDigits 6 s).map fun p => (p.1, p.2)
  | '-' :: s => (scanDigits 6 s).map fun p => (-p.1, p.2)
  | s => (scanDigits 4 s).map fun p => (p.1, p.2)

def parseDate (y : ℤ) (month : ℕ) : Str → Option ℤ
  | [] => some (makeDay y (month - 1) 1 * msPerDay)
  | '-' :: s => (scanDigits 2 s).bind fun (date, s) =>
    if 1 ≤ date ∧ date ≤ 31 ∧ s = [] then some (makeDay y (month - 1) date * msPerDay) else none
  | _ => none

def parseMonth (y : ℤ) : Str → Option ℤ
  | [] => some (makeDay y 0 1 * msPerDay)
  | '-' :: s => (scanDigits 2 s).bind fun (month, s) => if 1 ≤ month ∧ month ≤ 12 then parseDate y month s else none
  | _ => none

/-- `Date.parse` on a text without a time: a year, a year and a month, or a date. -/
def parse (s : Str) : Option ℤ := (scanYear s).bind fun (y, s) => parseMonth y s

/-- The constructor takes a year of two digits for one of the twentieth century. -/
def fullYear (y : ℤ) : ℤ := if 0 ≤ y ∧ y ≤ 99 then 1900 + y else y

/-- `new Date(y, month, date).getDate()`. -/
def getDateOf (y : ℤ) (month : ℕ) (date : ℤ) : ℤ := dateFromDay (makeDay (fullYear y) month date)

/-! ### Texts of dates -/

theorem length_pad {width n : ℕ} (hw : 0 < width) (h : n < 10 ^ width) : (pad width n).length = width := by
  have hle := (Nat.length_toDigits_le_iff (by decide) hw).2 h
  unfold pad
  rw [List.length_append, List.length_replicate]
  omega

theorem isDigit_pad (width n : ℕ) : ∀ c ∈ pad width n, c.isDigit = true := by
  intro c hc
  rcases List.mem_append.1 hc with hc | hc
  · rw [List.eq_of_mem_replicate hc]
    rfl
  · exact Number.toDigits_isDigit n c hc

theorem digitsVal_pad (width n : ℕ) : Number.digitsVal (pad width n) = n := by
  unfold pad
  rw [Number.digitsVal_zeros_append, Number.digitsVal_toDigits]

/-- **A padded number is read back.** -/
theorem scanDigits_pad {width n : ℕ} (hw : 0 < width) (h : n < 10 ^ width) (s : Str) :
    scanDigits width (pad width n ++ s) = some (n, s) := by
  have hlen := length_pad hw h
  have htake : (pad width n ++ s).take width = pad width n := List.take_left' hlen
  have hall : (pad width n).all Char.isDigit = true := List.all_eq_true.2 (isDigit_pad width n)
  unfold scanDigits
  rw [htake, if_pos ⟨hlen, hall⟩, digitsVal_pad, List.drop_left' hlen]

theorem scanYear_pad {y : ℕ} (h : y < 10 ^ 4) (s : Str) : scanYear (pad 4 y ++ s) = some ((y : ℤ), s) := by
  have hscan := scanDigits_pad (by decide) h s
  have hdigit := isDigit_pad 4 y
  cases hp : pad 4 y with
  | nil =>
    have hlen := length_pad (by decide) h
    rw [hp] at hlen
    cases hlen
  | cons c cs =>
    have hc : c.isDigit = true := hdigit c (by rw [hp]; exact List.mem_cons_self)
    rw [hp] at hscan
    unfold scanYear
    split
    · rename_i heq
      cases heq
      exact absurd hc (by decide)
    · rename_i heq
      cases heq
      exact absurd hc (by decide)
    · rw [hscan]
      rfl

/-- **A date with a year of four digits.** -/
theorem parse_date {y month date : ℕ} (hy : y < 10 ^ 4) (hm : 1 ≤ month ∧ month ≤ 12) (hd : 1 ≤ date ∧ date ≤ 31) :
    parse (pad 4 y ++ '-' :: (pad 2 month ++ '-' :: pad 2 date)) = some (makeDay y (month - 1) date * msPerDay) := by
  have hdate := scanDigits_pad (n := date) (by decide : 0 < 2) (by omega) []
  rw [List.append_nil] at hdate
  have hmonth : parseMonth y ('-' :: (pad 2 month ++ '-' :: pad 2 date)) = parseDate y month ('-' :: pad 2 date) := by
    change (scanDigits 2 (pad 2 month ++ '-' :: pad 2 date)).bind (fun p => _) = _
    rw [scanDigits_pad (by decide) (by omega), Option.bind_some]
    exact if_pos hm
  unfold parse
  rw [scanYear_pad hy, Option.bind_some]
  refine hmonth.trans ?_
  change (scanDigits 2 (pad 2 date)).bind (fun p => _) = _
  rw [hdate, Option.bind_some]
  exact if_pos ⟨hd.1, hd.2, rfl⟩

/-- Behind a year of six digits there is room for a month only. -/
theorem parse_year_month {y n : ℕ} (hy : y < 10 ^ 6) (hn : n < 100) : parse ('+' :: (pad 6 y ++ '-' :: pad 2 n)) =
    if 1 ≤ n ∧ n ≤ 12 then some (makeDay y (n - 1) 1 * msPerDay) else none := by
  have hmonth := scanDigits_pad (n := n) (by decide : 0 < 2) (by omega) []
  rw [List.append_nil] at hmonth
  have hyear : scanYear ('+' :: (pad 6 y ++ '-' :: pad 2 n)) = some ((y : ℤ), '-' :: pad 2 n) := by
    change (scanDigits 6 (pad 6 y ++ '-' :: pad 2 n)).map (fun p => ((p.1 : ℤ), p.2)) = _
    rw [scanDigits_pad (by decide) hy]
    rfl
  unfold parse
  rw [hyear, Option.bind_some]
  change (scanDigits 2 (pad 2 n)).bind (fun p => _) = _
  rw [hmonth, Option.bind_some]
  rfl

theorem take_toISOString {t : ℤ} {y : ℕ} (h : yearFromDay (t / msPerDay) = y) (hy : y < 10 ^ 6) :
    (toISOString t).take 7 =
      if y ≤ 9999 then pad 4 y ++ '-' :: pad 2 (monthFromDay (t / msPerDay) + 1) else '+' :: pad 6 y := by
  have hmonth := (monthFromDay_spec (t / msPerDay)).1
  unfold toISOString isoYear
  dsimp only
  rw [h]
  by_cases hfour : y ≤ 9999
  · have hrange : 0 ≤ (y : ℤ) ∧ (y : ℤ) ≤ 9999 := by omega
    have hlen : (pad 4 y ++ '-' :: pad 2 (monthFromDay (t / msPerDay) + 1)).length = 7 := by
      rw [List.length_append, List.length_cons, length_pad (by decide) (show y < 10 ^ 4 by omega),
        length_pad (by decide) (by omega)]
    rw [if_pos hfour, if_pos hrange, Int.toNat_natCast, ← List.cons_append, ← List.append_assoc]
    exact List.take_left' hlen
  · have hrange : ¬ (0 ≤ (y : ℤ) ∧ (y : ℤ) ≤ 9999) := by omega
    have hlen : ('+' :: pad 6 y).length = 7 := by
      rw [List.length_cons, length_pad (by decide) hy]
    rw [if_neg hfour, if_neg hrange, if_neg (by omega), Int.natAbs_natCast]
    exact List.take_left' hlen

end Date

/-! ## SubscriptionManager -/

structure MonthlySubscriptionRateData where
  /-- A timestamp. -/
  expiresAt : Option ℚ
  rate : ℚ

/-- The profiles of the configuration. -/
abbrev SubscriptionProfiles := Str → Option (List MonthlySubscriptionRateData)

structure Subscription where
  profile : Str
  startTime : ℚ
  tokens : ℚ

namespace SubscriptionManager

/-- What the comparison says when it is positive: `a` comes after `b`. -/
def comesAfter (a b : MonthlySubscriptionRateData) : Bool :=
  match a.expiresAt, b.expiresAt with
  | none, _ => true
  | some _, none => false
  | some x, some y => 0 < x - y

/-- The comparison does not order the rates without an end among themselves. -/
def getCurrentSubscriptionRateByProfile (subscriptionProfiles : SubscriptionProfiles) (profile : Str) (date : Time) :
    Option MonthlySubscriptionRateData :=
  (subscriptionProfiles profile).bind fun profileRates =>
    let nonExpiredRates := profileRates.filter fun rateData => rateData.expiresAt.all fun e => (date.1 : ℚ) < e
    (nonExpiredRates.insertionSort fun a b => comesAfter a b = false).head?

def beginningOfThisMonth (now : Time) : Option ℤ := Date.parse ((Date.toISOString now.1).take 7 ++ "-01".toList)

def numOfDaysThisMonth (now : Time) : ℤ :=
  let day := (now.1 : ℤ) / Date.msPerDay
  Date.getDateOf (yearFromDay day) (monthFromDay day + 1) 0

def endOfThisMonth (now : Time) : Option ℤ :=
  Date.parse ((Date.toISOString now.1).take 7 ++ '-' :: Nat.toDigits 10 (numOfDaysThisMonth now).toNat)

def minimumRequiredFee (rate startTime : ℚ) (now : Time) : Option ℚ :=
  match beginningOfThisMonth now with
  | none => none
  | some beginningOfThisMonth =>
    if startTime ≤ beginningOfThisMonth then some rate
    else
      match endOfThisMonth now with
      | none => none
      | some endOfThisMonth =>
        let subscriptionDurationInMilliseconds := endOfThisMonth - startTime
        let numOfMillisecondsThisMonth : ℚ := endOfThisMonth - beginningOfThisMonth
        some (rate * (subscriptionDurationInMilliseconds / numOfMillisecondsThisMonth))

/-- `later` is what the clock says when it is read again. -/
def isSubscriptionValid (subscriptionProfiles : SubscriptionProfiles) (subscriptionData : Subscription)
    (now later : Time) : Bool :=
  match getCurrentSubscriptionRateByProfile subscriptionProfiles subscriptionData.profile now with
  | none => false
  | some rateData =>
    if (later.1 : ℚ) ≤ subscriptionData.startTime then false
    else
      match minimumRequiredFee rateData.rate subscriptionData.startTime now with
      | none => true
      | some minimumRequiredFee => ¬ subscriptionData.tokens < minimumRequiredFee

/-! ## The bounds of the month -/

/-- The day of a time. -/
def dayOf (now : Time) : ℤ := (now.1 : ℤ) / Date.msPerDay

def yearOf (now : Time) : ℤ := yearFromDay (dayOf now)

def monthOf (now : Time) : ℕ := monthFromDay (dayOf now)

theorem yearOf_bounds (now : Time) : ∃ y : ℕ, yearOf now = y ∧ 1970 ≤ y ∧ y < 10 ^ 6 := by
  obtain ⟨hlow, hhigh⟩ := yearFromDay_spec (dayOf now)
  have hday : 0 ≤ dayOf now ∧ dayOf now ≤ 100000000 := by
    have := now.2
    unfold dayOf Date.msPerDay
    omega
  have h1 : 1970 < yearOf now + 1 := dayFromYear_lt_iff.1 (lt_of_le_of_lt hday.1 hhigh)
  have hmax : dayOf now < dayFromYear 1000000 := lt_of_le_of_lt hday.2 (by decide)
  have h2 : yearOf now < 1000000 := dayFromYear_lt_iff.1 (hlow.trans_lt hmax)
  refine ⟨(yearOf now).toNat, ?_, ?_, ?_⟩ <;> omega

theorem monthOf_le (now : Time) : monthOf now ≤ 11 := (monthFromDay_spec (dayOf now)).1

theorem numOfDaysThisMonth_eq (now : Time) : numOfDaysThisMonth now = daysInMonth (yearOf now) (monthOf now) := by
  obtain ⟨y, hy, hlow, -⟩ := yearOf_bounds now
  have hfull : Date.fullYear (yearOf now) = yearOf now := by
    unfold Date.fullYear
    rw [if_neg (by omega)]
  change Date.getDateOf (yearOf now) (monthOf now + 1) 0 = _
  rw [Date.getDateOf, hfull, dateFromDay_makeDay _ (monthOf_le now)]

theorem toDigits_of_two : ∀ n < 32, 28 ≤ n → Nat.toDigits 10 n = Date.pad 2 n := by decide +kernel

/-- The number of days of this month is two digits. -/
theorem toDigits_numOfDays (now : Time) : ∃ n : ℕ, daysInMonth (yearOf now) (monthOf now) = n ∧ 28 ≤ n ∧ n ≤ 31 ∧
    Nat.toDigits 10 (numOfDaysThisMonth now).toNat = Date.pad 2 n := by
  have hbounds := daysInMonth_bounds (yearOf now) (monthOf_le now)
  refine ⟨(daysInMonth (yearOf now) (monthOf now)).toNat, by omega, by omega, by omega, ?_⟩
  rw [numOfDaysThisMonth_eq]
  exact toDigits_of_two _ (by omega) (by omega)

/-- The first instant of a day. -/
def startOfDay (d : ℤ) : ℤ := d * Date.msPerDay

theorem beginningOfThisMonth_eq {now : Time} (hy : yearOf now ≤ 9999) :
    beginningOfThisMonth now = some (startOfDay (firstOfMonth (yearOf now) (monthOf now))) := by
  obtain ⟨y, hyear, -, hlt⟩ := yearOf_bounds now
  have hm := monthOf_le now
  unfold beginningOfThisMonth
  rw [Date.take_toISOString hyear hlt, if_pos (by omega), List.append_assoc, List.cons_append]
  have hparse := @Date.parse_date y (monthOf now + 1) 1 (by omega) (by omega) (by omega)
  refine hparse.trans ?_
  rw [Nat.add_sub_cancel, makeDay_eq _ (by omega), hyear]
  simp [startOfDay]

theorem endOfThisMonth_eq {now : Time} (hy : yearOf now ≤ 9999) :
    endOfThisMonth now = some (startOfDay (firstOfMonth (yearOf now) (monthOf now + 1) - 1)) := by
  obtain ⟨y, hyear, -, hlt⟩ := yearOf_bounds now
  obtain ⟨n, hn, hlow, hhigh, htext⟩ := toDigits_numOfDays now
  have hm := monthOf_le now
  unfold endOfThisMonth
  rw [Date.take_toISOString hyear hlt, if_pos (by omega), List.append_assoc, List.cons_append, htext]
  have hparse := @Date.parse_date y (monthOf now + 1) n (by omega) (by omega) (by omega)
  refine hparse.trans ?_
  rw [Nat.add_sub_cancel, makeDay_eq _ (by omega), ← hn, ← hyear, daysInMonth, startOfDay]
  congr 2
  omega

/-- From the year 10000 on the texts are cut before the month: the month begins with the year, and has no end. -/
theorem bounds_of_long_year {now : Time} (hy : 9999 < yearOf now) :
    beginningOfThisMonth now = some (startOfDay (dayFromYear (yearOf now))) ∧ endOfThisMonth now = none := by
  obtain ⟨y, hyear, -, hlt⟩ := yearOf_bounds now
  obtain ⟨n, -, hlow, hhigh, htext⟩ := toDigits_numOfDays now
  unfold beginningOfThisMonth endOfThisMonth
  rw [Date.take_toISOString hyear hlt, if_neg (by omega), htext]
  constructor
  · refine (Date.parse_year_month (n := 1) hlt (by omega)).trans ?_
    rw [if_pos (by decide), makeDay_eq _ (by decide), hyear]
    simp [startOfDay, firstOfMonth, daysBefore]
  · refine (Date.parse_year_month (n := n) hlt (by omega)).trans ?_
    rw [if_neg (by omega)]

/-! ## The fee -/

/-- The first instant of this month, and of its last day. -/
def startOfMonth (now : Time) : ℤ := startOfDay (firstOfMonth (yearOf now) (monthOf now))

def startOfLastDay (now : Time) : ℤ := startOfDay (firstOfMonth (yearOf now) (monthOf now + 1) - 1)

theorem startOfMonth_lt (now : Time) : startOfMonth now < startOfLastDay now := by
  have hdays := (daysInMonth_bounds (yearOf now) (monthOf_le now)).1
  unfold daysInMonth at hdays
  unfold startOfMonth startOfLastDay startOfDay Date.msPerDay
  omega

variable {now : Time} {rate startTime : ℚ}

/-- **The fee of a subscription that started this month.** -/
theorem minimumRequiredFee_eq (hy : yearOf now ≤ 9999) (hs : startOfMonth now < startTime) :
    minimumRequiredFee rate startTime now =
      some (rate * ((startOfLastDay now - startTime) / (startOfLastDay now - startOfMonth now))) := by
  unfold minimumRequiredFee
  rw [beginningOfThisMonth_eq hy, endOfThisMonth_eq hy]
  exact if_neg (not_le.2 hs)

theorem minimumRequiredFee_of_long_year (hy : 9999 < yearOf now) (hs : startOfMonth now < startTime) :
    minimumRequiredFee rate startTime now = none := by
  obtain ⟨hbegin, hend⟩ := bounds_of_long_year hy
  have hle : startOfDay (dayFromYear (yearOf now)) ≤ startOfMonth now := by
    unfold startOfMonth startOfDay firstOfMonth Date.msPerDay
    omega
  have hlt : ((startOfDay (dayFromYear (yearOf now)) : ℤ) : ℚ) < startTime :=
    lt_of_le_of_lt (by exact_mod_cast hle) hs
  unfold minimumRequiredFee
  rw [hbegin, hend]
  exact if_neg (not_le.2 hlt)

/-- The fee is a real fraction of the rate: more than nothing and at most the rate, and not more for a subscription that
starts later; so none is valid without tokens. -/
def Prorated (rate startTime : ℚ) (now : Time) : Prop :=
  ∃ fee, minimumRequiredFee rate startTime now = some fee ∧ 0 < fee ∧ fee ≤ rate ∧
    (∀ startTime', startTime ≤ startTime' → startTime' < now.1 →
      ∃ fee', minimumRequiredFee rate startTime' now = some fee' ∧ fee' ≤ fee) ∧
    ∀ (subscriptionProfiles : SubscriptionProfiles) (profile : Str) (rateData : MonthlySubscriptionRateData) (later : Time),
      getCurrentSubscriptionRateByProfile subscriptionProfiles profile now = some rateData → rateData.rate = rate →
      isSubscriptionValid subscriptionProfiles { profile, startTime, tokens := 0 } now later = false

theorem prorated_of_pos (hy : yearOf now ≤ 9999) (hrate : 0 < rate) (hs : startOfMonth now < startTime)
    (hlast : startTime < startOfLastDay now) : Prorated rate startTime now := by
  have hlength : (0 : ℚ) < startOfLastDay now - startOfMonth now := by
    have : ((startOfMonth now : ℤ) : ℚ) < (startOfLastDay now : ℤ) := by exact_mod_cast startOfMonth_lt now
    linarith
  have hfee : minimumRequiredFee rate startTime now = _ := minimumRequiredFee_eq hy hs
  have hpos : 0 < rate * ((startOfLastDay now - startTime) / (startOfLastDay now - startOfMonth now)) :=
    mul_pos hrate (div_pos (by linarith) hlength)
  refine ⟨_, hfee, hpos, ?_, ?_, ?_⟩
  · apply mul_le_of_le_one_right hrate.le
    rw [div_le_one hlength]
    linarith
  · intro startTime' hle _
    refine ⟨_, minimumRequiredFee_eq hy (hs.trans_le hle), ?_⟩
    apply mul_le_mul_of_nonneg_left _ hrate.le
    apply div_le_div_of_nonneg_right _ hlength.le
    linarith
  · intro subscriptionProfiles profile rateData later hcurrent hdata
    unfold isSubscriptionValid
    rw [hcurrent]
    dsimp only
    rw [hdata, hfee]
    split
    · rfl
    · exact decide_eq_false (not_not.2 hpos)

/-- **The fee is a fraction of the rate exactly before the last day of the month**, in years of four digits. -/
theorem prorated_iff (now : Time) {rate startTime : ℚ} (hrate : 0 < rate) (hs : startOfMonth now < startTime) :
    Prorated rate startTime now ↔ yearOf now ≤ 9999 ∧ startTime < startOfLastDay now := by
  constructor
  · rintro ⟨fee, hfee, hpos, -⟩
    by_cases hy : yearOf now ≤ 9999
    · refine ⟨hy, ?_⟩
      rw [minimumRequiredFee_eq hy hs, Option.some.injEq] at hfee
      rw [← hfee] at hpos
      by_contra hlate
      have hlength : (0 : ℚ) ≤ startOfLastDay now - startOfMonth now := by
        have : ((startOfMonth now : ℤ) : ℚ) < (startOfLastDay now : ℤ) := by exact_mod_cast startOfMonth_lt now
        linarith
      have hneg : (startOfLastDay now - startTime) / (startOfLastDay now - startOfMonth now) ≤ 0 :=
        div_nonpos_of_nonpos_of_nonneg (by linarith) hlength
      exact absurd hpos (not_lt.2 (mul_nonpos_of_nonneg_of_nonpos hrate.le hneg))
    · rw [minimumRequiredFee_of_long_year (not_le.1 hy) hs] at hfee
      cases hfee
  · rintro ⟨hy, hlast⟩
    exact prorated_of_pos hy hrate hs hlast

/-- Noon of 2018-05-31. -/
def lastNoon : Time := ⟨1527768000000, by decide⟩

theorem startOfMonth_lastNoon : yearOf lastNoon = 2018 ∧ startOfMonth lastNoon = 1525132800000 ∧
    startOfLastDay lastNoon = 1527724800000 := by
  decide +kernel

theorem prorated_midMonth : Prorated 1000 1526342400000 lastNoon := by
  obtain ⟨hyear, hmonth, hlast⟩ := startOfMonth_lastNoon
  refine (prorated_iff lastNoon (by norm_num) ?_).2 ⟨?_, ?_⟩
  · rw [hmonth]
    norm_num
  · omega
  · rw [hlast]
    norm_num

/-- **On the last day a subscription without tokens is valid.** -/
theorem valid_without_tokens : startOfMonth lastNoon < (1527746400000 : ℚ) ∧ (1527746400000 : ℚ) < lastNoon.1 ∧
    isSubscriptionValid (fun _ => some [{ expiresAt := none, rate := 1000 }])
      { profile := [], startTime := 1527746400000, tokens := 0 } lastNoon lastNoon = true ∧
    ¬ Prorated 1000 1527746400000 lastNoon := by
  obtain ⟨-, hmonth, -⟩ := startOfMonth_lastNoon
  have hvalid : isSubscriptionValid (fun _ => some [{ expiresAt := none, rate := 1000 }])
      { profile := [], startTime := 1527746400000, tokens := 0 } lastNoon lastNoon = true := by
    decide +kernel
  refine ⟨?_, ?_, hvalid, ?_⟩
  · rw [hmonth]
    norm_num
  · norm_num [lastNoon]
  · rintro ⟨-, -, -, -, -, hinvalid⟩
    have := hinvalid (fun _ => some [{ expiresAt := none, rate := 1000 }]) [] _ lastNoon rfl rfl
    rw [hvalid] at this
    cases this

end SubscriptionManager
end Orbs
