import Mathlib.Data.Int.Notation
import Mathlib.Tactic.IntervalCases

/-!
# Instants and the calendar

An `OffsetDateTime` is an instant in nanoseconds of the Unix epoch together with
an offset from UTC, inside the calendar years -9999 to 9999. The proleptic
Gregorian calendar is computed in cycles of 400 years that start on the first of
March.
-/
namespace FipsDropbox

def nanosPerSecond : ℤ := 1000000000
def nanosPerDay : ℤ := 86400000000000

/-- Local nanoseconds at the start of year -9999 and after the end of year 9999. -/
def minLocal : ℤ := -377705116800000000000
def endLocal : ℤ := 253402300800000000000

structure OffsetDateTime where
  nanos : ℤ
  offset : ℤ
  inRange : minLocal ≤ nanos + offset * nanosPerSecond ∧ nanos + offset * nanosPerSecond < endLocal
  deriving DecidableEq

namespace OffsetDateTime

def local_ (t : OffsetDateTime) : ℤ := t.nanos + t.offset * nanosPerSecond

/-- An instant whose local time the calendar covers. -/
def mk? (nanos offset : ℤ) : Option OffsetDateTime :=
  if h : minLocal ≤ nanos + offset * nanosPerSecond ∧ nanos + offset * nanosPerSecond < endLocal then
    some ⟨nanos, offset, h⟩
  else none

/-- `OffsetDateTime::from_unix_timestamp_nanos`. -/
def fromUnixNanos (nanos : ℤ) : Option OffsetDateTime := mk? nanos 0

def unixEpoch : OffsetDateTime := ⟨0, 0, by decide⟩

/-- `+ Duration`, undefined outside the calendar. -/
def add (t : OffsetDateTime) (nanos : ℤ) : Option OffsetDateTime := mk? (t.nanos + nanos) t.offset

theorem mk?_some {n o : ℤ} {t : OffsetDateTime} (h : mk? n o = some t) : t.nanos = n ∧ t.offset = o := by
  unfold mk? at h
  split_ifs at h
  obtain rfl := Option.some.inj h
  exact ⟨rfl, rfl⟩

theorem mk?_self (t : OffsetDateTime) : mk? t.nanos t.offset = some t := by
  rw [mk?, dif_pos t.inRange]

end OffsetDateTime

def isLeap (year : ℤ) : Bool := year % 4 = 0 && (year % 100 ≠ 0 || year % 400 = 0)

def daysInMonth (leap : Bool) (month : ℕ) : ℕ :=
  if month = 2 then (if leap then 29 else 28)
  else if month = 4 ∨ month = 6 ∨ month = 9 ∨ month = 11 then 30
  else 31

structure Date where
  year : ℤ
  month : ℕ
  day : ℕ
  deriving DecidableEq

def Date.Valid (d : Date) : Prop :=
  1 ≤ d.month ∧ d.month ≤ 12 ∧ 1 ≤ d.day ∧ d.day ≤ daysInMonth (isLeap d.year) d.month

instance (d : Date) : Decidable d.Valid := inferInstanceAs (Decidable (_ ∧ _))

/-- The day of a year that starts in March, and its year within the cycle. -/
def splitCycle (doe : ℕ) : ℕ × ℕ :=
  let century := min 3 (doe / 36524)
  let r := doe - 36524 * century
  let year := min 3 (r % 1461 / 365)
  (100 * century + 4 * (r / 1461) + year, r % 1461 - 365 * year)

/-- Days of the cycle before a March-based year. -/
def yearStart (yoe : ℕ) : ℕ := yoe * 365 + yoe / 4 - yoe / 100

/-- Months counted from March: the one that holds a day of the year, the days before
it, and its number in the calendar. -/
def marchMonth (doy : ℕ) : ℕ := (5 * doy + 2) / 153
def marchStart (mp : ℕ) : ℕ := (153 * mp + 2) / 5
def calendarMonth (mp : ℕ) : ℕ := if mp < 10 then mp + 3 else mp - 9

/-- January and February belong to the year of March before. -/
def carry (month : ℕ) : ℤ := if month ≤ 2 then 1 else 0

def dateOf (era : ℤ) (yoe doy : ℕ) : Date where
  year := era * 400 + yoe + carry (calendarMonth (marchMonth doy))
  month := calendarMonth (marchMonth doy)
  day := doy - marchStart (marchMonth doy) + 1

/-- Days since the epoch to the calendar date; 719468 days lead back to 0000-03-01. -/
def dateOfDays (days : ℤ) : Date :=
  dateOf ((days + 719468) / 146097) (splitCycle ((days + 719468) % 146097).toNat).1
    (splitCycle ((days + 719468) % 146097).toNat).2

def daysOfDate (d : Date) : ℤ :=
  (d.year - carry d.month) / 400 * 146097 +
    (yearStart ((d.year - carry d.month) % 400).toNat +
      (marchStart ((d.month + 9) % 12) + d.day - 1) : ℕ) - 719468

/-- The cycle by centuries, then by four years, then by years. The leap day closes
only those years of March that a leap year follows. -/
theorem splitCycle_spec {doe : ℕ} (h : doe < 146097) :
    ∃ century quad year doy, century ≤ 3 ∧ quad ≤ 24 ∧ year ≤ 3 ∧ doy ≤ 365 ∧
      splitCycle doe = (100 * century + 4 * quad + year, doy) ∧
      doe = 36524 * century + 1461 * quad + 365 * year + doy ∧
      (doy = 365 → year = 3 ∧ (quad = 24 → century = 3)) := by
  obtain ⟨century, hcentury⟩ : ∃ n, min 3 (doe / 36524) = n := ⟨_, rfl⟩
  obtain ⟨r, hr⟩ : ∃ n, doe - 36524 * century = n := ⟨_, rfl⟩
  have hc : century ≤ 3 ∧ doe = 36524 * century + r ∧ r ≤ 36524 ∧ (r = 36524 → century = 3) := by omega
  obtain ⟨quad, hquad⟩ : ∃ n, r / 1461 = n := ⟨_, rfl⟩
  obtain ⟨rest, hrest⟩ : ∃ n, r % 1461 = n := ⟨_, rfl⟩
  have hq : r = 1461 * quad + rest ∧ rest < 1461 := by omega
  obtain ⟨year, hyear⟩ : ∃ n, min 3 (rest / 365) = n := ⟨_, rfl⟩
  obtain ⟨doy, hdoy⟩ : ∃ n, rest - 365 * year = n := ⟨_, rfl⟩
  have hy : year ≤ 3 ∧ rest = 365 * year + doy ∧ doy ≤ 365 ∧ (doy = 365 → year = 3) := by omega
  refine ⟨century, quad, year, doy, hc.1, by omega, hy.1, hy.2.2.1, ?_, by omega, by omega⟩
  simp only [splitCycle, hcentury, hr, hquad, hrest, hyear, hdoy]

theorem splitCycle_bounds {doe : ℕ} (h : doe < 146097) :
    (splitCycle doe).1 < 400 ∧ (splitCycle doe).2 ≤ 365 ∧
      yearStart (splitCycle doe).1 + (splitCycle doe).2 = doe := by
  obtain ⟨century, quad, year, doy, hc, hq, hy, hd, he, hsum, -⟩ := splitCycle_spec h
  rw [he]
  have h4 : (100 * century + 4 * quad + year) / 4 = 25 * century + quad := by omega
  have h100 : (100 * century + 4 * quad + year) / 100 = century := by omega
  refine ⟨by dsimp only; omega, hd, ?_⟩
  simp only [yearStart, h4, h100]
  omega

theorem splitCycle_leap {doe : ℕ} (h : doe < 146097) (hd : (splitCycle doe).2 = 365) (era : ℤ) :
    isLeap (era * 400 + (splitCycle doe).1 + 1) = true := by
  obtain ⟨century, quad, year, doy, hc, hq, hy, -, he, -, hleap⟩ := splitCycle_spec h
  rw [he] at hd ⊢
  obtain ⟨rfl, hquad⟩ := hleap hd
  simp only [isLeap, Bool.and_eq_true, Bool.or_eq_true, decide_eq_true_eq]
  push_cast
  omega

theorem month_of_doy {doy : ℕ} (h : doy ≤ 365) :
    marchMonth doy ≤ 11 ∧ marchStart (marchMonth doy) ≤ doy := by
  simp only [marchMonth, marchStart]
  omega

theorem calendarMonth_back {mp : ℕ} (h : mp ≤ 11) : (calendarMonth mp + 9) % 12 = mp := by
  unfold calendarMonth
  split_ifs <;> omega

theorem month_length {doy : ℕ} (h : doy ≤ 365) {leap : Bool} (hl : doy = 365 → leap = true) :
    doy - marchStart (marchMonth doy) + 1 ≤ daysInMonth leap (calendarMonth (marchMonth doy)) := by
  obtain ⟨mp, hmp⟩ : ∃ n, marchMonth doy = n := ⟨_, rfl⟩
  have hb : 153 * mp ≤ 5 * doy + 2 ∧ 5 * doy + 2 < 153 * mp + 153 := by
    simp only [marchMonth] at hmp
    omega
  have hmp11 : mp ≤ 11 := by omega
  have hlast : mp = 11 → leap = false → doy ≤ 364 := by
    rintro - rfl
    have hne : doy ≠ 365 := fun he => by cases hl he
    omega
  rw [hmp]
  interval_cases mp <;> simp only [marchStart, daysInMonth, calendarMonth, Nat.reduceLT, Nat.reduceAdd,
    Nat.reduceSub, Nat.reduceMul, Nat.reduceDiv, Nat.reduceEqDiff, if_true, if_false, or_true, or_false]
  iterate 11 omega
  cases leap with
  | true => simp only [if_true]; omega
  | false =>
      have := hlast rfl rfl
      simp only [Bool.false_eq_true, if_false]
      omega

theorem daysOfDate_dateOf {era : ℤ} {yoe doy : ℕ} (hy : yoe < 400) (hd : doy ≤ 365) :
    daysOfDate (dateOf era yoe doy) = era * 146097 + (yearStart yoe + doy : ℕ) - 719468 := by
  obtain ⟨hmp, hle⟩ := month_of_doy hd
  have hyear : era * 400 + (yoe : ℤ) + carry (calendarMonth (marchMonth doy)) -
      carry (calendarMonth (marchMonth doy)) = era * 400 + yoe := by omega
  have hera : (era * 400 + (yoe : ℤ)) / 400 = era := by omega
  have hyoe : ((era * 400 + (yoe : ℤ)) % 400).toNat = yoe := by omega
  have hday : marchStart (marchMonth doy) + (doy - marchStart (marchMonth doy) + 1) - 1 = doy := by omega
  simp only [daysOfDate, dateOf, hyear, hera, hyoe, calendarMonth_back hmp, hday]

theorem daysOfDate_dateOfDays (days : ℤ) : daysOfDate (dateOfDays days) = days := by
  have hcyc : ((days + 719468) % 146097).toNat < 146097 := by omega
  obtain ⟨hyear, hdoy, hsum⟩ := splitCycle_bounds hcyc
  rw [dateOfDays, daysOfDate_dateOf hyear hdoy, hsum]
  omega

theorem dateOf_valid {era : ℤ} {yoe doy : ℕ} (hd : doy ≤ 365)
    (hl : doy = 365 → isLeap (era * 400 + yoe + 1) = true) : (dateOf era yoe doy).Valid := by
  obtain ⟨hmp, hle⟩ := month_of_doy hd
  have hrange : 1 ≤ calendarMonth (marchMonth doy) ∧ calendarMonth (marchMonth doy) ≤ 12 := by
    unfold calendarMonth
    split_ifs <;> omega
  refine ⟨hrange.1, hrange.2, by simp [dateOf], month_length hd ?_⟩
  intro hlast
  have hfeb : carry (calendarMonth (marchMonth doy)) = 1 := by
    subst hlast
    rfl
  simpa only [dateOf, hfeb] using hl hlast

theorem dateOfDays_valid (days : ℤ) : (dateOfDays days).Valid := by
  have hcyc : ((days + 719468) % 146097).toNat < 146097 := by omega
  exact dateOf_valid (splitCycle_bounds hcyc).2.1 fun hd => splitCycle_leap hcyc hd _

theorem carry_month {doy : ℕ} (hd : doy ≤ 365) :
    carry (calendarMonth (marchMonth doy)) = if doy < 306 then 0 else 1 := by
  by_cases h : doy < 306
  · have hm : marchMonth doy < 10 := by
      simp only [marchMonth]
      omega
    rw [if_pos h, calendarMonth, if_pos hm, carry, if_neg (by omega)]
  · have hm : 10 ≤ marchMonth doy ∧ marchMonth doy ≤ 11 := by
      simp only [marchMonth]
      omega
    rw [if_neg h, calendarMonth, if_neg (by omega), carry, if_pos (by omega)]

theorem yearStart_le {yoe : ℕ} (h : yoe < 400) : yearStart yoe ≤ 145731 := by
  have h100 : yoe / 100 = 0 ∨ yoe / 100 = 1 ∨ yoe / 100 = 2 ∨ yoe / 100 = 3 := by omega
  simp only [yearStart]
  omega

/-- The years of four digits, by their days. -/
theorem dateOfDays_year {days : ℤ} (hlo : -719528 ≤ days) (hhi : days < 2932897) :
    0 ≤ (dateOfDays days).year ∧ (dateOfDays days).year < 10000 := by
  have hcyc : ((days + 719468) % 146097).toNat < 146097 := by omega
  obtain ⟨hyear, hdoy, hsum⟩ := splitCycle_bounds hcyc
  have hmax := yearStart_le hyear
  simp only [dateOfDays, dateOf, carry_month hdoy]
  generalize (splitCycle ((days + 719468) % 146097).toNat).1 = yoe at hyear hsum hmax ⊢
  generalize (splitCycle ((days + 719468) % 146097).toNat).2 = doy at hdoy hsum ⊢
  have hera : -1 ≤ (days + 719468) / 146097 ∧ (days + 719468) / 146097 ≤ 24 := by omega
  constructor
  · split_ifs with hcarry
    · omega
    · simp only [yearStart] at hsum
      omega
  · split_ifs with hcarry
    · omega
    · simp only [yearStart] at hsum
      omega

end FipsDropbox
