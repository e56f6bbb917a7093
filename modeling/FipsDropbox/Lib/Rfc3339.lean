import Mathlib.Tactic.Ring
import FipsDropbox.Lib.Strings
import FipsDropbox.Lib.Time

/-!
# RFC 3339

`format` spells the years 0 to 9999, with as many digits of a second as it takes
and `Z` for UTC. `parse` also takes any one-byte separator between date and time,
a fraction of any length, and a leap second, for which the nanosecond before
stands in. What is written is read back.
-/
namespace FipsDropbox.Rfc3339
open Utf8

def digits : ℕ → ℕ → Text
  | 0, _ => []
  | w + 1, n => hexDigit (n / 10 ^ w % 10) :: digits w n

def takeDigitsFrom (acc : ℕ) : ℕ → Text → Option (ℕ × Text)
  | 0, t => some (acc, t)
  | _ + 1, [] => none
  | w + 1, c :: t => if isDigit c then takeDigitsFrom (acc * 10 + digitValue c) w t else none

/-- Exactly `w` digits. -/
def takeDigits (w : ℕ) (t : Text) : Option (ℕ × Text) := takeDigitsFrom 0 w t

theorem takeDigitsFrom_digits (acc w n : ℕ) (r : Text) :
    takeDigitsFrom acc w (digits w n ++ r) = some (acc * 10 ^ w + n % 10 ^ w, r) := by
  induction w generalizing acc with
  | zero => simp [takeDigitsFrom, digits, Nat.mod_one]
  | succ w ih =>
      obtain ⟨hd, hv⟩ := hexDigit_digit (n / 10 ^ w % 10) (by omega)
      simp only [digits, List.cons_append, takeDigitsFrom, hd, hv, if_true, ih]
      rw [Nat.mod_pow_succ, pow_succ]
      congr 2
      ring

theorem takeDigits_digits {w n : ℕ} (h : n < 10 ^ w) (r : Text) :
    takeDigits w (digits w n ++ r) = some (n, r) := by
  rw [takeDigits, takeDigitsFrom_digits, Nat.mod_eq_of_lt h, Nat.zero_mul, Nat.zero_add]

theorem digits_isDigit (w n : ℕ) : ∀ c ∈ digits w n, isDigit c = true := by
  induction w with
  | zero => simp [digits]
  | succ w ih =>
      intro c hc
      rcases List.mem_cons.mp hc with rfl | hc
      · exact (hexDigit_digit _ (Nat.mod_lt _ (by omega))).1
      · exact ih c hc

@[simp] theorem digits_length (w n : ℕ) : (digits w n).length = w := by
  induction w with
  | zero => rfl
  | succ w ih => simp [digits, ih]

theorem foldl_digits (acc w n : ℕ) :
    (digits w n).foldl (fun m c => m * 10 + digitValue c) acc = acc * 10 ^ w + n % 10 ^ w := by
  induction w generalizing acc with
  | zero => simp [digits, Nat.mod_one]
  | succ w ih =>
      have hv := (hexDigit_digit (n / 10 ^ w % 10) (by omega)).2
      simp only [digits, List.foldl_cons, hv, ih]
      rw [Nat.mod_pow_succ, pow_succ]
      ring

theorem valueOf_digits {w n : ℕ} (h : n < 10 ^ w) : valueOf (digits w n) = n := by
  rw [valueOf, foldl_digits, Nat.mod_eq_of_lt h, Nat.zero_mul, Nat.zero_add]

def expect (c : Char) : Text → Option Text
  | [] => none
  | d :: t => if d = c then some t else none

@[simp] theorem expect_cons (c : Char) (t : Text) : expect c (c :: t) = some t := if_pos rfl

def formatDate (d : Date) : Text :=
  digits 4 d.year.toNat ++ '-' :: (digits 2 d.month ++ '-' :: digits 2 d.day)

def parseDate (t : Text) : Option (Date × Text) := do
  let (year, t) ← takeDigits 4 t
  let t ← expect '-' t
  let (month, t) ← takeDigits 2 t
  let t ← expect '-' t
  let (day, t) ← takeDigits 2 t
  some (⟨year, month, day⟩, t)

theorem daysInMonth_le (leap : Bool) (month : ℕ) : daysInMonth leap month ≤ 31 := by
  unfold daysInMonth
  split_ifs <;> omega

theorem parseDate_formatDate {d : Date} (hv : d.Valid) (hy : 0 ≤ d.year ∧ d.year < 10000) (r : Text) :
    parseDate (formatDate d ++ r) = some (d, r) := by
  obtain ⟨-, hm, -, hd⟩ := hv
  have hday := hd.trans (daysInMonth_le _ _)
  have hyear : ((d.year.toNat : ℕ) : ℤ) = d.year := Int.toNat_of_nonneg hy.1
  simp only [formatDate, List.append_assoc, List.cons_append, parseDate,
    takeDigits_digits (show d.year.toNat < 10 ^ 4 by omega),
    takeDigits_digits (show d.month < 10 ^ 2 by omega),
    takeDigits_digits (show d.day < 10 ^ 2 by omega), expect_cons, Option.bind_eq_bind,
    Option.bind_some, hyear]

structure Clock where
  hour : ℕ
  minute : ℕ
  second : ℕ
  nano : ℕ

def Clock.Valid (c : Clock) : Prop := c.hour < 24 ∧ c.minute < 60 ∧ c.second < 60 ∧ c.nano < 1000000000

instance (c : Clock) : Decidable c.Valid := inferInstanceAs (Decidable (_ ∧ _))

def Clock.nanos (c : Clock) : ℕ := ((c.hour * 60 + c.minute) * 60 + c.second) * 1000000000 + c.nano

def clockOf (n : ℕ) : Clock :=
  ⟨n / 1000000000 / 60 / 60, n / 1000000000 / 60 % 60, n / 1000000000 % 60, n % 1000000000⟩

theorem nanos_clockOf (n : ℕ) : (clockOf n).nanos = n := by
  simp only [clockOf, Clock.nanos]
  omega

theorem clockOf_valid {n : ℕ} (h : n < 86400 * 1000000000) : (clockOf n).Valid := by
  simp only [clockOf, Clock.Valid]
  omega

/-- The first `w` digits of a fraction, less the zeros at their end. -/
def fractionDigits : ℕ → ℕ → Text
  | 0, _ => []
  | w + 1, n => if n % 10 = 0 then fractionDigits w (n / 10) else digits (w + 1) n

def formatFraction (nano : ℕ) : Text := if nano = 0 then [] else '.' :: fractionDigits 9 nano

/-- Nanoseconds of the digits after the point; the tenth and later ones do not count. -/
def fractionValue (ds : Text) : ℕ := valueOf (ds.take 9) * 10 ^ (9 - ds.length)

def parseFraction (t : Text) : Option (ℕ × Text) :=
  match t with
  | [] => some (0, [])
  | c :: r =>
      if c = '.' then
        if (r.takeWhile isDigit).isEmpty then none
        else some (fractionValue (r.takeWhile isDigit), r.dropWhile isDigit)
      else some (0, c :: r)

theorem fractionDigits_spec {w n : ℕ} (hn : 0 < n) (h : n < 10 ^ w) :
    ∃ v m, fractionDigits w n = digits v m ∧ m < 10 ^ v ∧ 0 < v ∧ v ≤ w ∧ m * 10 ^ (w - v) = n := by
  induction w generalizing n with
  | zero =>
      rw [pow_zero] at h
      omega
  | succ w ih =>
      by_cases hz : n % 10 = 0
      · rw [pow_succ] at h
        obtain ⟨v, m, hd, hm, hv, hw, hmul⟩ := ih (n := n / 10) (by omega) (by omega)
        refine ⟨v, m, ?_, hm, hv, by omega, ?_⟩
        · rw [fractionDigits, if_pos hz, hd]
        · rw [Nat.succ_sub hw, pow_succ, ← Nat.mul_assoc, hmul]
          omega
      · exact ⟨w + 1, n, by rw [fractionDigits, if_neg hz], h, by omega, le_rfl, by simp⟩

/-- What may follow a time: the fraction ends there. -/
def EndsClock (r : Text) : Prop := ∀ c ∈ r.head?, isDigit c = false ∧ c ≠ '.'

theorem parseFraction_formatFraction {nano : ℕ} (h : nano < 10 ^ 9) {r : Text} (hr : EndsClock r) :
    parseFraction (formatFraction nano ++ r) = some (nano, r) := by
  unfold formatFraction
  split_ifs with hz
  · subst hz
    cases r with
    | nil => rfl
    | cons c r =>
        rw [List.nil_append, parseFraction, if_neg (hr c rfl).2]
  · obtain ⟨v, m, hd, hm, hv, hw, hmul⟩ := fractionDigits_spec (Nat.pos_of_ne_zero hz) h
    have hrest : r.takeWhile isDigit = [] ∧ r.dropWhile isDigit = r := by
      cases r with
      | nil => simp
      | cons c r => simp [(hr c rfl).1]
    have htake : (digits v m ++ r).takeWhile isDigit = digits v m := by
      rw [List.takeWhile_append_of_pos (digits_isDigit v m), hrest.1, List.append_nil]
    have hdrop : (digits v m ++ r).dropWhile isDigit = r := by
      rw [List.dropWhile_append_of_pos (digits_isDigit v m), hrest.2]
    have hne : (digits v m).isEmpty = false := by
      rw [List.isEmpty_eq_false_iff, ← List.length_pos_iff, digits_length]
      exact hv
    have hall : (digits v m).take 9 = digits v m := List.take_of_length_le (by simpa using hw)
    simp only [List.cons_append, parseFraction, if_true, hd, htake, hdrop, hne, Bool.false_eq_true,
      if_false, fractionValue, hall, valueOf_digits hm, digits_length, hmul]

def formatClock (c : Clock) : Text :=
  digits 2 c.hour ++ ':' :: (digits 2 c.minute ++ ':' :: (digits 2 c.second ++ formatFraction c.nano))

def parseClock (t : Text) : Option (Clock × Text) := do
  let (hour, t) ← takeDigits 2 t
  let t ← expect ':' t
  let (minute, t) ← takeDigits 2 t
  let t ← expect ':' t
  let (second, t) ← takeDigits 2 t
  let (nano, t) ← parseFraction t
  some (⟨hour, minute, second, nano⟩, t)

theorem parseClock_formatClock {c : Clock} (hv : c.Valid) {r : Text} (hr : EndsClock r) :
    parseClock (formatClock c ++ r) = some (c, r) := by
  obtain ⟨hh, hm, hs, hn⟩ := hv
  simp only [formatClock, List.append_assoc, List.cons_append, parseClock,
    takeDigits_digits (show c.hour < 10 ^ 2 by omega), takeDigits_digits (show c.minute < 10 ^ 2 by omega),
    takeDigits_digits (show c.second < 10 ^ 2 by omega), expect_cons,
    parseFraction_formatFraction (show c.nano < 10 ^ 9 by omega) hr, Option.bind_eq_bind, Option.bind_some]

def formatOffset (offset : ℤ) : Option Text :=
  if offset = 0 then some ['Z']
  else if 86400 ≤ offset.natAbs ∨ offset % 60 ≠ 0 then none
  else some ((if offset < 0 then '-' else '+') ::
    (digits 2 (offset.natAbs / 3600) ++ ':' :: digits 2 (offset.natAbs / 60 % 60)))

/-- The offset closes the text. -/
def parseOffset : Text → Option ℤ
  | [] => none
  | c :: t =>
      if c = 'Z' ∨ c = 'z' then if t.isEmpty then some 0 else none
      else if c = '+' ∨ c = '-' then do
        let (hour, t) ← takeDigits 2 t
        let t ← expect ':' t
        let (minute, t) ← takeDigits 2 t
        if hour ≤ 23 ∧ minute ≤ 59 ∧ t.isEmpty then
          some ((if c = '-' then -1 else 1) * (hour * 3600 + minute * 60 : ℕ))
        else none
      else none

theorem parseOffset_formatOffset {offset : ℤ} {o : Text} (h : formatOffset offset = some o) :
    parseOffset o = some offset ∧ EndsClock o := by
  unfold formatOffset at h
  split_ifs at h with hz hbad
  · obtain rfl := Option.some.inj h
    exact ⟨by rw [hz]; rfl, by simp [EndsClock, isDigit]⟩
  all_goals
    obtain rfl := Option.some.inj h
    have hh : offset.natAbs / 3600 < 10 ^ 2 := by omega
    have hm : offset.natAbs / 60 % 60 < 10 ^ 2 := by omega
    have hmin := takeDigits_digits hm []
    rw [List.append_nil] at hmin
    refine ⟨?_, by simp [EndsClock, isDigit]⟩
    simp only [parseOffset, Char.reduceEq, or_self, or_true, true_or, if_false, if_true,
      takeDigits_digits hh, hmin, expect_cons, Option.bind_eq_bind, Option.bind_some,
      List.isEmpty_nil, and_true]
    have habs : offset.natAbs / 3600 * 3600 + offset.natAbs / 60 % 60 * 60 = offset.natAbs := by omega
    rw [if_pos (by omega), habs]
    congr 1
    omega

def separator : Text → Option Text
  | [] => none
  | c :: t => if c.toNat < 0x80 then some t else none

/-- The day and the time of day of an instant, in its own offset. -/
def dateOf (t : OffsetDateTime) : Date := dateOfDays (t.local_ / nanosPerDay)
def clock (t : OffsetDateTime) : Clock := clockOf (t.local_ % nanosPerDay).toNat

def format (t : OffsetDateTime) : Option Text :=
  if 0 ≤ (dateOf t).year ∧ (dateOf t).year < 10000 then
    (formatOffset t.offset).map fun o => formatDate (dateOf t) ++ 'T' :: (formatClock (clock t) ++ o)
  else none

/-- The last nanosecond of a month in UTC. -/
def isLeapSecondStandIn (t : OffsetDateTime) : Bool :=
  let d := dateOfDays (t.nanos / nanosPerDay)
  t.nanos % nanosPerDay = nanosPerDay - 1 && d.day = daysInMonth (isLeap d.year) d.month

def assemble (date : Date) (clock : Clock) (offset : ℤ) : Option OffsetDateTime :=
  if date.Valid ∧ clock.Valid then
    OffsetDateTime.mk? (daysOfDate date * nanosPerDay + clock.nanos - offset * nanosPerSecond) offset
  else none

def parse (t : Text) : Option OffsetDateTime := do
  let (date, t) ← parseDate t
  let t ← separator t
  let (clock, t) ← parseClock t
  let offset ← parseOffset t
  if clock.second = 60 then do
    let dt ← assemble date { clock with second := 59, nano := 999999999 } offset
    if isLeapSecondStandIn dt then some dt else none
  else assemble date clock offset

theorem dayNanos_bounds (n : ℤ) : 0 ≤ n % nanosPerDay ∧ n % nanosPerDay < 86400 * 1000000000 := by
  simp only [nanosPerDay]
  omega

theorem clock_valid (t : OffsetDateTime) : (clock t).Valid := by
  have hb := dayNanos_bounds t.local_
  exact clockOf_valid (by omega)

theorem assemble_parts (t : OffsetDateTime) : assemble (dateOf t) (clock t) t.offset = some t := by
  have hb := dayNanos_bounds t.local_
  have hsum : t.local_ / nanosPerDay * nanosPerDay + (t.local_ % nanosPerDay).toNat -
      t.offset * nanosPerSecond = t.nanos := by
    rw [Int.toNat_of_nonneg hb.1, Int.ediv_mul_add_emod, OffsetDateTime.local_, Int.add_sub_cancel]
  rw [assemble, if_pos ⟨dateOfDays_valid _, clock_valid t⟩, clock, nanos_clockOf, dateOf,
    daysOfDate_dateOfDays, hsum, OffsetDateTime.mk?_self]

theorem parse_format {t : OffsetDateTime} {s : Text} (h : format t = some s) : parse s = some t := by
  unfold format at h
  split_ifs at h with hy
  obtain ⟨o, ho, rfl⟩ := Option.map_eq_some_iff.mp h
  obtain ⟨hoff, hends⟩ := parseOffset_formatOffset ho
  have hsec : (clock t).second ≠ 60 := ne_of_lt (clock_valid t).2.2.1
  have hsep (r : Text) : separator ('T' :: r) = some r := rfl
  have hdate (r : Text) := parseDate_formatDate (d := dateOf t) (dateOfDays_valid _) hy r
  simp only [parse, hdate, hsep,
    parseClock_formatClock (clock_valid t) hends, hoff, Option.bind_eq_bind, Option.bind_some,
    if_neg hsec]
  exact assemble_parts t

/-- Every instant of the years 0 to 9999 in UTC has a spelling. -/
theorem format_utc {t : OffsetDateTime} (h : t.offset = 0)
    (hr : -62167219200 * nanosPerSecond ≤ t.nanos ∧ t.nanos < endLocal) : (format t).isSome = true := by
  have hl : t.local_ = t.nanos := by simp [OffsetDateTime.local_, h]
  simp only [nanosPerSecond, endLocal] at hr
  have hlo : -719528 ≤ t.local_ / nanosPerDay := by
    simp only [nanosPerDay]
    omega
  have hhi : t.local_ / nanosPerDay < 2932897 := by
    simp only [nanosPerDay]
    omega
  have hy : 0 ≤ (dateOf t).year ∧ (dateOf t).year < 10000 := dateOfDays_year hlo hhi
  rw [format, if_pos hy, h]
  rfl

theorem formatOffset_parsed {t : Text} {offset : ℤ} (h : parseOffset t = some offset) :
    (formatOffset offset).isSome = true := by
  have hsome : ∀ n : ℕ, n < 1440 → ∀ sign : ℤ, sign = 1 ∨ sign = -1 →
      (formatOffset (sign * (n * 60 : ℕ))).isSome = true := by
    intro n hn sign hsign
    unfold formatOffset
    by_cases hz : sign * (n * 60 : ℕ) = 0
    · rw [if_pos hz]
      rfl
    · rw [if_neg hz, if_neg (by rcases hsign with rfl | rfl <;> omega)]
      rfl
  cases t with
  | nil => cases h
  | cons c t =>
      rw [parseOffset] at h
      by_cases hz : c = 'Z' ∨ c = 'z'
      · rw [if_pos hz] at h
        split_ifs at h
        obtain rfl := Option.some.inj h
        rfl
      · rw [if_neg hz] at h
        have hsign : (if c = '-' then (-1 : ℤ) else 1) = 1 ∨ (if c = '-' then (-1 : ℤ) else 1) = -1 := by
          split_ifs <;> simp
        generalize (if c = '-' then (-1 : ℤ) else 1) = sign at h hsign
        by_cases hc : c = '+' ∨ c = '-'
        · rw [if_pos hc] at h
          simp only [Option.bind_eq_bind, Option.bind_eq_some_iff] at h
          obtain ⟨⟨hour, t1⟩, -, t2, -, ⟨minute, t3⟩, -, h⟩ := h
          split_ifs at h with hb
          obtain rfl := Option.some.inj h
          rw [show hour * 3600 + minute * 60 = (hour * 60 + minute) * 60 by ring]
          exact hsome _ (by omega) sign hsign
        · rw [if_neg hc] at h
          cases h

/-- Years are counted from 0 on. -/
theorem daysOfDate_ge {d : Date} (hv : d.Valid) (hy : 0 ≤ d.year) : -719528 ≤ daysOfDate d := by
  obtain ⟨hm, -, hd, -⟩ := hv
  by_cases hcarry : d.month ≤ 2
  · have hc : carry d.month = 1 := if_pos hcarry
    by_cases h0 : d.year = 0
    · have hmarch : (d.month + 9) % 12 = 10 ∨ (d.month + 9) % 12 = 11 := by omega
      simp only [daysOfDate, hc, h0, yearStart, marchStart]
      rcases hmarch with h | h <;> rw [h] <;> omega
    · simp only [daysOfDate, hc]
      omega
  · have hc : carry d.month = 0 := if_neg hcarry
    simp only [daysOfDate, hc]
    omega

theorem format_assembled {date : Date} {clock : Clock} {offset : ℤ} {t : OffsetDateTime}
    (h : assemble date clock offset = some t) (hy : 0 ≤ date.year)
    (hoffset : (formatOffset offset).isSome = true) : (format t).isSome = true := by
  unfold assemble at h
  split_ifs at h with hv
  obtain ⟨hnanos, rfl⟩ := OffsetDateTime.mk?_some h
  have hdays := daysOfDate_ge hv.1 hy
  have hlocal : t.local_ = daysOfDate date * nanosPerDay + clock.nanos := by
    rw [OffsetDateTime.local_, hnanos, Int.sub_add_cancel]
  have hrange : t.local_ < endLocal := t.inRange.2
  have hlo : -719528 ≤ t.local_ / nanosPerDay := by
    simp only [nanosPerDay] at hlocal ⊢
    omega
  have hhi : t.local_ / nanosPerDay < 2932897 := by
    simp only [nanosPerDay, endLocal] at hrange ⊢
    omega
  have hyear : 0 ≤ (dateOf t).year ∧ (dateOf t).year < 10000 := dateOfDays_year hlo hhi
  rw [format, if_pos hyear, Option.isSome_map, hoffset]

/-- A timestamp that was read can be written. -/
theorem format_parsed {s : Text} {t : OffsetDateTime} (h : parse s = some t) : (format t).isSome = true := by
  simp only [parse, parseDate, Option.bind_eq_bind, Option.bind_eq_some_iff, Option.some.injEq] at h
  obtain ⟨⟨date, t1⟩, ⟨⟨year, _⟩, -, _, -, ⟨month, _⟩, -, _, -, ⟨day, _⟩, -, hdate⟩, t2, -, ⟨clock, t3⟩, -,
    offset, hoffset, h⟩ := h
  obtain ⟨rfl, -⟩ := Prod.mk.inj hdate
  have hsome := formatOffset_parsed hoffset
  have hyear : (0 : ℤ) ≤ (year : ℤ) := Int.natCast_nonneg year
  split_ifs at h with hleap
  · obtain ⟨dt, hdt, h⟩ := Option.bind_eq_some_iff.mp h
    split_ifs at h
    obtain rfl := Option.some.inj h
    exact format_assembled hdt hyear hsome
  · exact format_assembled h hyear hsome

end FipsDropbox.Rfc3339
