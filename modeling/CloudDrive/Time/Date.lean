/-!
# Dates

Days of the Gregorian calendar, extended to all years, and the step from one day to its neighbours.

* `next_previous`, `previous_next`: the two steps undo each other.
-/

namespace CloudDrive

/-- Has the year a 29th of February? -/
def isLeapYear (year : Int) : Bool :=
  year % 4 == 0 && (year % 100 != 0 || year % 400 == 0)

/-- The number of days of a month, counted from 1 for January. -/
def daysInMonth (year : Int) (month : Nat) : Nat :=
  if month = 2 then (if isLeapYear year then 29 else 28)
  else if month = 4 ∨ month = 6 ∨ month = 9 ∨ month = 11 then 30
  else 31

/-- A day of the calendar. -/
structure Date where
  /-- The year; the year before 1 is 0. -/
  year : Int
  /-- The month, from 1 to 12. -/
  month : Nat
  /-- The day of the month, from 1. -/
  day : Nat
  one_le_month : 1 ≤ month := by decide
  month_le : month ≤ 12 := by decide
  one_le_day : 1 ≤ day := by decide
  day_le : day ≤ daysInMonth year month := by decide
  deriving DecidableEq

namespace Date

theorem daysInMonth_ge (year : Int) (month : Nat) : 28 ≤ daysInMonth year month := by
  unfold daysInMonth
  split
  · split <;> decide
  · split <;> decide

/-- The first of January 1970. -/
def epoch : Date := { year := 1970, month := 1, day := 1 }

instance : Inhabited Date := ⟨epoch⟩

/-- The day with these numbers, if the calendar has it. -/
def ofCivil? (year : Int) (month day : Nat) : Option Date :=
  if h : 1 ≤ month ∧ month ≤ 12 ∧ 1 ≤ day ∧ day ≤ daysInMonth year month then
    some ⟨year, month, day, h.1, h.2.1, h.2.2.1, h.2.2.2⟩
  else
    none

/-- The day after. -/
def next (d : Date) : Date :=
  if h : d.day < daysInMonth d.year d.month then
    ⟨d.year, d.month, d.day + 1, d.one_le_month, d.month_le, by omega, h⟩
  else if hm : d.month < 12 then
    ⟨d.year, d.month + 1, 1, by omega, by omega, by omega,
      Nat.le_trans (by decide) (daysInMonth_ge _ _)⟩
  else
    ⟨d.year + 1, 1, 1, by omega, by omega, by omega,
      Nat.le_trans (by decide) (daysInMonth_ge _ _)⟩

/-- The day before. -/
def previous (d : Date) : Date :=
  if h : 1 < d.day then
    ⟨d.year, d.month, d.day - 1, d.one_le_month, d.month_le, by omega, by have := d.day_le; omega⟩
  else if hm : 1 < d.month then
    ⟨d.year, d.month - 1, daysInMonth d.year (d.month - 1), by omega, by have := d.month_le; omega,
      Nat.le_trans (by decide) (daysInMonth_ge _ _), Nat.le_refl _⟩
  else
    ⟨d.year - 1, 12, 31, by omega, by omega, by omega, by simp [daysInMonth]⟩

/-- The day that is so many days later. -/
def later (d : Date) : Nat → Date
  | 0 => d
  | days + 1 => d.next.later days

/-- The days of the year that are over before the month begins. -/
def daysBeforeMonth (year : Int) : Nat → Nat
  | 0 => 0
  | 1 => 0
  | month + 2 => daysBeforeMonth year (month + 1) + daysInMonth year (month + 1)

/-- The place of the day in the row of all days; the last day of the year 0 has number 0. -/
def dayNumber (d : Date) : Int :=
  let past := d.year - 1
  365 * past + past / 4 - past / 100 + past / 400 + daysBeforeMonth d.year d.month + d.day

/-- The order of days. -/
protected def compare (a b : Date) : Ordering :=
  (compare a.year b.year).then ((compare a.month b.month).then (compare a.day b.day))

/-! ## Lemmas -/

@[simp] theorem ofCivil?_self (d : Date) : ofCivil? d.year d.month d.day = some d := by
  simp [ofCivil?, d.one_le_month, d.month_le, d.one_le_day, d.day_le]

theorem ofCivil?_eq_some {year : Int} {month day : Nat} {d : Date}
    (h : ofCivil? year month day = some d) : d.year = year ∧ d.month = month ∧ d.day = day := by
  unfold ofCivil? at h
  split at h
  · cases h; exact ⟨rfl, rfl, rfl⟩
  · cases h

theorem ext {a b : Date} (hy : a.year = b.year) (hm : a.month = b.month) (hd : a.day = b.day) :
    a = b := by
  cases a; cases b; cases hy; cases hm; cases hd; rfl

theorem daysInMonth_december (year : Int) : daysInMonth year 12 = 31 := by simp [daysInMonth]

/-- The day before the day after is the day itself. -/
theorem previous_next (d : Date) : d.next.previous = d := by
  have hm1 := d.one_le_month
  have hm2 := d.month_le
  have hd1 := d.one_le_day
  have hd2 := d.day_le
  unfold next
  split
  · next h =>
    apply ext <;> simp [previous, show 1 < d.day + 1 by omega]
  · next h =>
    split
    · next hm =>
      apply ext
      · simp [previous, show 1 < d.month + 1 by omega]
      · simp [previous, show 1 < d.month + 1 by omega]
      · simp [previous, show 1 < d.month + 1 by omega]
        omega
    · next hm =>
      have hdec : d.month = 12 := by omega
      have hday : d.day = 31 := by
        rw [hdec, daysInMonth_december] at h hd2
        omega
      apply ext <;> simp [previous, hdec, hday]

/-- The day after the day before is the day itself. -/
theorem next_previous (d : Date) : d.previous.next = d := by
  have hm1 := d.one_le_month
  have hm2 := d.month_le
  have hd1 := d.one_le_day
  have hd2 := d.day_le
  unfold previous
  split
  · next h =>
    apply ext <;> simp [next, show d.day - 1 < daysInMonth d.year d.month by omega]
    omega
  · next h =>
    have hday : d.day = 1 := by omega
    split
    · next hm =>
      apply ext <;> simp [next, show d.month - 1 < 12 by omega, hday]
      omega
    · next hm =>
      apply ext <;> simp [next, daysInMonth_december, hday]
      omega

end Date

end CloudDrive
