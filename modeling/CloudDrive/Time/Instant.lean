import CloudDrive.Time.Date

/-!
# Instants

A point of time in UTC, to the nanosecond. A leap second is told by nanoseconds from `10 ^ 9` on. It
prolongs the second that it belongs to, which need not be the last of a minute.

* `compare_self`: the order is reflexive.
-/

namespace CloudDrive

/-- A point of time in UTC. -/
structure Instant where
  /-- The day. -/
  date : Date
  /-- The second of the day. -/
  second : Nat
  /-- The nanosecond of the second; from `10 ^ 9` on it lies in a leap second. -/
  nano : Nat
  second_lt : second < 86400 := by decide
  nano_lt : nano < 2000000000 := by decide
  deriving DecidableEq

namespace Instant

/-- The first instant of the year 1970. -/
def epoch : Instant := { date := .epoch, second := 0, nano := 0 }

instance : Inhabited Instant := ⟨epoch⟩

/-- The instant with these numbers, if there is one. -/
def ofParts? (date : Date) (second nano : Nat) : Option Instant :=
  if h : second < 86400 ∧ nano < 2000000000 then
    some ⟨date, second, nano, h.1, h.2⟩
  else
    none

/-- The instant that lies so many nanoseconds after the epoch. -/
def ofEpoch (nanos : Nat) : Instant :=
  let seconds := nanos / 1000000000
  { date := epoch.date.later (seconds / 86400)
    second := seconds % 86400
    nano := nanos % 1000000000
    second_lt := Nat.mod_lt _ (by decide)
    nano_lt := Nat.lt_trans (Nat.mod_lt _ (by decide)) (by decide) }

/-- The order of time. -/
protected def compare (a b : Instant) : Ordering :=
  (a.date.compare b.date).then ((compare a.second b.second).then (compare a.nano b.nano))

/-- Is `a` not later than `b`? -/
def isLE (a b : Instant) : Bool := (a.compare b).isLE

/-- The nanoseconds from `earlier` to `later`. A leap second that lies between the two counts. -/
def nanosSince (later earlier : Instant) : Int :=
  let days := later.date.dayNumber - earlier.date.dayNumber
  let seconds : Int := later.second - earlier.second
  let leap : Int :=
    if earlier.second < later.second then (if 1000000000 ≤ earlier.nano then 1 else 0)
    else if later.second < earlier.second then (if 1000000000 ≤ later.nano then -1 else 0)
    else 0
  (days * 86400 + seconds + leap) * 1000000000 + (later.nano - earlier.nano)

/-- The nanoseconds of a number of days. -/
def nanosOfDays (days : Nat) : Int := days * 86400 * 1000000000

/-! ## Lemmas -/

@[simp] theorem compare_self (a : Instant) : a.compare a = .eq := by
  simp [Instant.compare, Date.compare]

theorem ofParts?_eq_some {date : Date} {second nano : Nat} {t : Instant}
    (h : ofParts? date second nano = some t) :
    t.date = date ∧ t.second = second ∧ t.nano = nano := by
  unfold ofParts? at h
  split at h
  · cases h; exact ⟨rfl, rfl, rfl⟩
  · cases h

@[simp] theorem ofParts?_self (a : Instant) : ofParts? a.date a.second a.nano = some a := by
  exact dif_pos ⟨a.second_lt, a.nano_lt⟩

end Instant

end CloudDrive
