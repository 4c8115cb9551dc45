import CloudDrive.Time.Rfc3339
import Mathlib.Algebra.Group.Nat.Defs
import Mathlib.Data.List.TakeWhile

/-!
# Times are read as they are written

Every part of a time is written with a fixed number of digits, so that each is read to its end and
no further.

* `scanNumber_padded`, `scanFraction_fractionChars`: numbers with zeros in front, and fractions.
* `told`: what the written form tells of a leap second inside a minute, which it has no words for.
* `parse?_text`: a time of the years 0 to 9999 is read as its written form tells it.
* `leapsAtEnd_of_parse?`: of what is read, nothing is told otherwise when it is written again.
-/

namespace CloudDrive.Instant

open Text (isWhiteSpace)

/-! ## Numbers with zeros in front -/

theorem ofDigitChars_padded (width n : Nat) : Nat.ofDigitChars 10 (padded width n) 0 = n := by
  rw [padded, Nat.ofDigitChars_append, Nat.ofDigitChars_replicate_zero, Nat.mul_zero,
    Nat.ofDigitChars_ten_toDigits]

theorem isDigit_of_mem_padded {width n : Nat} : ∀ c ∈ padded width n, c.isDigit = true := by
  intro c hc
  rcases List.mem_append.1 hc with hc | hc
  · rw [(List.mem_replicate.1 hc).2]
    rfl
  · exact Nat.isDigit_of_mem_toDigits (by decide) (by decide) hc

theorem length_padded {width n : Nat} (hpos : 0 < width) (h : n < 10 ^ width) :
    (padded width n).length = width := by
  have hlen : (Nat.toDigits 10 n).length ≤ width := (Nat.length_toDigits_le_iff (by decide) hpos).2 h
  rw [padded, List.length_append, List.length_replicate]
  omega

theorem toNat_of_isDigit {c : Char} (h : c.isDigit = true) : 48 ≤ c.toNat ∧ c.toNat ≤ 57 := by
  simpa [Char.isDigit, UInt32.le_iff_toNat_le] using h

theorem isWhiteSpace_of_isDigit {c : Char} (h : c.isDigit = true) : isWhiteSpace c = false := by
  have hbounds := toNat_of_isDigit h
  simp [isWhiteSpace]
  omega

section
variable {width n : Nat}

theorem padded_eq_cons (hpos : 0 < width) (h : n < 10 ^ width) :
    ∃ c cs, padded width n = c :: cs ∧ c.isDigit = true := by
  have hlen := length_padded hpos h
  rcases hp : padded width n with _ | ⟨c, cs⟩
  · rw [hp, List.length_nil] at hlen
    omega
  · exact ⟨c, cs, rfl, isDigit_of_mem_padded c (hp ▸ List.mem_cons_self)⟩

theorem skipSpace_padded (hpos : 0 < width) (h : n < 10 ^ width) (rest : List Char) :
    skipSpace (padded width n ++ rest) = padded width n ++ rest := by
  obtain ⟨c, cs, hcons, hc⟩ := padded_eq_cons hpos h
  rw [hcons, List.cons_append, skipSpace,
    List.dropWhile_cons_of_neg (by simp [isWhiteSpace_of_isDigit hc])]

theorem scanNumber_padded (hpos : 0 < width) (h : n < 10 ^ width) (rest : List Char) :
    scanNumber width (padded width n ++ rest) = some (n, rest) := by
  obtain ⟨c, cs, hcons, -⟩ := padded_eq_cons hpos h
  have htake : ((padded width n ++ rest).take width).takeWhile Char.isDigit = padded width n := by
    rw [List.take_left' (length_padded hpos h)]
    exact List.takeWhile_eq_self_iff.2 isDigit_of_mem_padded
  simp only [scanNumber, htake, ofDigitChars_padded, List.drop_left]
  rw [hcons]
  rfl

end

theorem scanTwo_padded {n : Nat} (h : n < 100) (rest : List Char) :
    scanTwo (padded 2 n ++ rest) = some (n, rest) := by
  rw [scanTwo, skipSpace_padded (by decide) h, scanNumber_padded (by decide) h]

theorem scanMark_cons {c : Char} (hc : isWhiteSpace c = false) (rest : List Char) :
    scanMark c (c :: rest) = some rest := by
  simp [scanMark, skipSpace, hc]

theorem scanYear_yearChars {year : Int} (hpos : 0 ≤ year) (hle : year ≤ 9999) (rest : List Char) :
    scanYear (yearChars year ++ rest) = some (year, rest) := by
  have hlt : year.toNat < 10 ^ 4 := by omega
  obtain ⟨c, cs, hcons, hc⟩ := padded_eq_cons (by decide) hlt
  have hscan := scanNumber_padded (by decide) hlt rest
  rw [yearChars, if_pos ⟨hpos, hle⟩, scanYear, skipSpace_padded (by decide) hlt]
  rw [hcons, List.cons_append] at hscan ⊢
  split
  · next he =>
    rw [(List.cons.inj he).1] at hc
    cases hc
  · next he =>
    rw [(List.cons.inj he).1] at hc
    cases hc
  · rw [hscan]
    exact congrArg (fun n => some (n, rest)) (Int.toNat_of_nonneg hpos)

/-! ## Fractions -/

/-- Of a fraction with fewer than nine digits the missing ones are zeros. -/
theorem scanFraction_padded {width n : Nat} {rest : List Char} (hpos : 0 < width) (hle : width ≤ 9)
    (h : n < 10 ^ width) (hrest : ∀ c ∈ rest.head?, c.isDigit = false) :
    scanFraction ('.' :: (padded width n ++ rest)) = some (n * 10 ^ (9 - width), rest) := by
  have hlen := length_padded hpos h
  have htake : (padded width n ++ rest).takeWhile Char.isDigit = padded width n := by
    rw [List.takeWhile_append_of_pos isDigit_of_mem_padded]
    cases rest with
    | nil => simp
    | cons c rest => simp [hrest c rfl]
  have hkept : (padded width n).take 9 = padded width n := List.take_of_length_le (by omega)
  have hvalue : Nat.ofDigitChars 10 (padded width n ++ List.replicate (9 - width) '0') 0 =
      n * 10 ^ (9 - width) := by
    rw [Nat.ofDigitChars_append, ofDigitChars_padded, Nat.ofDigitChars_replicate_zero, Nat.mul_comm]
  have hne : (padded width n).isEmpty = false := by
    obtain ⟨c, cs, hcons, -⟩ := padded_eq_cons hpos h
    rw [hcons]
    rfl
  simp only [scanFraction, htake, hkept, hlen, hvalue, hne, List.drop_left' hlen]
  rfl

theorem scanFraction_fractionChars {nano : Nat} {rest : List Char} (h : nano < 1000000000)
    (hrest : ∀ c ∈ rest.head?, c.isDigit = false ∧ c ≠ '.') :
    scanFraction (fractionChars nano ++ rest) = some (nano, rest) := by
  have hdigit : ∀ c ∈ rest.head?, c.isDigit = false := fun c hc => (hrest c hc).1
  unfold fractionChars
  split
  · next hzero =>
    rcases rest with _ | ⟨c, rest⟩
    · simp [scanFraction, hzero]
    · rw [List.nil_append, scanFraction.eq_2 _ fun _ he => (hrest c rfl).2 (List.cons.inj he).1,
        hzero]
  split
  · rw [List.cons_append, scanFraction_padded (by decide) (by decide) (by omega) hdigit]
    exact congrArg (fun n => some (n, rest)) (by omega)
  split
  · rw [List.cons_append, scanFraction_padded (by decide) (by decide) (by omega) hdigit]
    exact congrArg (fun n => some (n, rest)) (by omega)
  · rw [List.cons_append, scanFraction_padded (by decide) (by decide) (by omega) hdigit]
    exact congrArg (fun n => some (n, rest)) (by omega)

/-! ## Days and times -/

theorem scanDate_dateChars {d : Date} (hpos : 0 ≤ d.year) (hle : d.year ≤ 9999)
    (rest : List Char) : scanDate (dateChars d ++ rest) = some (d, rest) := by
  have hmonth : d.month < 100 := by have := d.month_le; omega
  have hday : d.day < 100 := by
    have := d.day_le
    have : daysInMonth d.year d.month ≤ 31 := by unfold daysInMonth; split_ifs <;> decide
    omega
  have hmark : ∀ rest, scanMark '-' ('-' :: rest) = some rest := scanMark_cons (by decide)
  simp [scanDate, dateChars, scanYear_yearChars hpos hle, hmark, scanTwo_padded hmonth,
    scanTwo_padded hday]

/-! ## Leap seconds -/

/-- No leap second but at the end of a minute. -/
def LeapsAtEnd (t : Instant) : Prop := 1000000000 ≤ t.nano → t.second % 60 = 59

instance (t : Instant) : Decidable t.LeapsAtEnd := inferInstanceAs (Decidable (_ → _))

/-- The instant that the written form tells. A leap second inside a minute is written like the second
after it. -/
def told (t : Instant) : Instant :=
  if h : 1000000000 ≤ t.nano ∧ t.second % 60 ≠ 59 then
    { t with
      second := t.second + 1
      nano := t.nano - 1000000000
      second_lt := by have := t.second_lt; omega
      nano_lt := by have := t.nano_lt; omega }
  else
    t

@[simp] theorem told_date (t : Instant) : t.told.date = t.date := by
  unfold told
  split <;> rfl

theorem told_of_leapsAtEnd {t : Instant} (h : t.LeapsAtEnd) : t.told = t :=
  dif_neg fun hin => hin.2 (h hin.1)

theorem told_eq_self_iff {t : Instant} : t.told = t ↔ t.LeapsAtEnd := by
  refine ⟨fun h hleap => ?_, told_of_leapsAtEnd⟩
  by_contra hin
  have hsecond := congrArg Instant.second h
  rw [told, dif_pos ⟨hleap, hin⟩] at hsecond
  exact Nat.succ_ne_self _ hsecond

/-- A time of day is read as the written form tells it. -/
theorem scanTime_chars (t : Instant) {rest : List Char}
    (hrest : ∀ c ∈ rest.head?, c.isDigit = false ∧ c ≠ '.') :
    scanTime (padded 2 (t.second / 3600) ++ ':' :: (padded 2 (t.second / 60 % 60) ++
      ':' :: (padded 2 t.secondOfMinute ++ (fractionChars (t.nano % 1000000000) ++ rest)))) =
      some ((t.told.second, t.told.nano), rest) := by
  have hlt := t.second_lt
  have hnano := t.nano_lt
  have hmark : ∀ rest, scanMark ':' (':' :: rest) = some rest := scanMark_cons (by decide)
  have hsecond : t.secondOfMinute < 100 := by unfold secondOfMinute; omega
  have hbounds : t.second / 3600 < 24 ∧ t.second / 60 % 60 < 60 ∧ t.secondOfMinute ≤ 60 := by
    unfold secondOfMinute
    omega
  have hfraction := scanFraction_fractionChars (Nat.mod_lt t.nano (by decide)) hrest
  simp only [scanTime, scanTwo_padded (show t.second / 3600 < 100 by omega), hmark,
    scanTwo_padded (show t.second / 60 % 60 < 100 by omega), scanTwo_padded hsecond, hfraction,
    Option.bind_eq_bind, Option.bind_some, if_pos hbounds]
  -- Only the last second of a minute is prolonged by what is read.
  unfold told secondOfMinute
  split
  · next hsixty =>
    rw [dif_neg (by omega)]
    exact congrArg some (Prod.ext (Prod.ext (by simp only; omega) (by simp only; omega)) rfl)
  · next hsixty =>
    split
    · exact congrArg some (Prod.ext (Prod.ext (by simp only; omega) (by simp only; omega)) rfl)
    · exact congrArg some (Prod.ext (Prod.ext (by simp only; omega) (by simp only; omega)) rfl)

theorem ofLocal?_self (t : Instant) : ofLocal? t.date t.second t.nano 0 = some t := by
  have hlt := t.second_lt
  simp only [ofLocal?, Int.sub_zero]
  rw [if_neg (by decide), if_neg (by omega), if_neg (by omega), Int.toNat_natCast, ofParts?_self]

/-- **A time of the years 0 to 9999 is read as its written form tells it.** -/
theorem parse?_text {t : Instant} (hpos : 0 ≤ t.date.year) (hle : t.date.year ≤ 9999) :
    parse? t.text = some t.told := by
  have hyear : isKnownYear t.date.year = true := by
    simp only [isKnownYear, Bool.and_eq_true, decide_eq_true_eq]
    omega
  have htime := @scanTime_chars t ['Z'] (by simp)
  have hoffset : scanOffset (skipSpace ['Z']) = some (0, []) := by decide
  have hlocal := ofLocal?_self t.told
  rw [told_date] at hlocal
  simp only [parse?, text, chars, String.toList_ofList, List.append_assoc, List.cons_append,
    scanDate_dateChars hpos hle, Option.bind_eq_bind, Option.bind_some, htime, hoffset,
    hlocal, told_date, hyear]
  rfl

/-! ## What is read has no leap second inside a minute -/

theorem ofDigitChars_lt {digits : List Char} (h : ∀ c ∈ digits, c.isDigit = true) :
    Nat.ofDigitChars 10 digits 0 < 10 ^ digits.length := by
  induction digits with
  | nil => simp
  | cons c digits ih =>
    have hrest := ih fun d hd => h d (List.mem_cons_of_mem _ hd)
    have hc : c.toNat - '0'.toNat ≤ 9 := by
      have hbounds := toNat_of_isDigit (h c List.mem_cons_self)
      have hzero : '0'.toNat = 48 := rfl
      omega
    have hhead := Nat.mul_le_mul_left (10 ^ digits.length) hc
    rw [Nat.ofDigitChars_cons, Nat.ofDigitChars_eq_ofDigitChars_zero, List.length_cons,
      Nat.pow_succ, Nat.mul_zero, Nat.zero_add]
    omega

theorem scanFraction_lt {cs rest : List Char} {nano : Nat}
    (h : scanFraction cs = some (nano, rest)) : nano < 1000000000 := by
  unfold scanFraction at h
  split at h
  · next tail =>
    simp only at h
    split at h
    · cases h
    · cases h
      let kept := (tail.takeWhile Char.isDigit).take 9
      have hkept : kept.length ≤ 9 := List.length_take_le _ _
      have hdigits : ∀ c ∈ kept ++ List.replicate (9 - kept.length) '0', c.isDigit = true := by
        intro c hc
        rcases List.mem_append.1 hc with hc | hc
        · exact List.all_eq_true.1 List.all_takeWhile c (List.mem_of_mem_take hc)
        · rw [(List.mem_replicate.1 hc).2]
          rfl
      have hlength : (kept ++ List.replicate (9 - kept.length) '0').length = 9 := by
        rw [List.length_append, List.length_replicate]
        omega
      exact Nat.lt_of_lt_of_eq (ofDigitChars_lt hdigits) (congrArg (10 ^ ·) hlength)
  · cases h
    decide

theorem second_of_scanTime {cs rest : List Char} {second nano : Nat}
    (h : scanTime cs = some ((second, nano), rest)) (hleap : 1000000000 ≤ nano) :
    second % 60 = 59 := by
  simp only [scanTime, Option.bind_eq_bind, Option.bind_eq_some_iff] at h
  obtain ⟨⟨hour, _⟩, -, _, -, ⟨minute, _⟩, -, _, -, ⟨s, _⟩, -, ⟨n, _⟩, hn, h⟩ := h
  have hlt := scanFraction_lt hn
  simp only at h
  split at h
  · split at h
    · cases h
      omega
    · cases h
      omega
  · cases h

theorem scanHoursMinutes_mod {cs rest : List Char} {offset : Nat}
    (h : scanHoursMinutes cs = some (offset, rest)) : offset % 60 = 0 := by
  simp only [scanHoursMinutes, Option.bind_eq_bind, Option.bind_eq_some_iff] at h
  obtain ⟨⟨hours, _⟩, -, ⟨minutes, _⟩, -, h⟩ := h
  cases h
  omega

theorem scanOffset_mod {cs rest : List Char} {offset : Int}
    (h : scanOffset cs = some (offset, rest)) : offset % 60 = 0 := by
  unfold scanOffset at h
  split at h
  · cases h
  · split_ifs at h
    · cases h
      rfl
    · cases h
      rfl
    · obtain ⟨⟨n, _⟩, hn, h⟩ := Option.map_eq_some_iff.1 h
      have := scanHoursMinutes_mod hn
      cases h
      omega
    · obtain ⟨⟨n, _⟩, hn, h⟩ := Option.map_eq_some_iff.1 h
      have := scanHoursMinutes_mod hn
      cases h
      omega

/-- Clocks that differ by whole minutes show the same second of the minute. -/
theorem ofLocal?_leapsAtEnd {date : Date} {second nano : Nat} {offset : Int} {t : Instant}
    (h : ofLocal? date second nano offset = some t) (hoffset : offset % 60 = 0)
    (hleap : 1000000000 ≤ nano → second % 60 = 59) : t.LeapsAtEnd := by
  intro hnano
  simp only [ofLocal?] at h
  split_ifs at h
  all_goals
    obtain ⟨-, hsecond, htnano⟩ := ofParts?_eq_some h
    have := hleap (htnano ▸ hnano)
    omega

/-- **Only the end of a minute is read as a leap second.** -/
theorem leapsAtEnd_of_parse? {s : String} {t : Instant} (h : parse? s = some t) :
    t.LeapsAtEnd := by
  simp only [parse?, Option.bind_eq_bind, Option.bind_eq_some_iff] at h
  obtain ⟨⟨date, cs⟩, -, h⟩ := h
  simp only at h
  split at h
  · split_ifs at h
    simp only [Option.bind_eq_some_iff] at h
    obtain ⟨⟨⟨second, nano⟩, _⟩, htime, ⟨offset, _⟩, hoffset, instant, hlocal, h⟩ := h
    split at h
    · cases h
      exact ofLocal?_leapsAtEnd hlocal (scanOffset_mod hoffset) (second_of_scanTime htime)
    · cases h
  · cases h

end CloudDrive.Instant
