import CloudDrive.Json.Parser
import CloudDrive.Json.Printer
import Mathlib.Data.List.Basic

/-!
# Literals are read as they are written

* `scanText_writeText`: string literals, whatever characters they hold.
* `scanNumber_writeNumber`: numbers, if what follows does not prolong them (`Ends`).
-/

namespace CloudDrive.Json

/-! ## String literals -/

theorem hexDigit?_hexChar : ∀ n < 16, hexDigit? (hexChar n) = some n := by decide

section
variable (rest : List Char)

/-- A piece read, and then the others. -/
def withPiece (piece : Piece) : Option (List Piece × List Char) → Option (List Piece × List Char) :=
  Option.map fun r => (piece :: r.1, r.2)

theorem scanPieces_short {e c : Char} (h : shortEscape? e = some c) :
    scanPieces ('\\' :: e :: rest) = withPiece (.char c) (scanPieces rest) := by
  have hne : e ≠ 'u' := fun he => by
    subst he
    cases h
  rw [scanPieces.eq_4 _ _ fun _ _ _ _ _ he => absurd he hne, h]
  cases scanPieces rest <;> rfl

theorem scanPieces_control {n : Nat} (h : n < 0x20) :
    scanPieces ('\\' :: 'u' :: '0' :: '0' :: hexChar (n / 16) :: hexChar (n % 16) :: rest) =
      withPiece (.unit n) (scanPieces rest) := by
  have hunit : hexUnit? '0' '0' (hexChar (n / 16)) (hexChar (n % 16)) = some n := by
    have hzero : hexDigit? '0' = some 0 := by decide
    simp only [hexUnit?, hzero, hexDigit?_hexChar (n / 16) (by omega),
      hexDigit?_hexChar (n % 16) (by omega)]
    exact congrArg some (by omega)
  rw [scanPieces.eq_3, hunit]
  cases scanPieces rest <;> rfl

theorem scanPieces_plain {c : Char} (hquote : c ≠ '"') (hback : c ≠ '\\') (h : ¬ c.toNat < 0x20) :
    scanPieces (c :: rest) = withPiece (.char c) (scanPieces rest) := by
  rw [scanPieces.eq_5 _ _ hquote (fun _ _ _ _ _ he => absurd he hback)
    fun _ _ he => absurd he hback, if_neg (not_or.2 ⟨h, hback⟩)]
  cases scanPieces rest <;> rfl

end

theorem assemble_unit {n : Nat} (h : n < 0xD800) (pieces : List Piece) :
    assemble (.unit n :: pieces) = (assemble pieces).map (Char.ofNat n :: ·) := by
  have hhigh : isHighSurrogate n = false := by
    simp only [isHighSurrogate, Bool.and_eq_false_iff, decide_eq_false_iff_not]
    omega
  have hlow : isLowSurrogate n = false := by
    simp only [isLowSurrogate, Bool.and_eq_false_iff, decide_eq_false_iff_not]
    omega
  rcases pieces with _ | ⟨_ | m, pieces⟩ <;> simp [assemble, hhigh, hlow]

/-- An escaped character is read as one piece, which stands for the character. -/
theorem scanPieces_escapeChar (c : Char) (rest : List Char) :
    ∃ piece, scanPieces (escapeChar c ++ rest) = withPiece piece (scanPieces rest) ∧
      ∀ pieces, assemble (piece :: pieces) = (assemble pieces).map (c :: ·) := by
  have hshort : ∀ e, shortEscape? e = some c → ∃ piece,
      scanPieces (['\\', e] ++ rest) = withPiece piece (scanPieces rest) ∧
        ∀ pieces, assemble (piece :: pieces) = (assemble pieces).map (c :: ·) :=
    fun e he => ⟨.char c, scanPieces_short rest he, fun _ => rfl⟩
  by_cases hquote : c = '"'
  · subst hquote
    exact hshort '"' rfl
  by_cases hback : c = '\\'
  · subst hback
    exact hshort '\\' rfl
  unfold escapeChar
  rw [if_neg hquote, if_neg hback]
  iterate 5
    split
    · next hc =>
      subst hc
      exact hshort _ rfl
  split
  · next hcontrol =>
    refine ⟨.unit c.toNat, scanPieces_control rest hcontrol, fun pieces => ?_⟩
    rw [assemble_unit (Nat.lt_trans hcontrol (by decide)), Char.ofNat_toNat]
  · next hplain => exact ⟨.char c, scanPieces_plain rest hquote hback hplain, fun _ => rfl⟩

theorem scanPieces_quoted (cs rest : List Char) :
    ∃ pieces, scanPieces (cs.flatMap escapeChar ++ '"' :: rest) = some (pieces, rest) ∧
      assemble pieces = some cs := by
  induction cs with
  | nil => exact ⟨[], scanPieces.eq_2 rest, rfl⟩
  | cons c cs ih =>
    obtain ⟨pieces, hscan, hassemble⟩ := ih
    obtain ⟨piece, hpiece, hchar⟩ := scanPieces_escapeChar c (cs.flatMap escapeChar ++ '"' :: rest)
    refine ⟨piece :: pieces, ?_, by rw [hchar, hassemble]; rfl⟩
    rw [List.flatMap_cons, List.append_assoc, hpiece, hscan]
    rfl

theorem scanText_writeText (text : Option String) :
    ∃ body, writeText text = '"' :: body ∧
      ∀ rest, scanText (body ++ rest) = some (text, rest) := by
  cases text with
  | none => exact ⟨_, rfl, fun rest => rfl⟩
  | some s =>
    refine ⟨s.toList.flatMap escapeChar ++ ['"'], rfl, fun rest => ?_⟩
    obtain ⟨pieces, hscan, hassemble⟩ := scanPieces_quoted s.toList rest
    rw [List.append_assoc, List.singleton_append, scanText, hscan]
    simp [hassemble]

/-! ## Numbers -/

/-- What follows does not prolong a number. -/
def Ends (rest : List Char) : Prop :=
  ∀ c ∈ rest.head?, c.isDigit = false ∧ c ≠ '.' ∧ c ≠ 'e' ∧ c ≠ 'E'

theorem scanDigits_append {digits rest : List Char} (hne : digits ≠ [])
    (hdigits : ∀ c ∈ digits, c.isDigit = true) (hrest : ∀ c ∈ rest.head?, c.isDigit = false) :
    scanDigits (digits ++ rest) = some (digits, rest) := by
  have htake : (digits ++ rest).takeWhile Char.isDigit = digits := by
    rw [List.takeWhile_append_of_pos hdigits]
    cases rest with
    | nil => simp
    | cons c rest => simp [hrest c rfl]
  have hdrop : (digits ++ rest).dropWhile Char.isDigit = rest := by
    rw [List.dropWhile_append_of_pos hdigits]
    cases rest with
    | nil => rfl
    | cons c rest => simp [hrest c rfl]
  rw [scanDigits, htake, hdrop, if_neg (by simpa using hne)]

theorem isDigit_of_mem_writeNat {n : Nat} : ∀ c ∈ writeNat n, c.isDigit = true :=
  fun _ hc => Nat.isDigit_of_mem_toDigits (by decide) (by decide) hc

theorem scanDigits_writeNat (n : Nat) {rest : List Char}
    (hrest : ∀ c ∈ rest.head?, c.isDigit = false) :
    scanDigits (writeNat n ++ rest) = some (writeNat n, rest) :=
  scanDigits_append Nat.toDigits_ne_nil isDigit_of_mem_writeNat hrest

theorem ofDigits_writeNat (n : Nat) : ofDigits (writeNat n) = n := Nat.ofDigitChars_ten_toDigits

/-- Only the number zero is written with a leading zero. -/
theorem head?_writeNat {n : Nat} (h : (writeNat n).head? = some '0') : writeNat n = ['0'] := by
  -- Beyond the first ten numbers, the leading digit of `n` is that of `n / 10`.
  have hpos : ∀ n, 0 < n → (Nat.toDigits 10 n).head? ≠ some '0' := by
    intro n
    induction n using Nat.strongRecOn with
    | ind n ih =>
      intro hn hzero
      by_cases hlt : n < 10
      · rw [Nat.toDigits_of_lt_base hlt, List.head?_cons, Option.some.injEq,
          Nat.digitChar_eq_zero] at hzero
        omega
      · rw [Nat.toDigits_of_base_le (by decide) (by omega),
          List.head?_append_of_ne_nil _ Nat.toDigits_ne_nil] at hzero
        exact ih (n / 10) (by omega) (by omega) hzero
  rcases Nat.eq_zero_or_pos n with rfl | hn
  · rfl
  · exact absurd h (hpos n hn)

theorem writeNat_eq_cons (n : Nat) : ∃ d digits, writeNat n = d :: digits ∧ d.isDigit = true := by
  obtain ⟨d, digits, hcons⟩ := List.exists_cons_of_ne_nil (Nat.toDigits_ne_nil (n := n) (b := 10))
  exact ⟨d, digits, hcons, isDigit_of_mem_writeNat d (hcons ▸ List.mem_cons_self)⟩

section
variable {rest : List Char}

theorem Ends.digit (h : Ends rest) : ∀ c ∈ rest.head?, c.isDigit = false := fun c hc => (h c hc).1

theorem scanFraction_of_ends (h : Ends rest) : scanFraction rest = some (none, rest) := by
  rcases rest with _ | ⟨c, rest⟩
  · rfl
  · rw [scanFraction.eq_2 _ fun _ he => (h c rfl).2.1 (List.cons.inj he).1]

theorem scanExponent_of_ends (h : Ends rest) : scanExponent rest = some (none, rest) := by
  rcases rest with _ | ⟨c, rest⟩
  · rfl
  · unfold scanExponent
    exact if_neg (not_or.2 (h c rfl).2.2)

theorem scanExponent_writeInt (exponent : Int) (h : Ends rest) :
    scanExponent ('e' :: (writeInt exponent ++ rest)) = some (some exponent, rest) := by
  simp only [scanExponent, true_or, if_true]
  cases exponent with
  | ofNat n =>
    obtain ⟨d, digits, hcons, hd⟩ := writeNat_eq_cons n
    have hscan := scanDigits_writeNat n h.digit
    simp only [writeInt, hcons, List.cons_append] at hscan ⊢
    split
    · next he =>
      cases he
      cases hd
    · next he =>
      cases he
      cases hd
    · rw [hscan, ← hcons]
      simp [ofDigits_writeNat]
  | negSucc n =>
    simp only [writeInt, List.cons_append, scanDigits_writeNat (n + 1) h.digit]
    simp [ofDigits_writeNat, Int.negSucc_eq]

theorem scanMagnitude_integer (negative : Bool) (n : Nat) (h : Ends rest) :
    scanMagnitude negative (writeNat n ++ rest) = some (.integer negative n, rest) := by
  have hlead : ¬ ((writeNat n).head? = some '0' ∧ writeNat n ≠ ['0']) :=
    fun hz => hz.2 (head?_writeNat hz.1)
  rw [scanMagnitude, scanDigits_writeNat n h.digit]
  refine (if_neg hlead).trans ?_
  simp [scanFraction_of_ends h, scanExponent_of_ends h, ofDigits_writeNat]

theorem scanMagnitude_decimal (negative : Bool) (n : Nat) (exponent : Int) (h : Ends rest) :
    scanMagnitude negative (writeNat n ++ 'e' :: (writeInt exponent ++ rest)) =
      some (.decimal negative n exponent, rest) := by
  have hlead : ¬ ((writeNat n).head? = some '0' ∧ writeNat n ≠ ['0']) :=
    fun hz => hz.2 (head?_writeNat hz.1)
  have hdigit : ∀ c ∈ ('e' :: (writeInt exponent ++ rest)).head?, c.isDigit = false := by
    rintro c ⟨⟩
    rfl
  have hfraction : scanFraction ('e' :: (writeInt exponent ++ rest)) =
      some (none, 'e' :: (writeInt exponent ++ rest)) :=
    scanFraction.eq_2 _ fun _ he => absurd (List.cons.inj he).1 (by decide)
  rw [scanMagnitude, scanDigits_writeNat n hdigit]
  refine (if_neg hlead).trans ?_
  simp [hfraction, scanExponent_writeInt exponent h, ofDigits_writeNat]

theorem scanNumber_sign (negative : Bool) (n : Nat) (rest : List Char) :
    scanNumber (writeSign negative ++ (writeNat n ++ rest)) =
      scanMagnitude negative (writeNat n ++ rest) := by
  cases negative with
  | true => rfl
  | false =>
    obtain ⟨d, digits, hcons, hd⟩ := writeNat_eq_cons n
    rw [writeSign, if_neg Bool.false_ne_true, hcons]
    refine scanNumber.eq_2 _ fun _ he => ?_
    rw [(List.cons.inj he).1] at hd
    cases hd

end

/-- A number is read as it is written. -/
theorem scanNumber_writeNumber (number : Number) {rest : List Char} (h : Ends rest) :
    scanNumber (writeNumber number ++ rest) = some (number, rest) := by
  cases number with
  | integer negative n =>
    rw [writeNumber, List.append_assoc, scanNumber_sign, scanMagnitude_integer negative n h]
  | decimal negative n exponent =>
    rw [writeNumber, List.append_assoc, List.append_assoc, List.cons_append, scanNumber_sign,
      scanMagnitude_decimal negative n exponent h]

theorem writeNumber_eq_cons (number : Number) :
    ∃ c cs, writeNumber number = c :: cs ∧ (c = '-' ∨ c.isDigit = true) := by
  have hsign : ∀ negative n rest, ∃ c cs,
      writeSign negative ++ (writeNat n ++ rest) = c :: cs ∧ (c = '-' ∨ c.isDigit = true) := by
    intro negative n rest
    obtain ⟨d, digits, hcons, hd⟩ := writeNat_eq_cons n
    cases negative with
    | true => exact ⟨_, _, rfl, .inl rfl⟩
    | false => exact ⟨d, digits ++ rest, by rw [hcons]; rfl, .inr hd⟩
  cases number with
  | integer negative n => simpa [writeNumber] using hsign negative n []
  | decimal negative n exponent =>
    simpa [writeNumber] using hsign negative n ('e' :: writeInt exponent)

end CloudDrive.Json
