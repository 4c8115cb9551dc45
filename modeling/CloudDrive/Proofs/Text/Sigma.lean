import CloudDrive.Text.Lowercase
import Mathlib.Data.List.Infix

/-!
# Capital sigmas

A capital sigma is lower-cased by what stands around it, every other character by itself. So a text
that stands inside a longer one keeps its lower-case form there, but for its capital sigmas: around
them the longer text may go on, or its front may have been cut off.

* `spell_eq_iff`: two spellings of a text are equal exactly if they agree at its capital sigmas.
* `toList_lowercase`, `toList_nameKey`: the two lower-case forms, as spellings.
* `spell_eq_of_infix_append`: a spelling stands in a longer one only if it agrees with it.
-/

namespace CloudDrive.Text

/-! ## Ends of words -/

section
variable (k : CaseClasses)

/-- Is the first character that is not case-ignorable one that is not cased? -/
def startsUncased (cs : List Char) : Bool := (cs.dropWhile k.ignorable).head?.any (! k.cased ·)

/-- Does a sigma end a word, between the reversed text before it and the text after it? -/
def endsWord (before after : List Char) : Bool := startsCased k before && ! startsCased k after

variable {k} {s t : List Char}

theorem startsCased_append (s t : List Char) :
    startsCased k (s ++ t) = (startsCased k s || ! startsUncased k s && startsCased k t) := by
  unfold startsCased startsUncased
  rw [List.dropWhile_append]
  cases s.dropWhile k.ignorable with
  | nil => simp
  | cons c rest => cases hc : k.cased c <;> simp [hc]

theorem startsUncased_eq_false (h : startsCased k s = true) : startsUncased k s = false := by
  unfold startsCased at h
  unfold startsUncased
  cases hs : s.dropWhile k.ignorable with
  | nil => rfl
  | cons c rest => simpa [hs] using h

/-- What goes on after a letter goes on as the letter does. -/
theorem startsCased_append_of_cased (h : startsCased k s = true) (t : List Char) :
    startsCased k (s ++ t) = true := by
  rw [startsCased_append, h, Bool.true_or]

theorem startsCased_append_of_uncased (h : startsUncased k s = true) (t : List Char) :
    startsCased k (s ++ t) = false := by
  have hs : startsCased k s = false := Bool.eq_false_iff.2 fun hs => by
    rw [startsUncased_eq_false hs] at h
    cases h
  rw [startsCased_append, hs, h]
  rfl

theorem startsCased_of_prefix_of_uncased (hst : s <+: t) (h : startsUncased k t = true) :
    startsCased k s = false := by
  obtain ⟨rest, rfl⟩ := hst
  refine Bool.eq_false_iff.2 fun hs => ?_
  rw [startsUncased_eq_false (startsCased_append_of_cased hs rest)] at h
  cases h

/-- A letter after the text shows, unless the text decides. -/
theorem startsUncased_of_letter {c : Char} (hi : k.ignorable c = false) (hc : k.cased c = true)
    (h : startsCased k (s ++ [c]) = false) : startsUncased k s = true := by
  have hletter : startsCased k [c] = true := by simp [startsCased, hi, hc]
  rw [startsCased_append, hletter, Bool.and_true, Bool.or_eq_false_iff] at h
  simpa using h.2

end

/-! ## Spellings -/

/-- The lower-case form of a sigma, at the end of a word or elsewhere. -/
def sigma (final : Bool) : Char := if final then 'ς' else 'σ'

/-- Is the character a sigma in lower case? -/
def isSigma (c : Char) : Bool := c == 'ς' || c == 'σ'

/-- The lower-case form of a character other than a capital sigma. -/
def plain (c : Char) : List Char := if c = 'İ' then ['i', '\u0307'] else [lowerChar c]

/-- A text after the reversed text `before`, in lower case; `final` tells from the reversed text
before a capital sigma and from the text after it whether it is at the end of a word. -/
def spell (final : List Char → List Char → Bool) (before : List Char) : List Char → List Char
  | [] => []
  | c :: rest =>
    (if c = 'Σ' then [sigma (final before rest)] else plain c) ++ spell final (c :: before) rest

section
variable {final final' : List Char → List Char → Bool} {before before' : List Char}

theorem isSigma_sigma (final : Bool) : isSigma (sigma final) = true := by
  cases final <;> decide

theorem sigma_inj {final final' : Bool} (h : sigma final = sigma final') : final = final' := by
  cases final <;> cases final' <;> first | rfl | exact absurd h (by decide)

theorem spell_append (s t : List Char) :
    spell final before (s ++ t) =
      spell (fun b a => final b (a ++ t)) before s ++ spell final (s.reverse ++ before) t := by
  induction s generalizing before with
  | nil => rfl
  | cons c s ih => simp [spell, ih]

/-- **Equal spellings** agree at the capital sigmas, and conversely. -/
theorem spell_eq_iff (text : List Char) :
    spell final before text = spell final' before' text ↔
      ∀ s t, text = s ++ 'Σ' :: t →
        final (s.reverse ++ before) t = final' (s.reverse ++ before') t := by
  induction text generalizing before before' with
  | nil => simp [spell]
  | cons c text ih =>
    have hlater : (∀ s t, c :: text = c :: s ++ 'Σ' :: t →
        final ((c :: s).reverse ++ before) t = final' ((c :: s).reverse ++ before') t) ↔
        spell final (c :: before) text = spell final' (c :: before') text := by
      simp [ih]
    constructor
    · intro h s t hst
      cases s with
      | nil =>
        obtain ⟨rfl, rfl⟩ := List.cons.inj hst
        exact sigma_inj (List.cons.inj h).1
      | cons d s =>
        obtain ⟨rfl, -⟩ := List.cons.inj hst
        refine hlater.2 ?_ s t hst
        rw [spell, spell] at h
        by_cases hc : c = 'Σ'
        · simp only [hc, if_true] at h ⊢
          exact (List.cons.inj h).2
        · simpa only [hc, if_false, List.append_cancel_left_eq] using h
    · intro h
      rw [spell, spell, hlater.1 fun s t => h (c :: s) t]
      by_cases hc : c = 'Σ'
      · have hnow : final before text = final' before' text := h [] text (by rw [hc]; rfl)
        rw [hnow]
      · simp only [hc, if_false]

theorem spell_eq_of_filter_eq {text : List Char}
    (h : (spell final before text).filter isSigma = (spell final' before' text).filter isSigma) :
    spell final before text = spell final' before' text := by
  induction text generalizing before before' with
  | nil => rfl
  | cons c text ih =>
    simp only [spell, List.filter_append] at h ⊢
    by_cases hc : c = 'Σ'
    · simp only [hc, if_true, List.filter_cons, isSigma_sigma, List.filter_nil, List.cons_append,
        List.nil_append, List.cons.injEq] at h ⊢
      exact ⟨h.1, ih h.2⟩
    · simp only [hc, if_false, List.append_cancel_left_eq] at h ⊢
      exact ih h

theorem length_filter_spell (text : List Char) :
    ((spell final before text).filter isSigma).length =
      ((spell final' before' text).filter isSigma).length := by
  induction text generalizing before before' with
  | nil => rfl
  | cons c text ih =>
    have hlater := @ih (c :: before) (c :: before')
    simp only [spell, List.filter_append, List.length_append, hlater]
    by_cases hc : c = 'Σ' <;> simp [hc, isSigma_sigma]

/-- A spelling that stands in another one, next to texts without sigmas, is that other one. -/
theorem spell_eq_of_infix_append {text u v : List Char} (hu : u.filter isSigma = [])
    (hv : v.filter isSigma = [])
    (h : spell final before text <:+: u ++ spell final' before' text ++ v) :
    spell final before text = spell final' before' text := by
  have hsigmas := h.filter isSigma
  rw [List.filter_append, List.filter_append, hu, hv, List.nil_append, List.append_nil] at hsigmas
  exact spell_eq_of_filter_eq (hsigmas.eq_of_length (length_filter_spell text))

end

theorem lowerAfter_eq_spell (k : CaseClasses) (before cs : List Char) :
    lowerAfter k before cs = spell (endsWord k) before cs := by
  induction cs generalizing before with
  | nil => rfl
  | cons c cs ih =>
    rw [lowerAfter, spell, ih]
    rfl

theorem toList_lowercase (s : String) :
    (lowercase s).toList = spell (endsWord .unicode17) [] s.toList := by
  rw [lowercase, String.toList_ofList, lowerAfter_eq_spell]

/-! ## Keys of names -/

/-- Is the character an ASCII character? -/
def isAscii (c : Char) : Bool := c.toNat < 128

/-- Does a sigma end a word, in a name whose first `n` characters do not count? -/
def endsWordAfter (n : Nat) (before after : List Char) : Bool :=
  endsWord .unicode15 (before.reverse.drop n).reverse after

theorem spell_of_ascii {final : List Char → List Char → Bool} {before cs : List Char}
    (h : ∀ c ∈ cs, c.toNat < 128) : spell final before cs = cs.map lowerChar := by
  induction cs generalizing before with
  | nil => rfl
  | cons c cs ih =>
    have hc := h c List.mem_cons_self
    have hsigma : c ≠ 'Σ' := by rintro rfl; exact absurd hc (by decide)
    have hdot : c ≠ 'İ' := by rintro rfl; exact absurd hc (by decide)
    rw [spell, if_neg hsigma, plain, if_neg hdot, ih fun d hd => h d (List.mem_cons_of_mem _ hd)]
    rfl

/-- **The key of a name**: a capital sigma does not see what stands in the blocks at the front. -/
theorem toList_nameKey (s : String) :
    (nameKey s).toList = spell (endsWordAfter (blockLength s.toList)) [] s.toList := by
  unfold nameKey
  generalize hn : blockLength s.toList = n
  have hle : n ≤ s.toList.length :=
    hn ▸ (Nat.div_mul_le_self _ _).trans (List.takeWhile_prefix _).length_le
  have hascii : ∀ c ∈ s.toList.take n, c.toNat < 128 := fun c hc =>
    lt_of_mem_take_blockLength (hn ▸ hc)
  have hrest : spell (endsWordAfter n) (s.toList.take n).reverse (s.toList.drop n) =
      spell (endsWord .unicode15) [] (s.toList.drop n) := by
    refine (spell_eq_iff _).2 fun b a _ => ?_
    have hlen : (s.toList.take n).length = n := List.length_take_of_le hle
    have hdrop : (s.toList.take n ++ b).drop n = b := List.drop_left' hlen
    rw [endsWordAfter, ← List.reverse_append, List.reverse_reverse, hdrop, List.append_nil]
  conv_rhs => rw [← List.take_append_drop n s.toList, spell_append, List.append_nil, hrest]
  rw [String.toList_ofList, lowerAfter_eq_spell, spell_of_ascii hascii]

theorem blockLength_eq (cs : List Char) :
    blockLength cs = (cs.takeWhile isAscii).length / 16 * 16 := rfl

/-- Blocks end before a capital sigma. -/
theorem takeWhile_isAscii_sigma (s t : List Char) :
    (s ++ 'Σ' :: t).takeWhile isAscii = s.takeWhile isAscii := by
  induction s with
  | nil => rfl
  | cons c s ih => simp only [List.cons_append, List.takeWhile_cons, ih]

end CloudDrive.Text
