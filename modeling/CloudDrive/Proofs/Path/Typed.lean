import CloudDrive.Path.Typed
import CloudDrive.Proofs.Path.Spelling
import Mathlib.Data.List.DropRight

/-!
# Paths that a user types

A typed path is trimmed first, and the separators at its end are taken off afterwards. White space
that stood before them is at the end then, and is trimmed only if the path is typed again.

* `hasRepeatedWhiteSpace_separator`: separators part the white space of a path.
* `normalize_eq_ok`, `hasRepeatedWhiteSpace_of_normalize`: what an accepted path is.
* `normalize_concat`: which paths stand for themselves.
* `normalize_again_iff`: when what a typed path stands for stands for itself.
* `toList_parent_join`: a path, and what is left of it when it is taken apart and joined again.
* `isComponent_of_validateName`: what an accepted name is.
-/

namespace CloudDrive.Path

open Text (dropEndWhile dropEndWhile_of_last eq_false_of_dropEndWhile_eq isWhiteSpace trimChars)

/-! ## White space side by side -/

/-- No white space stands side by side across a separator. -/
theorem hasRepeatedWhiteSpace_separator (l r : List Char) :
    hasRepeatedWhiteSpace (l ++ '/' :: r) =
      (hasRepeatedWhiteSpace l || hasRepeatedWhiteSpace r) := by
  have hsep : isWhiteSpace '/' = false := by decide
  induction l with
  | nil => cases r <;> simp [hasRepeatedWhiteSpace, hsep]
  | cons c l ih =>
    cases l with
    | nil => cases r <;> simp [hasRepeatedWhiteSpace, hsep]
    | cons d l =>
      simp only [List.cons_append, hasRepeatedWhiteSpace, Bool.or_assoc]
      rw [← ih, List.cons_append]

theorem hasRepeatedWhiteSpace_append_of_all {w : List Char} (hw : ∀ c ∈ w, isSeparator c = true)
    (l : List Char) : hasRepeatedWhiteSpace (l ++ w) = hasRepeatedWhiteSpace l := by
  induction w generalizing l with
  | nil => rw [List.append_nil]
  | cons c w ih =>
    have ih := ih fun c hc => hw c (List.mem_cons_of_mem _ hc)
    rw [isSeparator_iff.1 (hw c List.mem_cons_self), hasRepeatedWhiteSpace_separator]
    have hnone : hasRepeatedWhiteSpace w = false := ih []
    rw [hnone, Bool.or_false]

theorem hasRepeatedWhiteSpace_of_prefix {l l' : List Char} (h : l <+: l')
    (hl : hasRepeatedWhiteSpace l = true) : hasRepeatedWhiteSpace l' = true := by
  obtain ⟨r, rfl⟩ := h
  induction l with
  | nil => cases hl
  | cons c l ih =>
    cases l with
    | nil => cases hl
    | cons d l =>
      simp only [List.cons_append, hasRepeatedWhiteSpace, Bool.or_eq_true] at hl ⊢
      exact hl.imp_right ih

/-! ## Typed paths -/

/-- **An accepted path** is the trimmed text less the separators at its end, and the text is
absolute and has no white space side by side. -/
theorem normalize_eq_ok {typed p : String} (h : normalize typed = .ok p) :
    (trimChars typed.toList).head? = some '/' ∧
      hasRepeatedWhiteSpace (trimChars typed.toList) = false ∧
      p.toList = if (stem (trimChars typed.toList)).isEmpty then ['/']
        else stem (trimChars typed.toList) := by
  unfold normalize at h
  simp only at h
  split at h
  · cases h
  · split at h
    · cases h
    · next hhead =>
      split at h
      · cases h
      · next hnone =>
        refine ⟨not_not.1 hhead, Bool.eq_false_iff.2 hnone, ?_⟩
        split at h <;> obtain rfl := Except.ok.inj h
        · next hroot =>
          rw [if_pos hroot]
          rfl
        · next hroot => rw [if_neg hroot, String.toList_ofList]

/-- **No typed path** has white space side by side. -/
theorem hasRepeatedWhiteSpace_of_normalize {typed p : String} (h : normalize typed = .ok p) :
    hasRepeatedWhiteSpace p.toList = false := by
  obtain ⟨-, hnone, hp⟩ := normalize_eq_ok h
  rw [hp]
  split
  · rfl
  · obtain ⟨w, hw, -⟩ := exists_append_stem (trimChars typed.toList)
    refine Bool.eq_false_iff.2 fun hstem => Bool.eq_false_iff.1 hnone ?_
    exact hasRepeatedWhiteSpace_of_prefix ⟨w, hw.symm⟩ hstem

/-- A path stands for itself if it is absolute, has no white space side by side, and ends neither
with white space nor with a separator. -/
theorem normalize_concat {l : List Char} {c : Char} (hl : l.head? = some '/')
    (hnone : hasRepeatedWhiteSpace (l ++ [c]) = false) (hc : isWhiteSpace c = false)
    (hsep : isSeparator c = false) :
    normalize (String.ofList (l ++ [c])) = .ok (String.ofList (l ++ [c])) := by
  obtain ⟨l, rfl⟩ : ∃ rest, l = '/' :: rest := by
    cases l with
    | nil => cases hl
    | cons a rest => exact ⟨rest, by rw [Option.some.inj hl]⟩
  have htrim : trimChars ('/' :: l ++ [c]) = '/' :: l ++ [c] := by
    unfold trimChars
    rw [List.cons_append, List.dropWhile_cons_of_neg (by decide), ← List.cons_append]
    exact dropEndWhile_of_last hc
  have hstem : stem ('/' :: l ++ [c]) = '/' :: l ++ [c] := dropEndWhile_of_last hsep
  unfold normalize
  simp only [String.toList_ofList, htrim, hstem, hnone]
  rfl

/-! ## Typed again -/

/-- White space stands right before the separators at the end of the text. -/
def HidesWhiteSpace (text : List Char) : Prop :=
  ∃ front c n, isWhiteSpace c = true ∧ text = front ++ c :: List.replicate (n + 1) '/'

theorem isSeparator_eq_false_of_isWhiteSpace {c : Char} (h : isWhiteSpace c = true) :
    isSeparator c = false := by
  refine Bool.eq_false_iff.2 fun hsep => ?_
  rw [isSeparator_iff.1 hsep] at h
  cases h

/-- What is left without the separators at the end is nothing, or ends with no separator. -/
theorem stem_eq_nil_or (text : List Char) :
    stem text = [] ∨ ∃ front c, stem text = front ++ [c] ∧ isSeparator c = false := by
  rcases List.eq_nil_or_concat (stem text) with hnil | ⟨front, c, hc⟩
  · exact .inl hnil
  · rw [List.concat_eq_append] at hc
    exact .inr ⟨front, c, hc, eq_false_of_dropEndWhile_eq hc⟩

theorem stem_append_replicate {front : List Char} {c : Char} (h : isSeparator c = false) (n : Nat) :
    stem (front ++ c :: List.replicate n '/') = front ++ [c] := by
  rw [List.append_cons]
  exact (Text.dropEndWhile_append_of_all fun d hd => by rw [List.eq_of_mem_replicate hd]; rfl).trans
    (dropEndWhile_of_last h)

/-- The trimmed text hides white space exactly if `c`, with which it ends once the separators at its
end are taken off, is white space. -/
theorem hidesWhiteSpace_iff {text front : List Char} {c : Char}
    (h : stem (trimChars text) = front ++ [c]) :
    HidesWhiteSpace (trimChars text) ↔ isWhiteSpace c = true := by
  constructor
  · rintro ⟨front', d, n, hd, htext⟩
    rw [htext, stem_append_replicate (isSeparator_eq_false_of_isWhiteSpace hd)] at h
    obtain ⟨-, hdc⟩ := List.append_inj' h rfl
    exact (List.cons.inj hdc).1 ▸ hd
  · intro hc
    obtain ⟨w, hw, hsep⟩ := exists_append_stem (trimChars text)
    have hw' : w = List.replicate w.length '/' :=
      List.eq_replicate_iff.2 ⟨rfl, fun d hd => isSeparator_iff.1 (hsep d hd)⟩
    cases hlen : w.length with
    | zero =>
      rw [List.length_eq_zero_iff.1 hlen, List.append_nil, h] at hw
      exact absurd hc (by simp [eq_false_of_dropEndWhile_eq hw])
    | succ n =>
      rw [hlen] at hw'
      exact ⟨front, c, n, hc, by rw [hw, h, hw', List.append_assoc, List.singleton_append]⟩

theorem not_hidesWhiteSpace_of_stem_eq_nil {text : List Char} (h : stem text = []) :
    ¬ HidesWhiteSpace text := by
  rintro ⟨front, c, n, hc, rfl⟩
  rw [stem_append_replicate (isSeparator_eq_false_of_isWhiteSpace hc)] at h
  exact absurd h (by simp)

/-- What is absolute starts with a separator without its last character, if that is none. -/
theorem head?_eq_of_stem {text front : List Char} {c : Char} (h : text.head? = some '/')
    (hstem : stem text = front ++ [c]) (hc : isSeparator c = false) :
    front.head? = some '/' := by
  obtain ⟨w, hw, -⟩ := exists_append_stem text
  rw [hw, hstem] at h
  cases front with
  | nil => exact absurd (Option.some.inj h) (by rintro rfl; cases hc)
  | cons a front => exact h

theorem trimChars_of_normalize_self {p : String} (h : normalize p = .ok p) :
    trimChars p.toList = p.toList := by
  obtain ⟨-, -, hp⟩ := normalize_eq_ok h
  split at hp
  · rw [hp]
    decide
  · have hsub : (trimChars p.toList).Sublist p.toList :=
      (List.rdropWhile_prefix _ _).sublist.trans (List.dropWhile_sublist _)
    have hle : (stem (trimChars p.toList)).length ≤ (trimChars p.toList).length :=
      (List.rdropWhile_prefix _ _).length_le
    rw [← hp] at hle
    exact hsub.eq_of_length_le hle

/-- **Typed again.** What a typed path stands for is absolute, has no white space side by side, and
ends with a separator only if it is the root. It stands for itself, and has no white space around
it, exactly if no white space stands before the separators at the end of the trimmed text. -/
theorem normalize_again_iff {typed p : String} (h : normalize typed = .ok p) :
    p.toList.head? = some '/' ∧ hasRepeatedWhiteSpace p.toList = false ∧
      (p.toList.getLast? = some '/' → p = root) ∧
      (trimChars p.toList = p.toList ↔ ¬ HidesWhiteSpace (trimChars typed.toList)) ∧
      (normalize p = .ok p ↔ ¬ HidesWhiteSpace (trimChars typed.toList)) := by
  have hnone := hasRepeatedWhiteSpace_of_normalize h
  obtain ⟨hhead, -, hp⟩ := normalize_eq_ok h
  rcases stem_eq_nil_or (trimChars typed.toList) with hnil | ⟨front, c, hstem, hc⟩
  · obtain rfl : p = root := String.toList_inj.1 (by rw [hp, hnil]; rfl)
    have hhides := not_hidesWhiteSpace_of_stem_eq_nil hnil
    refine ⟨rfl, rfl, fun _ => rfl, iff_of_true (by decide) hhides, iff_of_true rfl hhides⟩
  · have hp : p.toList = front ++ [c] := by rw [hp, hstem]; simp
    have hfront := head?_eq_of_stem hhead hstem hc
    have hself : ¬ HidesWhiteSpace (trimChars typed.toList) → normalize p = .ok p := fun hn => by
      rw [hidesWhiteSpace_iff hstem, Bool.not_eq_true] at hn
      have hagain := normalize_concat hfront (hp ▸ hnone) hn hc
      rwa [← hp, String.ofList_toList] at hagain
    have hshows : trimChars p.toList = p.toList → ¬ HidesWhiteSpace (trimChars typed.toList) :=
      fun htrim => by
        rw [hidesWhiteSpace_iff hstem, eq_false_of_dropEndWhile_eq (htrim.trans hp)]
        exact Bool.false_ne_true
    refine ⟨by simp [hp, hfront], hnone, fun hlast => ?_, ⟨hshows, fun hn => ?_⟩, ?_, hself⟩
    · rw [hp, List.getLast?_concat] at hlast
      obtain rfl := Option.some.inj hlast
      cases hc
    · exact trimChars_of_normalize_self (hself hn)
    · exact fun hagain => hshows (trimChars_of_normalize_self hagain)

/-- Blanks around the text and separators at its end are taken off at once. -/
theorem normalize_again_iff_docs :
    normalize "  /my docs// " = .ok "/my docs" ∧
      ¬ HidesWhiteSpace (trimChars "  /my docs// ".toList) ∧
      normalize "/my docs" = .ok "/my docs" := by
  have h : normalize "  /my docs// " = .ok "/my docs" := by decide
  obtain ⟨-, -, -, -, hagain⟩ := normalize_again_iff h
  have hself : normalize "/my docs" = .ok "/my docs" := by decide
  exact ⟨h, hagain.1 hself, hself⟩

/-- **Not trimmed.** A blank before the last separator is left at the end of the path, which stands
for another path when it is typed again. -/
theorem blank_before_separator_left :
    normalize "/a /" = .ok "/a " ∧ normalize "/a " = .ok "/a" ∧
      ¬ ∀ typed p, normalize typed = .ok p →
        normalize p = .ok p ∧ trimChars p.toList = p.toList := by
  have hleft : normalize "/a /" = .ok "/a " := by decide
  have hagain : normalize "/a " = .ok "/a" := by decide
  refine ⟨hleft, hagain, fun h => ?_⟩
  have hself := (h "/a /" "/a " hleft).1
  rw [hagain] at hself
  exact absurd (Except.ok.inj hself) (by decide)

/-! ## Taken apart and joined -/

theorem stem_eq_append_name {p : String} (h : '/' ∈ stem p.toList) :
    stem p.toList = beforeName p.toList ++ '/' :: (name p).toList := by
  have hsplit := List.takeWhile_append_dropWhile (p := (! isSeparator ·))
    (l := (stem p.toList).reverse)
  have hhead := List.head?_dropWhile_not (! isSeparator ·) (stem p.toList).reverse
  rw [toList_name]
  unfold beforeName
  cases hrest : (stem p.toList).reverse.dropWhile (! isSeparator ·) with
  | nil =>
    -- without a separator all of it would be dropped
    refine absurd (List.dropWhile_eq_nil_iff.1 hrest '/' (List.mem_reverse.2 h)) ?_
    simp [isSeparator]
  | cons c rest =>
    rw [hrest] at hsplit hhead
    obtain rfl : c = '/' := isSeparator_iff.1 (by simpa using hhead)
    have hstem := congrArg List.reverse hsplit
    rw [List.reverse_reverse] at hstem
    refine hstem.symm.trans ?_
    simp

theorem toList_parent_join (p n : String) :
    (join (parent p) n).toList = stem (beforeName p.toList) ++ '/' :: n.toList := by
  rw [toList_join, toList_parent]
  split
  · next h =>
    rw [List.isEmpty_iff.1 h]
    rfl
  · rfl

/-! ## Typed names -/

theorem isComponent_of_validateName {typed n : String} (h : validateName typed = .ok n) :
    IsComponent n := by
  unfold validateName at h
  simp only at h
  split at h
  · cases h
  · next hne =>
    split at h
    · cases h
    · split at h
      · cases h
      · next hsep =>
        split at h
        · cases h
        · cases h
          refine ⟨hne, fun hmem => ?_⟩
          simpa using List.find?_eq_none.1 hsep '/' hmem

end CloudDrive.Path
