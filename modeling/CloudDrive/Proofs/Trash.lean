import CloudDrive.Proofs.Path.Typed
import CloudDrive.Proofs.Session.Plan

/-!
# Which paths are taken for the trash

The trash is recognised by the spelling of the setting, and created at `place`, which is spelled
without the separators at the end of the setting and before the name.

* `Spelled`: how the two spellings differ.
* `recognised_iff`: for which settings the trash is recognised by every path that a user can type.
-/

namespace CloudDrive.Trash

open Path (IsComponent hasRepeatedWhiteSpace isSeparator stem)

/-! ## Two spellings -/

/-- The setting as it is spelled, and the place where the trash is created: separators may stand
before the name and at the end. -/
structure Spelled (c : Config) (base before last : List Char) : Prop where
  isComponent : IsComponent c.trashName
  all_before : ∀ x ∈ before, isSeparator x = true
  all_last : ∀ x ∈ last, isSeparator x = true
  setting : c.trashPath.toList = base ++ before ++ '/' :: (c.trashName.toList ++ last)
  created : (place c).toList = base ++ '/' :: c.trashName.toList

theorem isAbsolute_of_isBelowRoot {path : String} (h : Config.isBelowRoot path = true) :
    path.toList.head? = some '/' := by
  simpa [Config.isAbsolute] using (Bool.and_eq_true_iff.1 h).1

theorem exists_spelled {c : Config} (h : Config.isBelowRoot c.trashPath = true) :
    ∃ base before last, Spelled c base before last := by
  have habs := isAbsolute_of_isBelowRoot h
  have hstem : stem c.trashPath.toList ≠ [] := by
    simpa using (Bool.and_eq_true_iff.1 h).2
  obtain ⟨last, hlast, hsep⟩ := Path.exists_append_stem c.trashPath.toList
  obtain ⟨before, hbefore, hsep'⟩ := Path.exists_append_stem (Path.beforeName c.trashPath.toList)
  -- the separator that the setting begins with is not one at its end
  have hmem : '/' ∈ stem c.trashPath.toList := by
    rw [hlast, List.head?_append_of_ne_nil _ hstem] at habs
    exact List.mem_of_mem_head? habs
  refine ⟨stem (Path.beforeName c.trashPath.toList), before, last,
    Path.isComponent_name_iff.2 hstem, hsep', hsep, ?_, Path.toList_parent_join _ _⟩
  calc c.trashPath.toList
      = stem c.trashPath.toList ++ last := hlast
    _ = Path.beforeName c.trashPath.toList ++ '/' :: c.trashName.toList ++ last := by
        rw [Path.stem_eq_append_name hmem]
        rfl
    _ = _ := by
        rw [← hbefore, List.append_assoc, List.cons_append]

section
variable {c : Config} {base before last : List Char} (h : Spelled c base before last)
include h

/-- Both spellings have the same white space. -/
theorem Spelled.hasRepeatedWhiteSpace_place :
    hasRepeatedWhiteSpace (place c).toList = hasRepeatedWhiteSpace c.trashPath.toList := by
  rw [h.setting, h.created, Path.hasRepeatedWhiteSpace_separator,
    Path.hasRepeatedWhiteSpace_separator, Path.hasRepeatedWhiteSpace_append_of_all h.all_before,
    Path.hasRepeatedWhiteSpace_append_of_all h.all_last]

/-- Separators that are left out make the spelling shorter. -/
theorem Spelled.place_eq_of_prefix (hp : c.trashPath.toList <+: (place c).toList) :
    place c = c.trashPath := by
  refine String.toList_inj.1 (hp.eq_of_length_le ?_).symm
  rw [h.setting, h.created]
  simp only [List.length_append, List.length_cons]
  omega

theorem Spelled.head?_place (habs : c.trashPath.toList.head? = some '/') :
    (place c).toList.head? = some '/' := by
  rw [h.setting] at habs
  rw [h.created]
  cases base with
  | nil => rfl
  | cons a base => exact habs

theorem Spelled.stem_place : stem (place c).toList = (place c).toList := by
  unfold place
  rw [Path.stem_join _ h.isComponent, Path.toList_join]

/-- An entry of the place where the trash is created can be typed. -/
theorem Spelled.normalize_entry (habs : c.trashPath.toList.head? = some '/')
    (hnone : hasRepeatedWhiteSpace c.trashPath.toList = false) :
    (Path.join (place c) "x").toList = (place c).toList ++ ['/'] ++ ['x'] ∧
      Path.normalize (Path.join (place c) "x") = .ok (Path.join (place c) "x") := by
  have hentry : (Path.join (place c) "x").toList = (place c).toList ++ ['/'] ++ ['x'] := by
    rw [Path.toList_join, h.stem_place, ← List.append_cons]
    rfl
  have hrep : hasRepeatedWhiteSpace ((place c).toList ++ ['/'] ++ ['x']) = false := by
    rw [← List.append_cons, Path.hasRepeatedWhiteSpace_separator, h.hasRepeatedWhiteSpace_place,
      hnone]
    rfl
  refine ⟨hentry, ?_⟩
  rw [← String.ofList_toList (s := Path.join _ _), hentry]
  refine Path.normalize_concat ?_ hrep (by decide) (by decide)
  rw [List.head?_append, h.head?_place habs]
  rfl

end

/-! ## Recognition -/

theorem viewKind_eq_trash {c : Config} {p : String} :
    viewKind c p = .trash ↔ p = c.trashPath := by
  unfold viewKind
  split <;> simp_all

theorem isReserved_eq_true {c : Config} (hroot : c.trashPath ≠ Path.root) {p : String} :
    isReserved c p = true ↔
      p = c.trashPath ∨ c.trashPath.toList ++ ['/'] <+: p.toList := by
  unfold isReserved Path.isWithin
  rw [if_neg hroot, Bool.or_eq_true, beq_iff_eq, List.isPrefixOf_iff_prefix]

theorem isBelowRoot_of_build {d : Config.Draft} {c : Config} (h : d.build = .ok c) :
    Config.isBelowRoot c.trashPath = true := by
  unfold Config.Draft.build at h
  split at h
  · cases h
  · next hnone =>
    obtain rfl := Except.ok.inj h
    unfold Config.Draft.refusal? at hnone
    split at hnone
    · cases hnone
    · next htrash =>
      show Config.isBelowRoot (d.trashPath.getD "/.trash") = true
      cases hd : d.trashPath with
      | none => decide
      | some path => simpa [hd] using htrash

/-- Among the paths that can be typed, the place where the trash is created is the only one that
shows the trash, and exactly that place and what lies beneath it are reserved. -/
def Recognised (c : Config) : Prop :=
  ∀ typed p, Path.normalize typed = .ok p →
    (viewKind c p = .trash ↔ p = place c) ∧
    (isReserved c p = true ↔ p = place c ∨ (place c).toList ++ ['/'] <+: p.toList)

section
variable {c : Config} {base before last : List Char} (h : Spelled c base before last)
  (hroot : c.trashPath ≠ Path.root)
include hroot

theorem recognised_of_place_eq (heq : place c = c.trashPath) : Recognised c := by
  intro typed p _
  rw [heq]
  exact ⟨viewKind_eq_trash, isReserved_eq_true hroot⟩

include h

theorem Spelled.recognised (hrep : hasRepeatedWhiteSpace c.trashPath.toList = true) :
    Recognised c := by
  intro typed p hp
  have hother : ∀ q : String, hasRepeatedWhiteSpace q.toList = true →
      p ≠ q ∧ ¬ q.toList ++ ['/'] <+: p.toList := by
    intro q hq
    have hnone := Path.hasRepeatedWhiteSpace_of_normalize hp
    refine ⟨fun he => ?_, fun hpre => ?_⟩
    · rw [he, hq] at hnone
      cases hnone
    · rw [Path.hasRepeatedWhiteSpace_of_prefix ((List.prefix_append _ _).trans hpre) hq] at hnone
      cases hnone
  obtain ⟨h₁, h₂⟩ := hother _ hrep
  obtain ⟨h₃, h₄⟩ := hother _ (h.hasRepeatedWhiteSpace_place.trans hrep)
  rw [viewKind_eq_trash, isReserved_eq_true hroot]
  simp only [h₁, h₂, h₃, h₄, or_self, and_self]

theorem Spelled.place_eq (hall : Recognised c) (habs : c.trashPath.toList.head? = some '/')
    (hnone : hasRepeatedWhiteSpace c.trashPath.toList = false) : place c = c.trashPath := by
  obtain ⟨hentry, htyped⟩ := h.normalize_entry habs hnone
  have hres := (hall _ _ htyped).2.2 (.inr ⟨['x'], hentry.symm⟩)
  rcases (isReserved_eq_true hroot).1 hres with heq | hprefix
  · -- then the trash is created at the entry
    unfold place Config.trashParent Config.trashName
    rw [← heq, Path.name_join_of_isComponent _ (by decide), Path.join_parent_join (by decide)]
  · rw [hentry] at hprefix
    refine h.place_eq_of_prefix ?_
    rcases List.prefix_concat_iff.1 hprefix with hx | hprefix
    · exact absurd (List.append_singleton_inj.1 hx).2 (by decide)
    · rcases List.prefix_concat_iff.1 hprefix with hsame | hprefix
      · have hsame : c.trashPath.toList = (place c).toList := List.append_cancel_right hsame
        simp only [hsame, List.prefix_rfl]
      · exact (List.prefix_append _ _).trans hprefix

end

/-- **The trash is recognised** by every path that can be typed exactly if the setting is spelled as
the path where the trash is created, or is one that cannot be typed at all. -/
theorem recognised_iff {d : Config.Draft} {c : Config} (h : d.build = .ok c) :
    Recognised c ↔
      place c = c.trashPath ∨ hasRepeatedWhiteSpace c.trashPath.toList = true := by
  have hbelow := isBelowRoot_of_build h
  obtain ⟨base, before, last, hspelled⟩ := exists_spelled hbelow
  have hroot : c.trashPath ≠ Path.root := by
    intro hroot
    rw [hroot] at hbelow
    exact absurd hbelow (by decide)
  constructor
  · intro hall
    cases hrep : hasRepeatedWhiteSpace c.trashPath.toList with
    | true => exact .inr rfl
    | false => exact .inl (hspelled.place_eq hroot hall (isAbsolute_of_isBelowRoot hbelow) hrep)
  · rintro (heq | hrep)
    · exact recognised_of_place_eq hroot heq
    · exact hspelled.recognised hroot hrep

/-- A setting without separators that could be left out is recognised. -/
theorem recognised_iff_systemBin :
    ∃ c, Config.Draft.build { trashPath := some "/system/bin" } = .ok c ∧ Recognised c :=
  ⟨_, rfl, (recognised_iff (d := { trashPath := some "/system/bin" }) rfl).2
    (.inl (by decide))⟩

/-- The trash is created at `/bin`, but what is there is not taken for the trash. -/
theorem trailing_separator_not_recognised :
    ∃ c, Config.Draft.build { trashPath := some "/bin/" } = .ok c ∧
      Path.normalize "/bin" = .ok "/bin" ∧ place c = "/bin" ∧ viewKind c "/bin" = .normal ∧
      isReserved c "/bin" = false ∧ ¬ Recognised c := by
  have hplace : Path.join (Path.parent "/bin/") (Path.name "/bin/") = "/bin" := by decide
  have hview : ¬ "/bin" = "/bin/" := by decide
  refine ⟨_, rfl, by decide, hplace, if_neg hview, by decide, fun h => ?_⟩
  have hiff := (h "/bin" "/bin" (by decide)).1
  exact hview (viewKind_eq_trash.1 (hiff.2 hplace.symm))

end CloudDrive.Trash
