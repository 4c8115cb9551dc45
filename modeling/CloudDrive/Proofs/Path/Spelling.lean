import CloudDrive.Proofs.Path.Canonical
import Mathlib.Data.List.TakeWhile

/-!
# Paths of any spelling

What is known of paths that need not be canonical, and of names that need not be components.

* `join_parent_join`: only the name of an entry is lost with its parent's spelling.
* `isComponent_name_iff`, `isComponent_name_rebase`: which paths have a name.
* `isWithin_top`, `isWithin_join_top`: which paths lie within a directory of the root.
-/

namespace CloudDrive.Path

/-! ## Names -/

theorem not_mem_name (p : String) : '/' ∉ (name p).toList := by
  intro h
  rw [toList_name, List.mem_reverse] at h
  simpa [isSeparator] using List.mem_takeWhile_imp h

/-- What stands before the first separator of a text. -/
def firstPiece (text : String) : String :=
  String.ofList (text.toList.takeWhile (! isSeparator ·))

theorem all_ne_separator {n : String} (h : '/' ∉ n.toList) :
    ∀ c ∈ n.toList, (! isSeparator c) = true := by
  intro c hc
  cases hs : isSeparator c with
  | false => rfl
  | true => exact absurd (isSeparator_iff.1 hs ▸ hc) h

theorem firstPiece_of_not_mem {n : String} (h : '/' ∉ n.toList) : firstPiece n = n := by
  unfold firstPiece
  rw [List.takeWhile_eq_self_iff.2 (all_ne_separator h), String.ofList_toList]

/-! ## Parents -/

/-- Does the path stand for the root? -/
def SpellsRoot (path : String) : Prop := stem path.toList = []

theorem exists_append_stem (l : List Char) :
    ∃ w, l = stem l ++ w ∧ ∀ c ∈ w, isSeparator c = true := by
  refine ⟨(l.reverse.takeWhile isSeparator).reverse, ?_, fun c hc => ?_⟩
  · have h := List.takeWhile_append_dropWhile (p := isSeparator) (l := l.reverse)
    simp only [stem, Text.dropEndWhile]
    rw [← List.reverse_append, h, List.reverse_reverse]
  · exact List.mem_takeWhile_imp (List.mem_reverse.1 hc)

theorem stem_stem (l : List Char) : stem (stem l) = stem l := by
  obtain ⟨w, hl, hw⟩ := exists_append_stem l
  calc stem (stem l) = stem (stem l ++ w) := (Text.dropEndWhile_append_of_all hw).symm
    _ = stem l := by rw [← hl]

theorem stem_join (d : String) {n : String} (hn : IsComponent n) :
    stem (join d n).toList = stem d.toList ++ '/' :: n.toList := by
  obtain ⟨l, c, hl, hc⟩ := hn.last
  rw [toList_join, hl, ← List.cons_append, ← List.append_assoc]
  exact Text.dropEndWhile_of_last hc

/-- The directory of an entry, less the separators at its end. -/
theorem stem_parent_join {d n : String} (hn : IsComponent n) :
    stem (parent (join d n)).toList = stem d.toList := by
  have hbefore : beforeName (join d n).toList = stem d.toList := by
    unfold beforeName
    rw [stem_join d hn, List.reverse_append, List.reverse_cons, List.append_assoc,
      List.dropWhile_append_of_pos fun c hc =>
        all_ne_separator hn.2 c (List.mem_reverse.1 hc)]
    simp [isSeparator]
  rw [toList_parent, hbefore]
  split
  · next h => rw [List.isEmpty_iff.1 h]; rfl
  · exact stem_stem _

theorem name_join_of_isComponent (d : String) {n : String} (hn : IsComponent n) :
    name (join d n) = n := by
  refine String.toList_injective ?_
  rw [toList_name, stem_join d hn, List.reverse_append, List.reverse_cons, List.append_assoc,
    List.takeWhile_append_of_pos fun c hc => all_ne_separator hn.2 c (List.mem_reverse.1 hc)]
  simp [isSeparator]

theorem join_parent_join {d n : String} (hn : IsComponent n) (m : String) :
    join (parent (join d n)) m = join d m := by
  rw [join, stem_parent_join hn, ← join]

/-! ## Names of any path -/

theorem spellsRoot_iff {p : String} : SpellsRoot p ↔ ∀ c ∈ p.toList, isSeparator c = true := by
  simp [SpellsRoot, stem, Text.dropEndWhile]

/-- Only a path that stands for the root has no name. -/
theorem isComponent_name_iff {p : String} : IsComponent (name p) ↔ ¬ SpellsRoot p := by
  constructor
  · intro h hroot
    refine h.1 (String.toList_eq_nil_iff.1 ?_)
    rw [toList_name, show stem p.toList = [] from hroot]
    rfl
  · refine fun h => ⟨fun hname => h ?_, not_mem_name p⟩
    -- the last character that is left of the path belongs to its name
    have htake : (stem p.toList).reverse.takeWhile (! isSeparator ·) = [] := by
      rw [← List.reverse_eq_nil_iff, ← toList_name, hname]
      rfl
    have hhead := List.head?_dropWhile_not isSeparator p.toList.reverse
    have hstem : p.toList.reverse.dropWhile isSeparator = (stem p.toList).reverse := by
      simp [stem, Text.dropEndWhile]
    rw [hstem] at hhead
    cases hrest : (stem p.toList).reverse with
    | nil => exact List.reverse_eq_nil_iff.1 hrest
    | cons c rest =>
      rw [hrest] at htake hhead
      rw [List.takeWhile_cons_of_pos (by simpa using hhead)] at htake
      cases htake

theorem isComponent_name_rebase {p q source target : String}
    (h : rebase p source target = some q) (ht : IsComponent (name target)) :
    IsComponent (name q) := by
  unfold rebase at h
  split at h
  · exact Option.some.inj h ▸ ht
  · split at h
    · obtain rfl := Option.some.inj h
      rw [isComponent_name_iff, spellsRoot_iff] at ht ⊢
      rw [String.toList_ofList]
      obtain ⟨w, hw, hsep⟩ := exists_append_stem target.toList
      refine fun hall => ht fun c hc => ?_
      rw [hw] at hc
      exact (List.mem_append.1 hc).elim (fun hc => hall c (List.mem_append_left _ hc)) (hsep c)
    · cases h

/-! ## Directories of the root -/

theorem takeWhile_append_separator (x : List Char) {w : List Char}
    (hw : ∀ c ∈ w.head?, isSeparator c = true) :
    (x ++ w).takeWhile (! isSeparator ·) = x.takeWhile (! isSeparator ·) := by
  induction x with
  | nil =>
    cases w with
    | nil => rfl
    | cons c w => simp [hw c rfl]
  | cons c x ih => simp only [List.cons_append, List.takeWhile_cons, ih]

/-- A path lies within a directory of the root exactly if it begins with its name. -/
theorem isWithin_top {p n : String} (hn : IsComponent n) :
    isWithin p (root ++ n) = true ↔
      ∃ rest, p.toList = '/' :: rest ∧ rest.takeWhile (! isSeparator ·) = n.toList := by
  have hne : root ++ n ≠ root := by
    intro h
    have h := congrArg String.toList h
    simp only [String.toList_append] at h
    exact hn.1 (String.toList_eq_nil_iff.1 (List.append_right_eq_self.1 h))
  have htop : (root ++ n).toList = '/' :: n.toList := by simp [root]
  unfold isWithin
  rw [if_neg hne, Bool.or_eq_true, beq_iff_eq, List.isPrefixOf_iff_prefix, htop]
  constructor
  · rintro (rfl | ⟨w, hw⟩)
    · exact ⟨n.toList, htop, List.takeWhile_eq_self_iff.2 (all_ne_separator hn.2)⟩
    · refine ⟨n.toList ++ '/' :: w, by simpa using hw.symm, ?_⟩
      rw [takeWhile_append_separator _ (by rintro c ⟨⟩; rfl)]
      exact List.takeWhile_eq_self_iff.2 (all_ne_separator hn.2)
  · rintro ⟨rest, hp, hrest⟩
    have hsplit := List.takeWhile_append_dropWhile (p := (! isSeparator ·)) (l := rest)
    cases hd : rest.dropWhile (! isSeparator ·) with
    | nil =>
      left
      rw [hd, List.append_nil, hrest] at hsplit
      exact String.toList_inj.1 (by rw [hp, htop, hsplit])
    | cons c w =>
      right
      have hc := List.head?_dropWhile_not (! isSeparator ·) rest
      rw [hd] at hc hsplit
      have hc : c = '/' := isSeparator_iff.1 (by simpa using hc)
      refine ⟨w, ?_⟩
      rw [hp, ← hsplit, hrest, hc]
      simp

/-- **The path of an entry** lies within a directory of the root exactly if that of its directory
does, or if the entry is one of the root and its name begins with that of the directory. -/
theorem isWithin_join_top {d m n : String} (hn : IsComponent n) :
    isWithin (join d m) (root ++ n) = true ↔
      isWithin d (root ++ n) = true ∨ SpellsRoot d ∧ firstPiece m = n := by
  obtain ⟨w, hd, hw⟩ := exists_append_stem d.toList
  have hne : n.toList ≠ [] := fun h => hn.1 (String.toList_eq_nil_iff.1 h)
  have hfirst : firstPiece m = n ↔ m.toList.takeWhile (! isSeparator ·) = n.toList := by
    unfold firstPiece
    constructor
    · rintro rfl
      simp
    · intro h
      rw [h, String.ofList_toList]
  rw [isWithin_top hn, isWithin_top hn, toList_join, hfirst]
  unfold SpellsRoot
  cases hstem : stem d.toList with
  | nil =>
    rw [hstem, List.nil_append] at hd
    have hnot : ¬ ∃ rest, d.toList = '/' :: rest ∧
        rest.takeWhile (! isSeparator ·) = n.toList := by
      rintro ⟨rest, hrest, htake⟩
      refine hne (htake ▸ ?_)
      have hsep := takeWhile_append_separator [] (w := rest) fun c hc => hw c ?_
      · exact hsep
      · rw [← hd, hrest]
        exact List.mem_cons_of_mem _ (List.mem_of_mem_head? hc)
    simp only [hnot, false_or, true_and, List.nil_append, List.cons.injEq]
    exact ⟨fun ⟨rest, hrest, h⟩ => hrest ▸ h, fun h => ⟨m.toList, rfl, h⟩⟩
  | cons c cs =>
    rw [hstem] at hd
    rw [hd]
    have hleft := takeWhile_append_separator cs (w := '/' :: m.toList) (by rintro c ⟨⟩; rfl)
    have hright := takeWhile_append_separator cs (w := w) fun c hc =>
      hw c (List.mem_of_mem_head? hc)
    simp only [List.cons_append, List.cons.injEq, reduceCtorEq, false_and, or_false]
    constructor
    · rintro ⟨rest, ⟨hc, rfl⟩, h⟩
      exact ⟨_, ⟨hc, rfl⟩, by rw [hright, ← hleft, h]⟩
    · rintro ⟨rest, ⟨hc, rfl⟩, h⟩
      exact ⟨_, ⟨hc, rfl⟩, by rw [hleft, ← hright, h]⟩

end CloudDrive.Path
