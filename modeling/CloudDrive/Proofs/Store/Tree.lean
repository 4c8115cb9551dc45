import CloudDrive.Proofs.Path.Canonical
import CloudDrive.Proofs.Relocation
import CloudDrive.Store

/-!
# Tree-shaped catalogs

A catalog is tree-shaped (`Catalog.IsTree`) when every entry lies at a canonical path below the root,
in a directory that is stored or is the root.

* `IsTree.isDirectory_above`: what lies above an entry is a directory.
* `IsTree.insert`, `IsTree.eraseWithin`, `IsTree.move`: the changes of the store keep the shape.
* `find?_move_source`, `find?_move_target`, `find?_move_apart`: what lies where after a move that
  the store accepts (`Catalog.Movable`).
* `mem_children_move`, `mem_children_move_target`: what the directories hold then.
-/

namespace CloudDrive.Store.Catalog

open Path (Canonical IsComponent)

/-! ## Entries and look-up -/

theorem find?_of_mem {c : Catalog} {e : Entry} (h : e ∈ c.entries) : c.find? e.path = some e := by
  have hs := c.sorted
  unfold find?
  revert h hs
  induction c.entries with
  | nil => simp
  | cons x l ih =>
    intro h hs
    rw [List.pairwise_cons] at hs
    rcases List.mem_cons.1 h with rfl | h
    · simp
    · have hne : x.path ≠ e.path := String.ne_of_lt (hs.1 e h)
      rw [List.find?_cons_of_neg (by simpa using hne)]
      exact ih h hs.2

theorem path_of_find? {c : Catalog} {p : String} {e : Entry} (h : c.find? p = some e) :
    e.path = p := by
  simpa using List.find?_some h

theorem mem_of_find? {c : Catalog} {p : String} {e : Entry} (h : c.find? p = some e) :
    e ∈ c.entries :=
  List.mem_of_find?_eq_some h

theorem mem_entries {c : Catalog} {e : Entry} : e ∈ c.entries ↔ c.find? e.path = some e :=
  ⟨find?_of_mem, mem_of_find?⟩

theorem nodup_entries (c : Catalog) : c.entries.Nodup :=
  c.sorted.imp fun h e => String.ne_of_lt h (congrArg Entry.path e)

theorem nodup_children (c : Catalog) (directory : String) : (c.children directory).Nodup :=
  c.nodup_entries.filter _

theorem mem_children {c : Catalog} {directory : String} {e : Entry} :
    e ∈ c.children directory ↔
      c.find? e.path = some e ∧ Path.parent e.path = directory ∧ e.path ≠ directory := by
  simp [children, mem_entries]

/-! ## The shape -/

/-- The root, or a directory that is stored. -/
def IsDirectory (c : Catalog) (path : String) : Prop :=
  path = Path.root ∨ ∃ e, c.find? path = some e ∧ e.isDirectory = true

/-- Every entry lies at a canonical path below the root, in a directory. -/
structure IsTree (c : Catalog) : Prop where
  canonical : ∀ p e, c.find? p = some e → Canonical p
  ne_root : ∀ p e, c.find? p = some e → p ≠ Path.root
  parent : ∀ p e, c.find? p = some e → c.IsDirectory (Path.parent p)

/-- Every entry has the last component of its path as its name. -/
def Named (c : Catalog) : Prop := ∀ p e, c.find? p = some e → e.name = Path.name p

/-- A tree whose entries have the names that their paths end with. -/
structure WellShaped (c : Catalog) : Prop where
  tree : c.IsTree
  named : c.Named

theorem isDirectory_root (c : Catalog) : c.IsDirectory Path.root := .inl rfl

theorem ne_root_of_contains {c : Catalog} {p : String} (h : c.contains p = false) :
    p ≠ Path.root := by
  rintro rfl
  simp [Catalog.contains] at h

theorem IsDirectory.contains {c : Catalog} {p : String} (h : c.IsDirectory p) :
    c.contains p = true := by
  rcases h with rfl | ⟨e, he, -⟩
  · simp [Catalog.contains]
  · simp [Catalog.contains, he]

section
variable {c : Catalog} (hc : c.IsTree)
include hc

theorem IsTree.canonical_of_isDirectory {p : String} (h : c.IsDirectory p) : Canonical p := by
  rcases h with rfl | ⟨e, he, -⟩
  · exact Path.canonical_root
  · exact hc.canonical p e he

/-- **What lies above an entry is a directory.** -/
theorem IsTree.isDirectory_above {p a : String} {e : Entry} (hp : c.find? p = some e)
    (ha : Canonical a) (hw : Path.isWithin p a = true) (hne : p ≠ a) : c.IsDirectory a := by
  have hcan := hc.canonical p e hp
  revert e
  refine Canonical.induct (motive := fun p => Path.isWithin p a = true → p ≠ a →
    ∀ {e : Entry}, c.find? p = some e → c.IsDirectory a) ?_ ?_ hcan hw hne
  · intro _ _ e he
    exact absurd rfl (hc.ne_root _ e he)
  · intro d n hd hn ih hw hne e he
    have hpar := hc.parent _ e he
    rw [Path.parent_join hd hn] at hpar
    have hda := ((Path.isWithin_join hd hn ha).1 hw).resolve_left hne
    by_cases hdne : d = a
    · exact hdne ▸ hpar
    · rcases hpar with rfl | ⟨e', he', -⟩
      · exact ha.eq_root hda ▸ c.isDirectory_root
      · exact ih hda hdne he'

/-- What lies above something that exists exists. -/
theorem IsTree.contains_above {p a : String} (hp : c.contains p = true) (ha : Canonical a)
    (hw : Path.isWithin p a = true) : c.contains a = true := by
  simp only [Catalog.contains, Bool.or_eq_true, beq_iff_eq, Option.isSome_iff_exists] at hp
  rcases hp with rfl | ⟨e, he⟩
  · exact ha.eq_root hw ▸ (c.isDirectory_root).contains
  · by_cases hne : p = a
    · subst hne
      simp [Catalog.contains, he]
    · exact (hc.isDirectory_above he ha hw hne).contains

theorem IsTree.find?_eq_none_beneath {p a : String} {e : Entry} (ha : c.find? a = some e)
    (hfile : e.isFile = true) (hw : Path.isWithin p a = true) (hne : p ≠ a) :
    c.find? p = none := by
  cases hp : c.find? p with
  | none => rfl
  | some x =>
    rcases hc.isDirectory_above hp (hc.canonical a e ha) hw hne with rfl | ⟨e', he', hdir⟩
    · exact absurd rfl (hc.ne_root _ e ha)
    · obtain rfl := Option.some.inj (ha.symm.trans he')
      simp only [Entry.isFile, Entry.isDirectory, beq_iff_eq] at hfile hdir
      rw [hfile] at hdir
      cases hdir

/-- Where nothing is stored, nothing is stored beneath. -/
theorem IsTree.find?_eq_none_within {p a : String} (ha : Canonical a) (hroot : a ≠ Path.root)
    (hnone : c.find? a = none) (hw : Path.isWithin p a = true) : c.find? p = none := by
  cases hp : c.find? p with
  | none => rfl
  | some e =>
    have habove := hc.contains_above (by simp [Catalog.contains, hp]) ha hw
    simp [Catalog.contains, hroot, hnone] at habove

end

theorem WellShaped.eq_join_of_mem_children {c : Catalog} (hc : c.WellShaped) {d : String}
    {e : Entry} (he : e ∈ c.children d) : Path.IsComponent e.name ∧ e.path = Path.join d e.name := by
  obtain ⟨hf, rfl, -⟩ := mem_children.1 he
  have hp := hc.tree.canonical _ e hf
  have hne := hc.tree.ne_root _ e hf
  rw [hc.named _ e hf]
  exact ⟨hp.isComponent_name hne, (hp.join_parent_name hne).symm⟩

theorem isDirectory_iff {c : Catalog} {p : String} :
    c.IsDirectory p ↔ p = Path.root ∨ (c.find? p).any (·.isDirectory) = true := by
  simp [IsDirectory, Option.any_eq_true]

instance (c : Catalog) (p : String) : Decidable (c.IsDirectory p) :=
  decidable_of_iff _ isDirectory_iff.symm

theorem wellShaped_iff {c : Catalog} :
    c.WellShaped ↔ ∀ e ∈ c.entries, Canonical e.path ∧ e.path ≠ Path.root ∧
      c.IsDirectory (Path.parent e.path) ∧ e.name = Path.name e.path := by
  constructor
  · rintro ⟨ht, hn⟩ e he
    have hf := find?_of_mem he
    exact ⟨ht.canonical _ e hf, ht.ne_root _ e hf, ht.parent _ e hf, hn _ e hf⟩
  · intro h
    have h' : ∀ p e, c.find? p = some e → Canonical p ∧ p ≠ Path.root ∧
        c.IsDirectory (Path.parent p) ∧ e.name = Path.name p := fun p e hf => by
      obtain rfl := path_of_find? hf
      exact h e (mem_of_find? hf)
    exact ⟨⟨fun p e hf => (h' p e hf).1, fun p e hf => (h' p e hf).2.1,
      fun p e hf => (h' p e hf).2.2.1⟩, fun p e hf => (h' p e hf).2.2.2⟩

instance (c : Catalog) : Decidable c.WellShaped := decidable_of_iff _ wellShaped_iff.symm

/-! ## Insertion and removal -/

theorem isDirectory_insert {c : Catalog} {e : Entry} {p : String} (h : c.IsDirectory p)
    (hne : p ≠ e.path) : (c.insert e).IsDirectory p := by
  rcases h with rfl | ⟨x, hx, hd⟩
  · exact isDirectory_root _
  · exact .inr ⟨x, by rw [find?_insert, if_neg hne, hx], hd⟩

/-- An entry that is put into a directory, and replaces no directory, keeps the shape. -/
theorem IsTree.insert {c : Catalog} (hc : c.IsTree) {e : Entry} (hp : Canonical e.path)
    (hne : e.path ≠ Path.root) (hpar : c.IsDirectory (Path.parent e.path))
    (hold : ∀ x, c.find? e.path = some x → x.isDirectory = false) : (c.insert e).IsTree := by
  -- no directory lies at the path of the new entry
  have hnot : ∀ {d}, c.IsDirectory d → d ≠ e.path := by
    rintro d (rfl | ⟨x, hx, hd⟩) hde
    · exact hne hde.symm
    · rw [hold x (hde ▸ hx)] at hd
      cases hd
  refine ⟨fun p x h => ?_, fun p x h => ?_, fun p x h => ?_⟩ <;> rw [find?_insert] at h <;>
    split at h
  · next hpe => exact hpe ▸ hp
  · exact hc.canonical p x h
  · next hpe => exact hpe ▸ hne
  · exact hc.ne_root p x h
  · next hpe =>
    subst hpe
    exact isDirectory_insert hpar (hnot hpar)
  · exact isDirectory_insert (hc.parent p x h) (hnot (hc.parent p x h))

theorem Named.insert {c : Catalog} (hc : c.Named) {e : Entry} (he : e.name = Path.name e.path) :
    (c.insert e).Named := by
  intro p x h
  rw [find?_insert] at h
  split at h
  · next hpe =>
    subst hpe
    exact Option.some.inj h ▸ he
  · exact hc p x h

theorem isDirectory_eraseWithin {c : Catalog} {p gone : String} (hg : Canonical gone)
    (hne : gone ≠ Path.root) :
    (c.eraseWithin gone).IsDirectory p ↔ c.IsDirectory p ∧ Path.isWithin p gone = false := by
  constructor
  · rintro (rfl | ⟨e, he, hd⟩)
    · exact ⟨c.isDirectory_root, Bool.eq_false_iff.2 fun h => hne (hg.eq_root h)⟩
    · rw [find?_eraseWithin] at he
      split at he
      · cases he
      · next h => exact ⟨.inr ⟨e, he, hd⟩, by simpa using h⟩
  · rintro ⟨rfl | ⟨e, he, hd⟩, hw⟩
    · exact isDirectory_root _
    · exact .inr ⟨e, by rw [find?_eraseWithin, hw, if_neg (by simp), he], hd⟩

theorem IsTree.eraseWithin {c : Catalog} (hc : c.IsTree) {gone : String} (hg : Canonical gone)
    (hne : gone ≠ Path.root) : (c.eraseWithin gone).IsTree := by
  have hold : ∀ {p e}, (c.eraseWithin gone).find? p = some e →
      c.find? p = some e ∧ Path.isWithin p gone = false := by
    intro p e h
    rw [find?_eraseWithin] at h
    split at h
    · cases h
    · next hw => exact ⟨h, by simpa using hw⟩
  refine ⟨fun p e h => hc.canonical p e (hold h).1, fun p e h => hc.ne_root p e (hold h).1,
    fun p e h => ?_⟩
  obtain ⟨hp, hw⟩ := hold h
  refine (isDirectory_eraseWithin hg hne).2 ⟨hc.parent p e hp, Bool.eq_false_iff.2 fun hpw => ?_⟩
  rw [(Path.isWithin_iff_parent (hc.canonical p e hp) (hc.ne_root p e hp) hg).2 (.inr hpw)] at hw
  cases hw

theorem mem_children_insert {c : Catalog} {e x : Entry} {key : String}
    (hkey : key ≠ Path.parent e.path) : x ∈ (c.insert e).children key ↔ x ∈ c.children key := by
  rw [mem_children, mem_children, find?_insert]
  refine and_congr_left fun h => ?_
  have hne : x.path ≠ e.path := fun hx => hkey (hx ▸ h.1.symm)
  rw [if_neg hne]

/-! ### Several removals -/

/-- The entries at some paths taken out one after another, each with all beneath it. -/
def eraseAllWithin (c : Catalog) (gone : List String) : Catalog := gone.foldl eraseWithin c

theorem find?_eraseAllWithin (c : Catalog) (gone : List String) (p : String) :
    (c.eraseAllWithin gone).find? p =
      if gone.any (Path.isWithin p ·) then none else c.find? p := by
  unfold eraseAllWithin
  induction gone generalizing c with
  | nil => simp
  | cons g gone ih =>
    rw [List.foldl_cons, ih, find?_eraseWithin, List.any_cons]
    cases Path.isWithin p g <;> simp

theorem mem_children_eraseAllWithin {c : Catalog} {gone : List String} {key : String} {x : Entry} :
    x ∈ (c.eraseAllWithin gone).children key ↔
      x ∈ c.children key ∧ gone.any (Path.isWithin x.path ·) = false := by
  rw [mem_children, mem_children, find?_eraseAllWithin]
  cases gone.any (Path.isWithin x.path ·) <;> simp

section
variable {c : Catalog} (hc : c.IsTree) {gone : List String}
  (hg : ∀ g ∈ gone, (c.find? g).isSome = true)
include hc hg

theorem IsTree.ne_root_of_stored : ∀ g ∈ gone, Canonical g ∧ g ≠ Path.root := by
  intro g h
  obtain ⟨e, he⟩ := Option.isSome_iff_exists.1 (hg g h)
  exact ⟨hc.canonical g e he, hc.ne_root g e he⟩

theorem isDirectory_eraseAllWithin {p : String} :
    (c.eraseAllWithin gone).IsDirectory p ↔
      c.IsDirectory p ∧ gone.any (Path.isWithin p ·) = false := by
  have hgone := hc.ne_root_of_stored hg
  unfold eraseAllWithin
  clear hg
  induction gone generalizing c with
  | nil => simp
  | cons g gone ih =>
    obtain ⟨hgc, hgr⟩ := hgone g List.mem_cons_self
    have hrest := ih (hc.eraseWithin hgc hgr) fun x hx => hgone x (List.mem_cons_of_mem _ hx)
    rw [List.foldl_cons, List.any_cons, Bool.or_eq_false_iff, ← and_assoc,
      ← isDirectory_eraseWithin hgc hgr]
    exact hrest

theorem IsTree.eraseAllWithin : (c.eraseAllWithin gone).IsTree := by
  have hgone := hc.ne_root_of_stored hg
  unfold Catalog.eraseAllWithin
  clear hg
  induction gone generalizing c with
  | nil => exact hc
  | cons g gone ih =>
    obtain ⟨hgc, hgr⟩ := hgone g List.mem_cons_self
    exact ih (hc.eraseWithin hgc hgr) fun x hx => hgone x (List.mem_cons_of_mem _ hx)

end

theorem Named.eraseAllWithin {c : Catalog} (hc : c.Named) (gone : List String) :
    (c.eraseAllWithin gone).Named := by
  intro p e h
  rw [find?_eraseAllWithin] at h
  split at h
  · cases h
  · exact hc p e h

/-! ## Moving a subtree -/

/-- The store accepts the move of `source` to `destination`: the source is stored, the destination is
free, does not lie within the source, and lies in a directory. -/
structure Movable (c : Catalog) (source destination : String) : Prop where
  stored : (c.find? source).isSome = true
  canonical : Canonical destination
  free : c.contains destination = false
  apart : Path.isWithin destination source = false
  parent : c.IsDirectory (Path.parent destination)

theorem relocates_carry (source destination : String) :
    Relocates find? (carry source destination) (Path.rebase · source destination)
      (fun q e => e.relocated q) := by
  intro c x p
  unfold carry
  cases hx : c.find? x with
  | none => simp
  | some e =>
    cases hq : Path.rebase x source destination with
    | none => simp [hq]
    | some q => simp [hq]

theorem mem_moved {c : Catalog} {s x : String} :
    x ∈ c.paths.filter (Path.isWithin · s) ↔
      (c.find? x).isSome = true ∧ Path.isWithin x s = true := by
  have hx : x ∈ c.paths ↔ (c.find? x).isSome = true := by
    unfold paths
    rw [List.mem_map, Option.isSome_iff_exists]
    exact ⟨fun ⟨e, he, hp⟩ => ⟨e, hp ▸ find?_of_mem he⟩,
      fun ⟨e, he⟩ => ⟨e, mem_of_find? he, path_of_find? he⟩⟩
  rw [List.mem_filter, hx]

section
variable {c : Catalog} (hc : c.IsTree) {s d : String} (hm : c.Movable s d)
include hc hm

theorem Movable.canonical_source : Canonical s := by
  obtain ⟨e, he⟩ := Option.isSome_iff_exists.1 hm.stored
  exact hc.canonical s e he

theorem Movable.source_ne_root : s ≠ Path.root := by
  obtain ⟨e, he⟩ := Option.isSome_iff_exists.1 hm.stored
  exact hc.ne_root s e he

omit hc in
theorem Movable.destination_ne_root : d ≠ Path.root := ne_root_of_contains hm.free

theorem Movable.contains_eq_false {q : String} (hw : Path.isWithin q d = true) :
    c.contains q = false := by
  rw [Bool.eq_false_iff]
  intro hq
  have := hc.contains_above hq hm.canonical hw
  rw [hm.free] at this
  cases this

theorem Movable.find?_eq_none {q : String} (hw : Path.isWithin q d = true) : c.find? q = none := by
  have := hm.contains_eq_false hc hw
  simp only [Catalog.contains, Bool.or_eq_false_iff] at this
  simpa using this.2

theorem Movable.not_isDirectory {q : String} (hw : Path.isWithin q d = true) :
    ¬ c.IsDirectory q := fun h => by
  have := hm.contains_eq_false hc hw
  rw [h.contains] at this
  cases this

theorem Movable.disjoint {q : String} (hq : Canonical q) (hs : Path.isWithin q s = true) :
    Path.isWithin q d = false := by
  rw [Bool.eq_false_iff]
  intro hd
  rcases Path.isWithin_total hq (hm.canonical_source hc) hm.canonical hs hd with h | h
  · have := hm.find?_eq_none hc h
    have hst := hm.stored
    rw [this] at hst
    cases hst
  · rw [hm.apart] at h
    cases h

/-- The new path of what is moved is not within the source. -/
theorem not_mem_moved_of_target {x q : String} (hx : x ∈ c.paths.filter (Path.isWithin · s))
    (hq : Path.rebase x s d = some q) : q ∉ c.paths.filter (Path.isWithin · s) := by
  intro hmem
  obtain ⟨hx, -⟩ := mem_moved.1 hx
  obtain ⟨-, hqs⟩ := mem_moved.1 hmem
  obtain ⟨e, he⟩ := Option.isSome_iff_exists.1 hx
  have hxc := hc.canonical x e he
  have hs := hm.canonical_source hc
  have := hm.disjoint hc (hxc.rebase hs hm.canonical hq) hqs
  rw [Path.isWithin_rebase hxc hs hm.canonical hq] at this
  cases this

theorem find?_move_source {p : String} (hp : Canonical p) (hw : Path.isWithin p s = true) :
    (c.move s d).find? p = none := by
  have hr := relocates_carry s d
  have ht : ∀ x ∈ c.paths.filter (Path.isWithin · s), Path.rebase x s d ≠ some p := by
    intro x hx hq
    obtain ⟨hx, -⟩ := mem_moved.1 hx
    obtain ⟨e, he⟩ := Option.isSome_iff_exists.1 hx
    have := hm.disjoint hc hp hw
    rw [Path.isWithin_rebase (hc.canonical x e he) (hm.canonical_source hc) hm.canonical hq] at this
    cases this
  unfold move
  by_cases hk : p ∈ c.paths.filter (Path.isWithin · s)
  · exact hr.get_foldl_of_mem c hk ht
  · rw [hr.get_foldl_of_not_mem c hk ht]
    rw [mem_moved] at hk
    simpa [hw] using hk

theorem find?_move_target {x q : String} (hx : Canonical x) (hq : Path.rebase x s d = some q) :
    (c.move s d).find? q = (c.find? x).map (·.relocated q) := by
  have hr := relocates_carry s d
  have hs := hm.canonical_source hc
  have hinj : ∀ y ∈ c.paths.filter (Path.isWithin · s), Path.rebase y s d = some q → y = x := by
    intro y hy hyq
    obtain ⟨hy, -⟩ := mem_moved.1 hy
    obtain ⟨e, he⟩ := Option.isSome_iff_exists.1 hy
    have h₁ := Path.rebase_rebase (hc.canonical y e he) hs hm.canonical hyq
    have h₂ := Path.rebase_rebase hx hs hm.canonical hq
    rw [h₁, Option.some.injEq] at h₂
    exact h₂
  have hxs := Path.isWithin_of_rebase hx hq
  unfold move
  cases he : c.find? x with
  | some e =>
    have hmem := mem_moved.2 ⟨by rw [he]; rfl, hxs⟩
    have hnodup : (c.paths.filter (Path.isWithin · s)).Nodup :=
      (List.pairwise_map.2 (c.sorted.imp String.ne_of_lt)).filter _
    exact hr.get_foldl_target hnodup c hmem he hq hinj
      fun y hy r hyr => not_mem_moved_of_target hc hm hy hyr
  | none =>
    have hqd := Path.isWithin_rebase hx hs hm.canonical hq
    rw [hr.get_foldl_of_not_mem]
    · simpa using hm.find?_eq_none hc hqd
    · rw [mem_moved, hm.find?_eq_none hc hqd]
      simp
    · intro y hy hyq
      have := hinj y hy hyq
      rw [mem_moved, this, he] at hy
      simp at hy

/-- A move touches nothing but the source and the destination. -/
theorem find?_move_apart {p : String} (hps : Path.isWithin p s = false)
    (hpd : Path.isWithin p d = false) : (c.move s d).find? p = c.find? p := by
  refine (relocates_carry s d).get_foldl_of_not_mem c ?_ ?_
  · rw [mem_moved, hps]
    simp
  · intro x hx hq
    obtain ⟨hx, -⟩ := mem_moved.1 hx
    obtain ⟨e, he⟩ := Option.isSome_iff_exists.1 hx
    rw [Path.isWithin_rebase (hc.canonical x e he) (hm.canonical_source hc) hm.canonical hq] at hpd
    cases hpd

theorem canonical_of_find?_move {p : String} {e : Entry} (h : (c.move s d).find? p = some e) :
    Canonical p := by
  by_cases hk : p ∈ c.paths.filter (Path.isWithin · s)
  · obtain ⟨x, hx⟩ := Option.isSome_iff_exists.1 (mem_moved.1 hk).1
    exact hc.canonical p x hx
  · by_cases ht : ∀ x ∈ c.paths.filter (Path.isWithin · s), Path.rebase x s d ≠ some p
    · unfold move at h
      rw [(relocates_carry s d).get_foldl_of_not_mem c hk ht] at h
      exact hc.canonical p e h
    · push Not at ht
      obtain ⟨x, hx, hq⟩ := ht
      obtain ⟨y, hy⟩ := Option.isSome_iff_exists.1 (mem_moved.1 hx).1
      exact (hc.canonical x y hy).rebase (hm.canonical_source hc) hm.canonical hq

/-- **What is stored after a move**: what lies apart from the source, and the copies. -/
theorem find?_move_eq_some {p : String} {e : Entry} :
    (c.move s d).find? p = some e ↔
      (Path.isWithin p s = false ∧ Path.isWithin p d = false ∧ c.find? p = some e) ∨
        ∃ x y, c.find? x = some y ∧ Path.rebase x s d = some p ∧ e = y.relocated p := by
  have hs := hm.canonical_source hc
  constructor
  · intro h
    have hp := canonical_of_find?_move hc hm h
    by_cases hps : Path.isWithin p s = true
    · rw [find?_move_source hc hm hp hps] at h
      cases h
    · by_cases hpd : Path.isWithin p d = true
      · obtain ⟨x, -, hx, -, hback⟩ := Path.exists_rebase hp hm.canonical hs hpd
        rw [find?_move_target hc hm hx hback, Option.map_eq_some_iff] at h
        obtain ⟨y, hy, rfl⟩ := h
        exact .inr ⟨x, y, hy, hback, rfl⟩
      · rw [Bool.not_eq_true] at hps hpd
        rw [find?_move_apart hc hm hps hpd] at h
        exact .inl ⟨hps, hpd, h⟩
  · rintro (⟨hps, hpd, h⟩ | ⟨x, y, hy, hq, rfl⟩)
    · rw [find?_move_apart hc hm hps hpd, h]
    · rw [find?_move_target hc hm (hc.canonical x y hy) hq, hy]
      rfl

/-- Where the parent of what is moved goes, if it is moved with it. -/
theorem rebase_parent {x p : String} (hx : Canonical x) (hne : x ≠ s)
    (hq : Path.rebase x s d = some p) :
    Path.rebase (Path.parent x) s d = some (Path.parent p) := by
  have hs := hm.canonical_source hc
  have hxs := Path.isWithin_of_rebase hx hq
  have hxr : x ≠ Path.root := by
    rintro rfl
    exact hne (hs.eq_root hxs).symm
  have hps := ((Path.isWithin_iff_parent hx hxr hs).1 hxs).resolve_left hne
  obtain ⟨q, hq', hqc, -⟩ := Path.exists_rebase hx.parent hs hm.canonical hps
  have hj := Path.rebase_join hx.parent (hx.isComponent_name hxr) hs hm.canonical hq'
  rw [hx.join_parent_name hxr, hq, Option.some.injEq] at hj
  rw [hj, Path.parent_join hqc (hx.isComponent_name hxr), hq']

omit hc in
theorem Movable.not_isWithin_parent {p : String} (hp : Canonical p)
    (hw : Path.isWithin (Path.parent p) d = true) : p ≠ d := by
  rintro rfl
  obtain ⟨b, n, hb, hn, hj⟩ := hp.eq_join hm.destination_ne_root
  rw [hj, Path.parent_join hb hn, Path.not_isWithin_join hb hn] at hw
  cases hw

theorem Movable.parent_apart :
    Path.isWithin (Path.parent d) s = false ∧ Path.isWithin (Path.parent d) d = false := by
  have hd := hm.canonical
  refine ⟨Bool.eq_false_iff.2 fun h => ?_, Bool.eq_false_iff.2 fun h => ?_⟩
  · have := (Path.isWithin_iff_parent hd hm.destination_ne_root (hm.canonical_source hc)).2 (.inr h)
    rw [hm.apart] at this
    cases this
  · exact hm.not_isWithin_parent hd h rfl

theorem isDirectory_move_apart {p : String} (hps : Path.isWithin p s = false)
    (hpd : Path.isWithin p d = false) : (c.move s d).IsDirectory p ↔ c.IsDirectory p := by
  unfold IsDirectory
  rw [find?_move_apart hc hm hps hpd]

theorem isDirectory_move_target {x q : String} (hx : Canonical x)
    (hq : Path.rebase x s d = some q) : (c.move s d).IsDirectory q ↔ c.IsDirectory x := by
  have hs := hm.canonical_source hc
  have hxr : x ≠ Path.root := by
    rintro rfl
    have hxs := Path.isWithin_of_rebase hx hq
    exact hm.source_ne_root hc (hs.eq_root hxs)
  have hqr : q ≠ Path.root := by
    rintro rfl
    have hqd := Path.isWithin_rebase hx hs hm.canonical hq
    exact hm.destination_ne_root (hm.canonical.eq_root hqd)
  unfold IsDirectory
  rw [find?_move_target hc hm hx hq]
  cases c.find? x <;> simp [hxr, hqr, Entry.isDirectory, Entry.relocated]

theorem IsTree.move : (c.move s d).IsTree := by
  refine ⟨fun p e h => canonical_of_find?_move hc hm h, fun p e h => ?_, fun p e h => ?_⟩
  · rcases (find?_move_eq_some hc hm).1 h with ⟨-, -, h⟩ | ⟨x, y, hy, hq, -⟩
    · exact hc.ne_root p e h
    · rintro rfl
      have hw := Path.isWithin_rebase (hc.canonical x y hy) (hm.canonical_source hc) hm.canonical hq
      exact hm.destination_ne_root (hm.canonical.eq_root hw)
  · rcases (find?_move_eq_some hc hm).1 h with ⟨hps, hpd, h⟩ | ⟨x, y, hy, hq, -⟩
    · have hp := hc.canonical p e h
      have above : ∀ {a}, Canonical a → Path.isWithin p a = false →
          Path.isWithin (Path.parent p) a = false := fun ha hpa => by
        rw [Bool.eq_false_iff] at hpa ⊢
        exact fun hw => hpa ((Path.isWithin_iff_parent hp (hc.ne_root p e h) ha).2 (.inr hw))
      exact (isDirectory_move_apart hc hm (above (hm.canonical_source hc) hps)
        (above hm.canonical hpd)).2 (hc.parent p e h)
    · have hx := hc.canonical x y hy
      by_cases hxs : x = s
      · subst hxs
        rw [Path.rebase_self, Option.some.injEq] at hq
        obtain ⟨h₁, h₂⟩ := hm.parent_apart hc
        exact hq ▸ (isDirectory_move_apart hc hm h₁ h₂).2 hm.parent
      · have hpar := rebase_parent hc hm hx hxs hq
        exact (isDirectory_move_target hc hm hx.parent hpar).2 (hc.parent x y hy)

theorem Named.move (hn : c.Named) : (c.move s d).Named := by
  intro p e h
  rcases (find?_move_eq_some hc hm).1 h with ⟨-, -, h⟩ | ⟨x, y, hy, hq, rfl⟩
  · exact hn p e h
  · rfl

theorem mem_children_move {key : String} (hks : Path.isWithin key s = false)
    (hkd : Path.isWithin key d = false) {e : Entry} :
    e ∈ (c.move s d).children key ↔
      (e ∈ c.children key ∧ e.path ≠ s) ∨
        (key = Path.parent d ∧ ∃ y, c.find? s = some y ∧ e = y.relocated d) := by
  have hs := hm.canonical_source hc
  rw [mem_children, find?_move_eq_some hc hm, mem_children]
  constructor
  · rintro ⟨⟨hps, -, h⟩ | ⟨x, y, hy, hq, he⟩, hpar, hne⟩
    · refine .inl ⟨⟨h, hpar, hne⟩, fun hes => ?_⟩
      rw [hes, Path.isWithin_refl hs] at hps
      cases hps
    · have hx := hc.canonical x y hy
      by_cases hxs : x = s
      · subst hxs
        rw [Path.rebase_self, Option.some.injEq] at hq
        exact .inr ⟨hq ▸ hpar.symm, y, hy, hq ▸ he⟩
      · have hpq := rebase_parent hc hm hx hxs hq
        have := Path.isWithin_rebase hx.parent hs hm.canonical hpq
        rw [hpar, hkd] at this
        cases this
  · rintro (⟨⟨h, hpar, hne⟩, hes⟩ | ⟨rfl, y, hy, rfl⟩)
    · have hp := hc.canonical _ e h
      have hpr := hc.ne_root _ e h
      refine ⟨.inl ⟨Bool.eq_false_iff.2 fun hw => ?_, Bool.eq_false_iff.2 fun hw => ?_, h⟩, hpar, hne⟩
      · have := ((Path.isWithin_iff_parent hp hpr hs).1 hw).resolve_left hes
        rw [hpar, hks] at this
        cases this
      · rw [hm.find?_eq_none hc hw] at h
        cases h
    · refine ⟨.inr ⟨s, y, hy, Path.rebase_self s d, rfl⟩, rfl, fun h => ?_⟩
      rw [← show d = Path.parent d from h, Path.isWithin_refl hm.canonical] at hkd
      cases hkd

/-- A directory that is moved takes its entries along. -/
theorem mem_children_move_target {k q : String} (hk : Canonical k)
    (hq : Path.rebase k s d = some q) {e : Entry} :
    e ∈ (c.move s d).children q ↔
      ∃ y ∈ c.children k, ∃ p, Path.rebase y.path s d = some p ∧ e = y.relocated p := by
  have hs := hm.canonical_source hc
  have hqd := Path.isWithin_rebase hk hs hm.canonical hq
  have hqc := hk.rebase hs hm.canonical hq
  simp only [mem_children]
  constructor
  · rintro ⟨h, hpar, hne⟩
    have hp := canonical_of_find?_move hc hm h
    rcases (find?_move_eq_some hc hm).1 h with ⟨-, hpd, -⟩ | ⟨x, y, hy, hx, he⟩
    · have := Path.isWithin_trans hp hqc hm.canonical (hpar ▸ Path.isWithin_parent hp) hqd
      rw [hpd] at this
      cases this
    · have hxc := hc.canonical x y hy
      obtain rfl := path_of_find? hy
      have hxs : y.path ≠ s := by
        rintro hxs
        rw [hxs, Path.rebase_self, Option.some.injEq] at hx
        exact hm.not_isWithin_parent hp (hpar ▸ hqd) hx.symm
      have hback := Path.rebase_rebase hxc.parent hs hm.canonical (rebase_parent hc hm hxc hxs hx)
      rw [hpar, Path.rebase_rebase hk hs hm.canonical hq, Option.some.injEq] at hback
      refine ⟨y, ⟨hy, hback.symm, fun hyk => ?_⟩, _, hx, he⟩
      rw [hyk, hq, Option.some.injEq] at hx
      exact hne hx.symm
  · rintro ⟨y, ⟨hy, rfl, hne⟩, p, hp, rfl⟩
    have hyc := hc.canonical _ y hy
    have hyr := hc.ne_root _ y hy
    have hcomp := hyc.isComponent_name hyr
    have hj := Path.rebase_join hk hcomp hs hm.canonical hq
    rw [hyc.join_parent_name hyr, hp, Option.some.injEq] at hj
    refine ⟨?_, ?_, ?_⟩
    · rw [Entry.relocated_path, find?_move_target hc hm hyc hp, hy]
      rfl
    · rw [Entry.relocated_path, hj, Path.parent_join hqc hcomp]
    · rw [Entry.relocated_path, hj]
      exact Path.join_ne_self hqc hcomp

end

end CloudDrive.Store.Catalog
