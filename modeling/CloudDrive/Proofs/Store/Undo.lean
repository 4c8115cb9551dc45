import CloudDrive.Proofs.Store.Moves
import Mathlib.Data.List.Sort

/-!
# Moves and the way back

Entries of one directory are moved into another, and then back.

* `Clear`: nothing stands in the way of some moves; `Clear.movesTo` says that all are accepted then.
* `MovesTo.find?_target`: what the moves have put where.
* `Clear.back`: after the moves, nothing stands in the way of the moves back.
* `MovesTo.eq_of_back`: the moves back restore the catalog.
-/

namespace CloudDrive.Store.Catalog

open Path (Canonical IsComponent)

theorem ext_entries {c c' : Catalog} (h : c.entries = c'.entries) : c = c' := by
  cases c
  cases c'
  cases h
  rfl

/-- A catalog is determined by what is found in it. -/
theorem ext_find? {c c' : Catalog} (h : ∀ p, c.find? p = c'.find? p) : c = c' := by
  have hmem : ∀ e, e ∈ c.entries ↔ e ∈ c'.entries := fun e => by
    rw [mem_entries, mem_entries, h]
  have hperm := (List.perm_ext_iff_of_nodup c.nodup_entries c'.nodup_entries).2 hmem
  exact ext_entries <|
    hperm.eq_of_pairwise (fun _ _ _ _ hab hba => absurd hba (String.lt_asymm hab)) c.sorted c'.sorted

/-! ## Moves that are all accepted -/

theorem MovesTo.isTree {c c' : Catalog} {moves : List (String × String)} (h : MovesTo c moves c')
    (hc : c.IsTree) : c'.IsTree := by
  induction h with
  | nil c => exact hc
  | cons hm _ ih => exact ih (hc.move hm)

/-- The moves take stored entries of the directory `p` to free paths in the directory `d`. -/
structure Clear (c : Catalog) (p d : String) (moves : List (String × String)) : Prop where
  tree : c.IsTree
  into : IntoDirectory p d moves
  source : c.IsDirectory p
  destination : c.IsDirectory d
  stored : ∀ m ∈ moves, (c.find? m.1).isSome = true
  free : ∀ m ∈ moves, ∀ q, Path.isWithin q m.2 = true → c.find? q = none
  apart : ∀ m ∈ moves, Path.isWithin d m.1 = false

section
variable {c c' : Catalog} {p d : String} {m : String × String} {moves : List (String × String)}

theorem Clear.not_isWithin (h : c.Clear p d moves) (hm : m ∈ moves) {q : String}
    (hq : c.IsDirectory q) : Path.isWithin q m.2 = false := by
  have hd := (h.into.canonical hm).2
  refine Bool.eq_false_iff.2 fun hw => ?_
  rcases hq with rfl | ⟨e, he, -⟩
  · have hroot := hd.eq_root hw
    obtain ⟨n, hn, rfl⟩ := h.into.named m hm
    exact Path.join_ne_root h.into.destination hn hroot
  · rw [h.free m hm q hw] at he
    cases he

theorem Clear.movable (h : c.Clear p d (m :: moves)) : c.Movable m.1 m.2 := by
  have hm := List.mem_cons_self (a := m) (l := moves)
  obtain ⟨hs, hd⟩ := h.into.canonical hm
  have hnone := h.free m hm m.2 (Path.isWithin_refl hd)
  obtain ⟨n, hn, hmn⟩ := h.into.named m hm
  have hjoin : m.2 = Path.join d n := by rw [hmn]
  refine ⟨h.stored m hm, hd, ?_, Bool.eq_false_iff.2 fun hw => ?_, ?_⟩
  · rw [contains, hnone, hjoin]
    simp [Path.join_ne_root h.into.destination hn]
  · rw [hjoin] at hw
    rcases (Path.isWithin_join h.into.destination hn hs).1 hw with he | hdm
    · have hstored := h.stored m hm
      rw [← he, ← hjoin, hnone] at hstored
      cases hstored
    · rw [h.apart m hm] at hdm
      cases hdm
  · rw [(h.into.parents hm).2]
    exact h.destination

theorem Clear.tail (h : c.Clear p d (m :: moves)) : (c.move m.1 m.2).Clear p d moves := by
  have hm := List.mem_cons_self (a := m) (l := moves)
  have hmov := h.movable
  have hsub := List.sublist_cons_self m moves
  refine ⟨h.tree.move hmov, h.into.sublist hsub, ?_, ?_, fun y hy => ?_,
    free_move h.tree hmov h.into h.free, fun y hy => h.apart y (hsub.subset hy)⟩
  · exact (isDirectory_move_apart h.tree hmov (h.into.not_isWithin hm).1
      (h.not_isWithin hm h.source)).2 h.source
  · exact (isDirectory_move_apart h.tree hmov (h.apart m hm)
      (h.into.not_isWithin hm).2).2 h.destination
  · -- the source of another move lies neither within this source nor within this destination
    have hy' := hsub.subset hy
    have hyc := (h.into.canonical hy').1
    rw [find?_move_apart h.tree hmov]
    · exact h.stored y hy'
    · refine Bool.eq_false_iff.2 fun hw => ?_
      obtain rfl := h.into.eq_of_source hy' hm hyc (Path.isWithin_refl hyc) hw
      exact absurd rfl ((List.pairwise_cons.1 h.into.distinct).1 y hy)
    · exact not_isWithin_free h.into h.free hy' hm (h.stored y hy') (h.apart y hy') hyc
        (Path.isWithin_refl hyc)

/-- **If nothing stands in the way, all moves are accepted.** -/
theorem Clear.movesTo (h : c.Clear p d moves) : ∃ c', MovesTo c moves c' := by
  induction moves generalizing c with
  | nil => exact ⟨c, .nil c⟩
  | cons m moves ih =>
    obtain ⟨c', hc'⟩ := ih h.tail
    exact ⟨c', .cons h.movable hc'⟩

/-- **What the moves have put where.** -/
theorem MovesTo.find?_target (hmoves : MovesTo c moves c') (h : c.Clear p d moves) (hm : m ∈ moves)
    {x q : String} (hx : Canonical x) (hq : Path.rebase x m.1 m.2 = some q) :
    c'.find? q = (c.find? x).map (·.relocated q) := by
  induction hmoves with
  | nil c => cases hm
  | @cons c c' y moves hmov hrest ih =>
    have hmc := h.into.canonical hm
    have hxm := Path.isWithin_of_rebase hx hq
    have hqm := Path.isWithin_rebase hx hmc.1 hmc.2 hq
    have hqc := hx.rebase hmc.1 hmc.2 hq
    rcases List.mem_cons.1 hm with rfl | hmem
    · -- the other moves lie apart from what this one has moved
      rw [hrest.find?_apart (h.tree.move hmov), find?_move_target h.tree hmov hx hq]
      intro z hz
      have hz' := List.mem_cons_of_mem m hz
      constructor
      · refine Bool.eq_false_iff.2 fun hw => ?_
        have := not_isWithin_free h.into h.free hz' hm (h.stored z hz') (h.apart z hz') hqc hw
        rw [hqm] at this
        cases this
      · refine Bool.eq_false_iff.2 fun hw => ?_
        obtain rfl := h.into.eq_of_destination hz' hm hqc hw hqm
        exact absurd rfl ((List.pairwise_cons.1 h.into.distinct).1 z hz)
    · rw [ih h.tail hmem, find?_move_apart h.tree hmov]
      · refine Bool.eq_false_iff.2 fun hw => ?_
        obtain rfl := h.into.eq_of_source hm List.mem_cons_self hx hxm hw
        exact absurd rfl ((List.pairwise_cons.1 h.into.distinct).1 m hmem)
      · exact not_isWithin_free h.into h.free hm List.mem_cons_self (h.stored m hm) (h.apart m hm)
          hx hxm

/-! ## The way back -/

/-- **Nothing stands in the way of the moves back.** -/
theorem Clear.back (h : c.Clear p d moves) (hmoves : MovesTo c moves c') :
    c'.Clear d p (moves.map Prod.swap) := by
  have hpapart : ∀ y ∈ moves, Path.isWithin p y.2 = false := fun y hy => h.not_isWithin hy h.source
  have htree : c'.IsTree := hmoves.isTree h.tree
  refine ⟨htree, h.into.swap, ?_, ?_, List.forall_mem_map.2 fun y hy => ?_,
    List.forall_mem_map.2 fun y hy q hw => ?_, List.forall_mem_map.2 hpapart⟩
  · exact (hmoves.isDirectory_apart h.tree fun y hy =>
      ⟨h.apart y hy, (h.into.not_isWithin hy).2⟩).2 h.destination
  · exact (hmoves.isDirectory_apart h.tree fun y hy =>
      ⟨(h.into.not_isWithin hy).1, hpapart y hy⟩).2 h.source
  · have hyc := (h.into.canonical hy).1
    show (c'.find? y.2).isSome = true
    rw [hmoves.find?_target h hy hyc (Path.rebase_self _ _), Option.isSome_map]
    exact h.stored y hy
  · cases hf : c'.find? q with
    | none => rfl
    | some e =>
      rw [hmoves.find?_source h.tree h.into h.free hy (htree.canonical q e hf) hw] at hf
      cases hf

/-- **The moves back restore the catalog.** -/
theorem MovesTo.eq_of_back {c'' : Catalog} (hmoves : MovesTo c moves c')
    (hback : MovesTo c' (moves.map Prod.swap) c'') (h : c.Clear p d moves) (hc : c.Named) :
    c'' = c := by
  have hclear := h.back hmoves
  have htree'' := hback.isTree hclear.tree
  -- A path lies within a source, within a destination, or apart from all of them.
  refine ext_find? fun q => ?_
  by_cases hq : Canonical q
  swap
  · -- neither catalog has an entry at such a path
    have hnone : ∀ {t : Catalog}, t.IsTree → t.find? q = none := fun {t} ht => by
      cases hf : t.find? q with
      | none => rfl
      | some e => exact absurd (ht.canonical q e hf) hq
    rw [hnone htree'', hnone h.tree]
  by_cases hs : ∃ m ∈ moves, Path.isWithin q m.1 = true
  · obtain ⟨m, hm, hw⟩ := hs
    obtain ⟨hmc, hmd⟩ := h.into.canonical hm
    obtain ⟨x, hx, hxc, -⟩ := Path.exists_rebase hq hmc hmd hw
    have hxq := Path.rebase_rebase hq hmc hmd hx
    rw [hback.find?_target hclear (List.mem_map_of_mem hm) hxc hxq,
      hmoves.find?_target h hm hq hx, Option.map_map]
    cases hf : c.find? q with
    | none => rfl
    | some e =>
      have hpath := path_of_find? hf
      have hname := hc q e hf
      obtain ⟨name, path, kind, size, modified, owner⟩ := e
      simp only at hpath hname
      subst hpath hname
      rfl
  by_cases hd : ∃ m ∈ moves, Path.isWithin q m.2 = true
  · obtain ⟨m, hm, hw⟩ := hd
    rw [h.free m hm q hw]
    exact hback.find?_source hclear.tree hclear.into hclear.free (List.mem_map_of_mem hm) hq hw
  push Not at hs hd
  have happart : ∀ m ∈ moves, Path.isWithin q m.1 = false ∧ Path.isWithin q m.2 = false :=
    fun m hm => ⟨by simpa using hs m hm, by simpa using hd m hm⟩
  rw [hback.find?_apart hclear.tree, hmoves.find?_apart h.tree happart]
  intro m hm
  obtain ⟨y, hy, rfl⟩ := List.mem_map.1 hm
  exact (happart y hy).symm

end

end CloudDrive.Store.Catalog
