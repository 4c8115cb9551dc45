import CloudDrive.Proofs.Path.Siblings
import CloudDrive.Proofs.Store.Tree

/-!
# Several moves

`MovesTo c moves c'`: the catalog `c` accepts the moves one after another, and becomes `c'`.

* `MovesTo.wellShaped`: the shape is kept.
* `MovesTo.find?_apart`, `MovesTo.mem_children_apart`: what lies apart from the moves stays.
* `MovesTo.find?_source`: moves of one directory into another leave nothing at or beneath a source,
  if the destinations were free before.
-/

namespace CloudDrive.Store.Catalog

open Path (Canonical IsComponent)

/-- The catalog accepts the moves one after another. -/
inductive MovesTo : Catalog → List (String × String) → Catalog → Prop
  | nil (c : Catalog) : MovesTo c [] c
  | cons {c c' : Catalog} {m : String × String} {moves : List (String × String)} :
      c.Movable m.1 m.2 → MovesTo (c.move m.1 m.2) moves c' → MovesTo c (m :: moves) c'

variable {c c' : Catalog} {moves : List (String × String)} (h : MovesTo c moves c')
include h

theorem MovesTo.wellShaped (hc : c.WellShaped) : c'.WellShaped := by
  induction h with
  | nil c => exact hc
  | cons hm _ ih => exact ih ⟨hc.tree.move hm, hc.named.move hc.tree hm⟩

theorem MovesTo.find?_apart (hc : c.IsTree) {q : String}
    (hq : ∀ m ∈ moves, Path.isWithin q m.1 = false ∧ Path.isWithin q m.2 = false) :
    c'.find? q = c.find? q := by
  induction h with
  | nil c => rfl
  | cons hm _ ih =>
    obtain ⟨hs, hd⟩ := hq _ List.mem_cons_self
    rw [ih (hc.move hm) fun x hx => hq x (List.mem_cons_of_mem _ hx),
      find?_move_apart hc hm hs hd]

theorem MovesTo.isDirectory_apart (hc : c.IsTree) {q : String}
    (hq : ∀ m ∈ moves, Path.isWithin q m.1 = false ∧ Path.isWithin q m.2 = false) :
    c'.IsDirectory q ↔ c.IsDirectory q := by
  unfold IsDirectory
  rw [h.find?_apart hc hq]

variable {p d : String}

/-- Directories that nothing is taken out of or put into hold what they held. -/
theorem MovesTo.mem_children_apart (hc : c.IsTree) (hi : IntoDirectory p d moves) {q : String}
    (hq : ∀ m ∈ moves, Path.isWithin q m.1 = false ∧ Path.isWithin q m.2 = false)
    (hp : q ≠ p) (hd : q ≠ d) {e : Entry} : e ∈ c'.children q ↔ e ∈ c.children q := by
  induction h with
  | nil c => rfl
  | @cons c c' m moves hm _ ih =>
    obtain ⟨hps, hpd⟩ := hi.parents List.mem_cons_self
    obtain ⟨hs, hdq⟩ := hq m List.mem_cons_self
    rw [ih (hc.move hm) (hi.sublist (List.sublist_cons_self m moves))
      fun x hx => hq x (List.mem_cons_of_mem _ hx), mem_children_move hc hm hs hdq]
    constructor
    · rintro (⟨he, -⟩ | ⟨hk, -⟩)
      · exact he
      · exact absurd (hk.trans hpd) hd
    · intro he
      refine .inl ⟨he, fun hes => hp ?_⟩
      rw [← hps, ← hes]
      exact (mem_children.1 he).2.1.symm

theorem MovesTo.destination_apart (hi : IntoDirectory p d moves) :
    ∀ m ∈ moves, Path.isWithin d m.1 = false := by
  induction h with
  | nil c => simp
  | @cons c c' m moves hm _ ih =>
    intro x hx
    rcases List.mem_cons.1 hx with rfl | hx
    · obtain ⟨hs, hd⟩ := hi.canonical hx
      refine Bool.eq_false_iff.2 fun hw => ?_
      have hpar := Path.isWithin_parent hd
      rw [(hi.parents hx).2] at hpar
      have := Path.isWithin_trans hd hi.destination hs hpar hw
      rw [hm.apart] at this
      cases this
    · exact ih (hi.sublist (List.sublist_cons_self m moves)) x hx

omit h in
theorem free_move {m : String × String} (hc : c.IsTree) (hm : c.Movable m.1 m.2)
    (hi : IntoDirectory p d (m :: moves))
    (hfree : ∀ x ∈ m :: moves, ∀ q, Path.isWithin q x.2 = true → c.find? q = none) :
    ∀ x ∈ moves, ∀ q, Path.isWithin q x.2 = true → (c.move m.1 m.2).find? q = none := by
  intro x hx q hw
  cases hf : (c.move m.1 m.2).find? q with
  | none => rfl
  | some e =>
    rcases (find?_move_eq_some hc hm).1 hf with ⟨-, -, hq⟩ | ⟨y, z, hy, hyq, -⟩
    · rw [hfree x (List.mem_cons_of_mem _ hx) q hw] at hq
      cases hq
    · have hmem : m ∈ m :: moves := List.mem_cons_self
      have hqm := Path.isWithin_rebase (hc.canonical y z hy) (hi.canonical hmem).1
        (hi.canonical hmem).2 hyq
      obtain rfl := hi.eq_of_destination (List.mem_cons_of_mem _ hx) hmem
        (canonical_of_find?_move hc hm hf) hw hqm
      exact absurd rfl ((List.pairwise_cons.1 hi.distinct).1 x hx)

omit h in
/-- What lies at or beneath a stored source lies at or beneath no destination that is free. -/
theorem not_isWithin_free (hi : IntoDirectory p d moves)
    (hfree : ∀ m ∈ moves, ∀ q, Path.isWithin q m.2 = true → c.find? q = none)
    {m y : String × String} (hm : m ∈ moves) (hy : y ∈ moves)
    (hst : (c.find? m.1).isSome = true) (hd : Path.isWithin d m.1 = false) {q : String}
    (hq : Canonical q) (hw : Path.isWithin q m.1 = true) : Path.isWithin q y.2 = false := by
  refine Bool.eq_false_iff.2 fun hqy => ?_
  obtain ⟨hmc, -⟩ := hi.canonical hm
  obtain ⟨-, hyc⟩ := hi.canonical hy
  rcases Path.isWithin_total hq hmc hyc hw hqy with hmy | hym
  · rw [hfree y hy m.1 hmy] at hst
    cases hst
  · obtain ⟨n, hn, hye⟩ := hi.named y hy
    rw [hye] at hym
    rcases (Path.isWithin_join hi.destination hn hmc).1 hym with he | hdm
    · rw [← he, ← show y.2 = Path.join d n by rw [hye],
        hfree y hy y.2 (Path.isWithin_refl hyc)] at hst
      cases hst
    · rw [hd] at hdm
      cases hdm

/-- **Nothing is left at or beneath a source.** -/
theorem MovesTo.find?_source (hc : c.IsTree) (hi : IntoDirectory p d moves)
    (hfree : ∀ m ∈ moves, ∀ q, Path.isWithin q m.2 = true → c.find? q = none)
    {m : String × String} (hmem : m ∈ moves) {q : String} (hq : Canonical q)
    (hw : Path.isWithin q m.1 = true) : c'.find? q = none := by
  induction h with
  | nil c => cases hmem
  | @cons c c' x moves hm hrest ih =>
    rcases List.mem_cons.1 hmem with rfl | hmem'
    · -- later moves put nothing back at or beneath the source
      have hd := (MovesTo.cons hm hrest).destination_apart hi m hmem
      have hapart : ∀ y ∈ moves, Path.isWithin q y.1 = false ∧ Path.isWithin q y.2 = false := by
        intro y hy
        have hy' := List.mem_cons_of_mem m hy
        refine ⟨Bool.eq_false_iff.2 fun hqy => ?_,
          not_isWithin_free hi hfree hmem hy' hm.stored hd hq hw⟩
        obtain rfl := hi.eq_of_source hy' hmem hq hqy hw
        exact absurd rfl ((List.pairwise_cons.1 hi.distinct).1 y hy)
      rw [hrest.find?_apart (hc.move hm) hapart, find?_move_source hc hm hq hw]
    · exact ih (hc.move hm) (hi.sublist (List.sublist_cons_self x moves))
        (free_move hc hm hi hfree) hmem'

end CloudDrive.Store.Catalog
