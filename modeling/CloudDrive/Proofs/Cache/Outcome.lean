import CloudDrive.Proofs.Cache.Mirror
import CloudDrive.Proofs.Cache.TakeBack
import CloudDrive.Proofs.Store.Moves

/-!
# The cache after a change

What is cached after the store has accepted a change, or part of one, and the touched directories
have been fetched again (`Refetched`).

* `mirrors_moved`: a single move.
* `mirrors_accepted_iff`, `mirrors_refused_iff`: when the cache mirrors the store after a batch
  (`BatchStart`) that was accepted as a whole, and after one that was not.
* `mirrors_deleted_iff`: the same after a deletion that was not complete.
-/

namespace CloudDrive.Cache

open Path (Canonical IsComponent)
open Store (Catalog)

/-! ## Fetching again -/

/-- Those of some directories that are cached have been fetched again, as far as they exist. -/
def Refetched (keys : List String) (t : Catalog) (c c' : Cache) : Prop :=
  ∀ key, c'.get? key =
    if key ∈ keys ∧ (c.get? key).isSome = true ∧ t.IsDirectory key then
      some (.ofEntries key (t.children key))
    else c.get? key

theorem refetched_nil (t : Catalog) (c : Cache) : Refetched [] t c c := fun key => by simp

section
variable {keys : List String} {t : Catalog} {c c' : Cache} (h : Refetched keys t c c')
include h

theorem Refetched.isSome_iff {key : String} :
    (c'.get? key).isSome = true ↔ (c.get? key).isSome = true := by
  rw [h key]
  split
  · next hk => simp [hk.2.1]
  · rfl

/-- What is fetched again depends on the cached listings only. -/
theorem Refetched.congr {keys' : List String} {c₀ : Cache} (he : ∀ key, c.get? key = c₀.get? key)
    (hk : ∀ key, (c₀.get? key).isSome = true → (key ∈ keys ↔ key ∈ keys')) :
    Refetched keys' t c₀ c' := by
  intro key
  rw [h key, he key]
  cases hs : (c₀.get? key).isSome with
  | false => simp
  | true => simp only [hk key hs]

theorem Refetched.append {keys' : List String} {c'' : Cache} (h' : Refetched keys' t c' c'') :
    Refetched (keys ++ keys') t c c'' := by
  intro key
  rw [h' key]
  simp only [h.isSome_iff, List.mem_append]
  split
  · next hk => rw [if_pos ⟨.inr hk.1, hk.2⟩]
  · next hk =>
    rw [h key]
    exact if_congr (by tauto) rfl rfl

theorem Refetched.get?_of_not_mem {key : String} (hk : key ∉ keys) :
    c'.get? key = c.get? key := by
  rw [h key, if_neg fun hh => hk hh.1]

theorem Refetched.listing {key : String} {l : Listing} (hl : c'.get? key = some l) :
    l.entries = t.children key ∧ t.IsDirectory key ∨
      c.get? key = some l ∧ ¬ (key ∈ keys ∧ t.IsDirectory key) := by
  rw [h key] at hl
  split at hl
  · next hh =>
    rw [Option.some.injEq] at hl
    subst hl
    exact .inl ⟨rfl, hh.2.2⟩
  · next hh => exact .inr ⟨hl, fun hk => hh ⟨hk.1, by rw [hl]; rfl, hk.2⟩⟩

/-- **Fetching again repairs** the listings of directories that exist. -/
theorem Refetched.mirrors {outdated : List String} (hc : MirrorsExcept outdated c t)
    (hk : ∀ k ∈ outdated, (c.get? k).isSome = true → k ∈ keys) : Mirrors c' t := by
  intro key l hl
  rcases h.listing hl with ⟨he, hd⟩ | ⟨hl, hh⟩
  · exact ⟨hd, he ▸ List.Perm.refl _⟩
  · obtain ⟨hd, hp⟩ := hc key l hl
    exact ⟨hd, hp fun ho => hh ⟨hk key ho (by rw [hl]; rfl), hd⟩⟩

end

theorem Mirrors.refetched {keys : List String} {t : Catalog} {c c' : Cache} (hc : Mirrors c t)
    (h : Refetched keys t c c') : Mirrors c' t :=
  h.mirrors (hc.except []) (by simp)

section
variable {c : Cache} {t : Catalog} {key : String} (hd : t.IsDirectory key)
include hd

theorem refetched_insert (hk : (c.get? key).isSome = true) :
    Refetched [key] t c (c.insert (.ofEntries key (t.children key))) := by
  intro k
  rw [get?_insert, show (Listing.ofEntries key (t.children key)).path = key from rfl]
  by_cases h : k = key
  · subst h
    rw [if_pos rfl, if_pos ⟨List.mem_singleton_self k, hk, hd⟩]
  · rw [if_neg h, if_neg fun hh => h (List.mem_singleton.1 hh.1)]

theorem Mirrors.insert (hc : Mirrors c t) :
    Mirrors (c.insert (.ofEntries key (t.children key))) t := by
  intro k l hl
  rw [get?_insert, show (Listing.ofEntries key (t.children key)).path = key from rfl] at hl
  split at hl
  · next h =>
    subst h
    rw [Option.some.injEq] at hl
    subst hl
    exact ⟨hd, List.Perm.refl _⟩
  · exact hc k l hl

end

/-! ## Single changes -/

/-- A new entry that replaces no directory outdates the directory that it lies in. -/
theorem mirrorsExcept_insert {c : Cache} {t : Catalog} (hc : Mirrors c t) {e : Entry}
    (hne : e.path ≠ Path.root) (hold : ∀ x, t.find? e.path = some x → x.isDirectory = false) :
    MirrorsExcept [Path.parent e.path] c (t.insert e) := by
  intro key l hl
  obtain ⟨hd, hp⟩ := hc key l hl
  have hkey : key ≠ e.path := by
    rcases hd with rfl | ⟨x, hx, hxd⟩
    · exact hne.symm
    · rintro rfl
      rw [hold x hx] at hxd
      cases hxd
  refine ⟨Catalog.isDirectory_insert hd hkey, fun hk => ?_⟩
  obtain ⟨hn, hm⟩ := perm_children.1 hp
  refine perm_children.2 ⟨hn, fun x => ?_⟩
  rw [hm, Catalog.mem_children_insert (by simpa using hk)]

theorem mirrors_moved {c c' : Cache} {t : Catalog} (ht : t.IsTree) (hc : Mirrors c t)
    {m : String × String} (hm : t.Movable m.1 m.2)
    (hc' : Refetched (c.touchedBy (.move [m])) (t.move m.1 m.2) (c.apply (.move [m])) c') :
    Mirrors c' (t.move m.1 m.2) := by
  refine hc'.mirrors (mirrorsExcept_moveEntry ht hm (hc.except []) (by simp)) fun k hk _ => ?_
  refine mem_touchedBy.2 ⟨m, List.mem_singleton_self m, mem_touchedByMove.2 ?_⟩
  simp only [List.mem_cons, List.not_mem_nil, or_false] at hk
  exact hk.imp_right .inl

/-! ## Batches -/

/-- The cache and the store when the moves of a batch begin, which take entries of `p` into `d`.
Nothing is stored at or beneath a destination. The cache mirrors the store, but for the directory
that holds `d`, if `d` was created just before: there it does not list `d`. -/
structure BatchStart (c : Cache) (t : Catalog) (p d : String) (moves : List (String × String))
    (outdated : List String) : Prop where
  shaped : t.WellShaped
  into : IntoDirectory p d moves
  free : ∀ m ∈ moves, ∀ q, Path.isWithin q m.2 = true → t.find? q = none
  mirrors : MirrorsExcept outdated c t
  outdated : ∀ k ∈ outdated, k = Path.parent d ∧ (t.find? d).isSome = true ∧
    ∀ l, c.get? k = some l → ∀ e ∈ l.entries, e.path ≠ d

section
variable {c : Cache} {t : Catalog} {p d : String} {moves : List (String × String)}
  {outdated : List String} (b : BatchStart c t p d moves outdated)
include b

theorem BatchStart.hasCanonicalKeys : c.HasCanonicalKeys :=
  b.mirrors.hasCanonicalKeys b.shaped.tree

theorem BatchStart.not_isDirectory {m : String × String} (hm : m ∈ moves) {q : String}
    (hw : Path.isWithin q m.2 = true) {t' : Catalog} (hf : t'.find? q = none) :
    ¬ t'.IsDirectory q := by
  rintro (rfl | ⟨e, he, -⟩)
  · obtain ⟨n, hn, rfl⟩ := b.into.named m hm
    have hj := Path.canonical_join b.into.destination hn
    exact Path.join_ne_root b.into.destination hn (hj.eq_root hw)
  · rw [hf] at he
    cases he

theorem BatchStart.free_cached : ∀ m ∈ moves, ∀ key, (c.get? key).isSome = true →
    Path.isWithin key m.2 = false := by
  intro m hm key hk
  obtain ⟨l, hl⟩ := Option.isSome_iff_exists.1 hk
  exact Bool.eq_false_iff.2 fun hw =>
    b.not_isDirectory hm hw (b.free m hm key hw) (b.mirrors key l hl).1

theorem BatchStart.touched (hne : moves ≠ []) :
    p ∈ c.touchedBy (.move moves) ∧ d ∈ c.touchedBy (.move moves) := by
  obtain ⟨m, hm⟩ := List.exists_mem_of_ne_nil _ hne
  obtain ⟨hps, hpd⟩ := b.into.parents hm
  exact ⟨mem_touchedBy.2 ⟨m, hm, mem_touchedByMove.2 (.inl hps.symm)⟩,
    mem_touchedBy.2 ⟨m, hm, mem_touchedByMove.2 (.inr (.inl hpd.symm))⟩⟩

theorem BatchStart.get?_apply {key : String} (hk : (c.get? key).isSome = true)
    (ht : key ∉ c.touchedBy (.move moves)) :
    (c.apply (.move moves)).get? key = c.get? key := by
  by_cases hne : moves = []
  · rw [hne]
    rfl
  · obtain ⟨hp, hd⟩ := b.touched hne
    refine get?_apply_apart b.into b.hasCanonicalKeys (List.Subset.refl _)
      (fun he => ht (he ▸ hp)) (fun he => ht (he ▸ hd)) fun x hx =>
        ⟨Bool.eq_false_iff.2 fun hw => ht (mem_touchedBy.2 ⟨x, hx, ?_⟩), b.free_cached x hx key hk⟩
    exact mem_touchedByMove.2 (.inr (.inr (.inl (mem_keysWithin.2 ⟨hk, hw⟩))))

variable {acc : List (String × String)} {t' : Catalog} (hsub : acc.Sublist moves)
  (hrun : t.MovesTo acc t')
include hsub hrun

theorem BatchStart.outdated_apart {k : String} (hk : k ∈ outdated) :
    ∀ m ∈ acc, Path.isWithin k m.1 = false ∧ Path.isWithin k m.2 = false := by
  intro m hm
  obtain ⟨rfl, -⟩ := b.outdated k hk
  obtain ⟨hs, hd⟩ := b.into.canonical (hsub.subset hm)
  have hdd := Path.isWithin_parent b.into.destination
  refine ⟨Bool.eq_false_iff.2 fun hw => ?_, Bool.eq_false_iff.2 fun hw => ?_⟩
  · have := Path.isWithin_trans b.into.destination b.into.destination.parent hs hdd hw
    rw [hrun.destination_apart (b.into.sublist hsub) m hm] at this
    cases this
  · have := Path.isWithin_trans b.into.destination b.into.destination.parent hd hdd hw
    rw [(b.into.not_isWithin (hsub.subset hm)).2] at this
    cases this

/-- The destination is still missing from an outdated listing after the accepted moves. -/
theorem BatchStart.not_perm_outdated {k : String} (hk : k ∈ outdated) {l : Listing}
    (hl : c.get? k = some l) : ¬ l.entries.Perm (t'.children k) := by
  obtain ⟨rfl, hstored, hmissing⟩ := b.outdated k hk
  obtain ⟨e, he⟩ := Option.isSome_iff_exists.1 hstored
  have hd : t'.find? d = some e := by
    rw [hrun.find?_apart b.shaped.tree fun m hm =>
      ⟨hrun.destination_apart (b.into.sublist hsub) m hm,
        (b.into.not_isWithin (hsub.subset hm)).2⟩, he]
  intro hp
  obtain rfl := Catalog.path_of_find? he
  have hne : e.path ≠ Path.parent e.path := by
    obtain ⟨x, n, hx, hn, hj⟩ := b.into.destination.eq_join (b.shaped.tree.ne_root _ e he)
    rw [hj, Path.parent_join hx hn]
    exact Path.join_ne_self hx hn
  have hmem := (perm_children.1 hp).2 e
  exact hmissing l hl e (hmem.2 (Catalog.mem_children.2 ⟨hd, rfl, hne⟩)) rfl

omit hsub hrun b in
/-- **The cache follows accepted moves**, but for the directories that they begin and end in. -/
theorem mirrorsExcept_applyMoves {keys : List String} (ht : t.IsTree) (hi : IntoDirectory p d acc)
    (hc : MirrorsExcept keys c t) (hrun : t.MovesTo acc t') (hp : p ∈ keys) (hd : d ∈ keys)
    (hk : ∀ k ∈ keys, ∀ m ∈ acc, Path.isWithin k m.1 = false) :
    MirrorsExcept keys (c.apply (.move acc)) t' := by
  induction hrun generalizing c with
  | nil t => exact hc
  | @cons t t' m acc hm _ ih =>
    obtain ⟨hps, hpd⟩ := hi.parents List.mem_cons_self
    have hstep := mirrorsExcept_moveEntry ht hm hc fun k hkk => hk k hkk m List.mem_cons_self
    rw [hps, hpd] at hstep
    rw [apply_move_cons]
    refine ih (ht.move hm) (hi.sublist (List.sublist_cons_self m acc)) (hstep.mono ?_)
      fun k hkk x hx => hk k hkk x (List.mem_cons_of_mem _ hx)
    exact List.cons_subset.2 ⟨hp, List.cons_subset.2 ⟨hd, List.Subset.refl _⟩⟩

omit hsub in
/-- **After an accepted batch** the cache mirrors the store, unless the directory that holds the
destination is outdated and out of the scope of the patch. -/
theorem mirrors_accepted_iff (hne : moves ≠ []) (hall : acc = moves) {c' : Cache}
    (hc' : Refetched (c.touchedBy (.move moves)) t' (c.apply (.move moves)) c') :
    Mirrors c' t' ↔
      ¬ ∃ k ∈ outdated, (c.get? k).isSome = true ∧ k ∉ c.touchedBy (.move moves) := by
  subst hall
  have hsub := List.Sublist.refl acc
  obtain ⟨hp, hd⟩ := b.touched hne
  constructor
  · rintro hmir ⟨k, hk, hks, hkt⟩
    obtain ⟨l, hl⟩ := Option.isSome_iff_exists.1 hks
    have hkeep : c'.get? k = some l := by
      rw [hc'.get?_of_not_mem hkt, b.get?_apply hks hkt, hl]
    exact b.not_perm_outdated hsub hrun hk hl (hmir k l hkeep).2
  · intro hno
    have hkeys : ∀ k ∈ p :: d :: outdated, ∀ m ∈ acc, Path.isWithin k m.1 = false := by
      intro k hk m hm
      rcases List.mem_cons.1 hk with rfl | hk
      · exact (b.into.not_isWithin hm).1
      · rcases List.mem_cons.1 hk with rfl | hk
        · exact hrun.destination_apart b.into m hm
        · exact (b.outdated_apart hsub hrun hk m hm).1
    have hmoved := mirrorsExcept_applyMoves b.shaped.tree b.into
      (b.mirrors.mono fun k hk => List.mem_cons_of_mem _ (List.mem_cons_of_mem _ hk)) hrun
      List.mem_cons_self (List.mem_cons_of_mem p List.mem_cons_self) hkeys
    refine hc'.mirrors hmoved fun k hk hks => ?_
    rcases List.mem_cons.1 hk with rfl | hk
    · exact hp
    · rcases List.mem_cons.1 hk with rfl | hk
      · exact hd
      · by_contra hkt
        rcases (keys_apply b.into b.hasCanonicalKeys (List.Subset.refl _)).2 k hks with
          hks | ⟨x, hx, hw⟩
        · exact hno ⟨k, hk, hks, hkt⟩
        · rw [(b.outdated_apart hsub hrun hk x hx).2] at hw
          cases hw

omit hsub hrun in
/-- What was cached is cached as before after the patch is taken back. -/
theorem BatchStart.get?_takenBack (hr : c.Reachable) {key : String}
    (hk : (c.get? key).isSome = true) : (c.takenBack (.move moves)).get? key = c.get? key := by
  unfold takenBack
  rw [get?_rollback_apply hr]
  split
  · rfl
  · next ht => exact b.get?_apply hk ht

omit hsub hrun in
/-- Nothing else is cached then, unless the batch is tangled. -/
theorem BatchStart.isSome_of_takenBack (hr : c.Reachable) (hn : ¬ c.Tangled d moves)
    {key : String} (hk : ((c.takenBack (.move moves)).get? key).isSome = true) :
    (c.get? key).isSome = true := by
  unfold takenBack at hk
  rw [get?_rollback_apply hr] at hk
  split at hk
  · exact hk
  · next ht =>
    rwa [get?_apply_of_not_touched
      (not_carriesTwice b.into b.hasCanonicalKeys b.free_cached hn) ht] at hk

/-- Nothing lies where a tangled batch leaves a ghost. -/
theorem BatchStart.not_isDirectory_ghost {m : String × String} (hm : m ∈ moves)
    (hd : Path.isWithin d m.1 = true) {g : String} (hg : Canonical g)
    (hw : Path.isWithin g m.2 = true) : ¬ t'.IsDirectory g := by
  have hmacc : m ∉ acc := fun hmem => by
    rw [hrun.destination_apart (b.into.sublist hsub) m hmem] at hd
    cases hd
  refine b.not_isDirectory hm hw ?_
  rw [hrun.find?_apart b.shaped.tree fun x hx => ?_, b.free m hm g hw]
  have hx' := hsub.subset hx
  refine ⟨Bool.eq_false_iff.2 fun hgx => ?_, Bool.eq_false_iff.2 fun hgx => ?_⟩
  · have hgm := b.into.isWithin_source hm hm hd hg hw
    exact hmacc (b.into.eq_of_source hm hx' hg hgm hgx ▸ hx)
  · exact hmacc (b.into.eq_of_destination hm hx' hg hw hgx ▸ hx)

theorem BatchStart.not_isDirectory_source {m : String × String} (hm : m ∈ acc) {q : String}
    (hq : Canonical q) (hw : Path.isWithin q m.1 = true) : ¬ t'.IsDirectory q := by
  rintro (rfl | ⟨e, he, -⟩)
  · obtain ⟨hmc, -⟩ := b.into.canonical (hsub.subset hm)
    obtain ⟨n, hn, hmn⟩ := b.into.named m (hsub.subset hm)
    have hroot := hmc.eq_root hw
    rw [hmn] at hroot
    exact Path.join_ne_root b.into.source hn hroot
  · rw [hrun.find?_source b.shaped.tree (b.into.sublist hsub)
      (fun x hx => b.free x (hsub.subset hx)) hm hq hw] at he
    cases he

/-- What is cached apart from the accepted moves, and from the directories that they begin and end
in, still mirrors the store. -/
theorem BatchStart.perm_children_apart {key : String} {l : Listing}
    (hl : l.entries.Perm (t.children key))
    (hapart : ∀ m ∈ acc, Path.isWithin key m.1 = false ∧ Path.isWithin key m.2 = false)
    (hp : key ≠ p) (hd : key ≠ d) : l.entries.Perm (t'.children key) := by
  obtain ⟨hn, hmem⟩ := perm_children.1 hl
  refine perm_children.2 ⟨hn, fun e => ?_⟩
  rw [hmem, hrun.mem_children_apart b.shaped.tree (b.into.sublist hsub) hapart hp hd]

/-- **After a batch that was not accepted as a whole** the patch is taken back, and the touched
directories are fetched again if some moves were accepted. The cache mirrors the store then unless
* the directory that holds the destination is outdated, and not fetched again,
* the batch is tangled, or
* a directory was cached at or beneath the source of an accepted move. -/
theorem mirrors_refused_iff (hr : c.Reachable) {c' : Cache}
    (hc' : Refetched (if acc = [] then [] else c.touchedBy (.move moves)) t'
      (c.takenBack (.move moves)) c') :
    Mirrors c' t' ↔
      ¬ ((∃ k ∈ outdated, (c.get? k).isSome = true ∧
            ¬ (acc ≠ [] ∧ k ∈ c.touchedBy (.move moves))) ∨
          c.Tangled d moves ∨ ∃ m ∈ acc, c.keysWithin m.1 ≠ []) := by
  constructor
  · rintro hmir (⟨k, hk, hks, hkt⟩ | ht | ⟨m, hm, hw⟩)
    · obtain ⟨l, hl⟩ := Option.isSome_iff_exists.1 hks
      have hkeep : c'.get? k = some l := by
        rw [hc'.get?_of_not_mem, b.get?_takenBack hr hks, hl]
        split
        · simp
        · next hne => exact fun hmem => hkt ⟨hne, hmem⟩
      exact b.not_perm_outdated hsub hrun hk hl (hmir k l hkeep).2
    · obtain ⟨g, hgt, -, hgs, m, hm, hdm, hgm⟩ :=
        exists_ghost b.into b.hasCanonicalKeys b.free_cached ht
      have hgs' : ((c.takenBack (.move moves)).get? g).isSome = true := by
        unfold takenBack
        rwa [get?_rollback_apply hr, if_neg hgt]
      obtain ⟨l, hl⟩ := Option.isSome_iff_exists.1 (hc'.isSome_iff.2 hgs')
      have hgc := (keys_apply b.into b.hasCanonicalKeys (List.Subset.refl _)).1 g hgs
      exact b.not_isDirectory_ghost hsub hrun hm hdm hgc hgm (hmir g l hl).1
    · obtain ⟨k, hk⟩ := List.exists_mem_of_ne_nil _ hw
      obtain ⟨hks, hkw⟩ := mem_keysWithin.1 hk
      have hks' : ((c.takenBack (.move moves)).get? k).isSome = true := by
        rwa [b.get?_takenBack hr hks]
      obtain ⟨l, hl⟩ := Option.isSome_iff_exists.1 (hc'.isSome_iff.2 hks')
      exact b.not_isDirectory_source hsub hrun hm (b.hasCanonicalKeys k hks) hkw (hmir k l hl).1
  · intro hno
    simp only [not_or, not_exists, not_and] at hno
    obtain ⟨hout, ht, hsrc⟩ := hno
    intro key l hl
    have hs : (c.get? key).isSome = true :=
      b.isSome_of_takenBack hr ht (hc'.isSome_iff.1 (by rw [hl]; rfl))
    obtain ⟨l₀, hl₀⟩ := Option.isSome_iff_exists.1 hs
    obtain ⟨hdir, hperm⟩ := b.mirrors key l₀ hl₀
    have hapart : ∀ m ∈ acc, Path.isWithin key m.1 = false ∧ Path.isWithin key m.2 = false := by
      intro m hm
      refine ⟨Bool.eq_false_iff.2 fun hw => ?_, b.free_cached m (hsub.subset hm) key hs⟩
      exact hsrc m hm (List.ne_nil_of_mem (mem_keysWithin.2 ⟨hs, hw⟩))
    have hdir' : t'.IsDirectory key := (hrun.isDirectory_apart b.shaped.tree hapart).2 hdir
    refine ⟨hdir', ?_⟩
    rcases hc'.listing hl with ⟨he, -⟩ | ⟨hl, hk⟩
    · exact he ▸ List.Perm.refl _
    · obtain rfl : l₀ = l := by rwa [b.get?_takenBack hr hs, hl₀, Option.some.injEq] at hl
      replace hk := fun hmem => hk ⟨hmem, hdir'⟩
      by_cases hacc : acc = []
      · subst hacc
        cases hrun
        exact hperm fun ho => hout key ho hs (by simp)
      · rw [if_neg hacc] at hk
        obtain ⟨hp, hd⟩ := b.touched fun hnil => hacc (List.sublist_nil.1 (hnil ▸ hsub))
        exact b.perm_children_apart hsub hrun (hperm fun ho => hout key ho hs fun _ => hk) hapart
          (fun he => hk (he ▸ hp)) fun he => hk (he ▸ hd)

end

/-! ## Deletions -/

theorem Mirrors.listsOwn {c : Cache} {t : Catalog} (hc : Mirrors c t) : c.ListsOwn :=
  fun key l hl _ he => (Catalog.mem_children.1 ((hc key l hl).2.subset he)).2.1

/-- **After a deletion that was not complete** the patch is taken back, and the touched directories
are fetched again if something was deleted. The cache mirrors the store then unless a directory was
cached at or beneath a deleted path. -/
theorem mirrors_deleted_iff {c c' : Cache} {t : Catalog} (ht : t.IsTree) (hc : Mirrors c t)
    {paths gone : List String} (hsub : gone ⊆ paths)
    (hst : ∀ g ∈ gone, (t.find? g).isSome = true)
    (hc' : Refetched (if gone = [] then [] else c.touchedBy (.remove paths))
      (t.eraseAllWithin gone) c c') :
    Mirrors c' (t.eraseAllWithin gone) ↔ ¬ ∃ g ∈ gone, c.keysWithin g ≠ [] := by
  have hdir := fun {q} => Catalog.isDirectory_eraseAllWithin ht hst (p := q)
  constructor
  · rintro hmir ⟨g, hg, hw⟩
    obtain ⟨k, hk⟩ := List.exists_mem_of_ne_nil _ hw
    obtain ⟨hks, hkw⟩ := mem_keysWithin.1 hk
    obtain ⟨l, hl⟩ := Option.isSome_iff_exists.1 (hc'.isSome_iff.2 hks)
    have := List.any_eq_false.1 (hdir.1 (hmir k l hl).1).2 g hg
    exact this hkw
  · intro hno key l hl
    have hs := hc'.isSome_iff.1 (show (c'.get? key).isSome = true by rw [hl]; rfl)
    obtain ⟨l₀, hl₀⟩ := Option.isSome_iff_exists.1 hs
    obtain ⟨hd, hp⟩ := hc key l₀ hl₀
    have hapart : ∀ g ∈ gone, Path.isWithin key g = false := fun g hg =>
      Bool.eq_false_iff.2 fun hw => hno ⟨g, hg, List.ne_nil_of_mem (mem_keysWithin.2 ⟨hs, hw⟩)⟩
    have hd' := hdir.2 ⟨hd, List.any_eq_false.2 fun g hg => by simp [hapart g hg]⟩
    refine ⟨hd', ?_⟩
    rcases hc'.listing hl with ⟨he, -⟩ | ⟨hl, hk⟩
    · exact he ▸ List.Perm.refl _
    · obtain rfl : l₀ = l := by rwa [hl₀, Option.some.injEq] at hl
      obtain ⟨hn, hmem⟩ := perm_children.1 hp
      refine perm_children.2 ⟨hn, fun e => ?_⟩
      rw [hmem, Catalog.mem_children_eraseAllWithin, iff_self_and]
      intro he
      obtain ⟨hf, hpar, -⟩ := Catalog.mem_children.1 he
      -- an entry that is gone would be a path of the patch, whose directory is fetched again
      refine List.any_eq_false.2 fun g hg hw => hk ⟨?_, hd'⟩
      have hgc := (ht.ne_root_of_stored hst g hg).1
      rw [Path.isWithin_iff_parent (ht.canonical _ e hf) (ht.ne_root _ e hf) hgc, hpar,
        hapart g hg] at hw
      have hge : e.path = g := by simpa using hw
      rw [if_neg (List.ne_nil_of_mem hg)]
      exact List.mem_flatMap.2 ⟨g, hsub hg, by simp [← hge, hpar]⟩

end CloudDrive.Cache
