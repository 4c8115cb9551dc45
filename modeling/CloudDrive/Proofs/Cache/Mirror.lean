import CloudDrive.Proofs.Cache.Patch
import CloudDrive.Proofs.Store.Calls
import Mathlib.Data.List.Nodup

/-!
# Patches predict the store

A cache mirrors a catalog (`Mirrors`) when each cached directory is a directory of the catalog, and
its listing holds what the catalog holds there, in any order.

* `mirrorsExcept_moveEntry`: while the store moves a subtree, the patch of the cache moves the
  listings in the same way; the two parents apart, this asks nothing of the cache.
* `mirrors_moveEntry`: if the parent of the source is cached, the two parents agree as well.
* `mirrors_removePaths`: a removal drops what the store deletes.
* `mirrors_apply`: lists of moves, and removals.
-/

namespace CloudDrive.Cache

open Path (Canonical)
open Store (Catalog)

/-- Each cached directory is a directory of the catalog, and is listed as it is. -/
def Mirrors (c : Cache) (t : Catalog) : Prop :=
  ∀ key l, c.get? key = some l → t.IsDirectory key ∧ l.entries.Perm (t.children key)

/-- The same, but for what is listed of some directories. -/
def MirrorsExcept (keys : List String) (c : Cache) (t : Catalog) : Prop :=
  ∀ key l, c.get? key = some l →
    t.IsDirectory key ∧ (key ∉ keys → l.entries.Perm (t.children key))

theorem mirrorsExcept_nil {c : Cache} {t : Catalog} : MirrorsExcept [] c t ↔ Mirrors c t := by
  simp [MirrorsExcept, Mirrors]

theorem mirrors_congr {c c' : Cache} {t : Catalog} (h : ∀ key, c.get? key = c'.get? key) :
    Mirrors c t ↔ Mirrors c' t := by
  simp only [Mirrors, h]

theorem MirrorsExcept.mono {keys keys' : List String} {c : Cache} {t : Catalog}
    (h : MirrorsExcept keys c t) (hk : keys ⊆ keys') : MirrorsExcept keys' c t :=
  fun key l hl => ⟨(h key l hl).1, fun hn => (h key l hl).2 fun hm => hn (hk hm)⟩

theorem Mirrors.except {c : Cache} {t : Catalog} (h : Mirrors c t) (keys : List String) :
    MirrorsExcept keys c t :=
  (mirrorsExcept_nil.2 h).mono (List.nil_subset keys)

theorem MirrorsExcept.hasCanonicalKeys {keys : List String} {c : Cache} {t : Catalog}
    (h : MirrorsExcept keys c t) (ht : t.IsTree) : c.HasCanonicalKeys := by
  intro key hk
  obtain ⟨l, hl⟩ := Option.isSome_iff_exists.1 hk
  exact ht.canonical_of_isDirectory (h key l hl).1

theorem mirrors_iff {c : Cache} {t : Catalog} :
    Mirrors c t ↔ ∀ key ∈ c.keys, t.IsDirectory key ∧
      ∀ l ∈ c.get? key, l.entries.Perm (t.children key) := by
  constructor
  · intro h key hk
    obtain ⟨l, hl⟩ := Option.isSome_iff_exists.1 ((mem_keys_iff c key).1 hk)
    refine ⟨(h key l hl).1, fun l' hl' => (h key l' hl').2⟩
  · intro h key l hl
    have hk := h key ((mem_keys_iff c key).2 (by rw [hl]; rfl))
    exact ⟨hk.1, hk.2 l hl⟩

instance (c : Cache) (t : Catalog) : Decidable (Mirrors c t) := decidable_of_iff _ mirrors_iff.symm

/-! ## Listings of a directory -/

theorem perm_children {t : Catalog} {key : String} {es : List Entry} :
    es.Perm (t.children key) ↔ es.Nodup ∧ ∀ e, e ∈ es ↔ e ∈ t.children key := by
  constructor
  · intro h
    exact ⟨h.nodup_iff.2 (t.nodup_children key), fun e => h.mem_iff⟩
  · rintro ⟨hn, h⟩
    exact (List.perm_ext_iff_of_nodup hn (t.nodup_children key)).2 h

theorem eq_of_mem_children {t : Catalog} {key key' : String} {e e' : Entry}
    (h : e ∈ t.children key) (h' : e' ∈ t.children key') (hp : e.path = e'.path) : e = e' := by
  have h₁ := (Catalog.mem_children.1 h).1
  rw [hp, (Catalog.mem_children.1 h').1, Option.some.injEq] at h₁
  exact h₁.symm

/-- Where every entry has a path of its own, all entries at a path are the first one. -/
theorem eraseP_path {es : List Entry} (hn : es.Nodup)
    (hp : ∀ e ∈ es, ∀ e' ∈ es, e.path = e'.path → e = e') (p : String) :
    es.eraseP (·.path == p) = es.filter (·.path != p) := by
  induction es with
  | nil => rfl
  | cons e es ih =>
    rw [List.nodup_cons] at hn
    have ih := ih hn.2 fun x hx y hy =>
      hp x (List.mem_cons_of_mem _ hx) y (List.mem_cons_of_mem _ hy)
    by_cases he : e.path = p
    · have hrest : ∀ x ∈ es, x.path ≠ p := fun x hx hxp => by
        have := hp e List.mem_cons_self x (List.mem_cons_of_mem _ hx) (he.trans hxp.symm)
        exact hn.1 (this ▸ hx)
      rw [List.eraseP_cons_of_pos (by simpa using he), List.filter_cons_of_neg (by simpa using he)]
      exact (List.filter_eq_self.2 fun x hx => by simpa using hrest x hx).symm
    · rw [List.eraseP_cons_of_neg (by simpa using he), List.filter_cons_of_pos (by simpa using he),
        ih]

section
variable {t : Catalog} {key : String} {l : Listing} (hl : l.entries.Perm (t.children key))
include hl

theorem entries_dropEntry (p : String) :
    (dropEntry p l).entries = l.entries.filter (·.path != p) := by
  obtain ⟨hn, hm⟩ := perm_children.1 hl
  exact eraseP_path hn (fun e he e' he' => eq_of_mem_children ((hm e).1 he) ((hm e').1 he')) p

theorem find?_listed {e : Entry} (he : e ∈ t.children key) :
    l.entries.find? (·.path == e.path) = some e := by
  obtain ⟨-, hm⟩ := perm_children.1 hl
  have hs : (l.entries.find? (·.path == e.path)).isSome = true :=
    List.find?_isSome.2 ⟨e, (hm e).2 he, by simp⟩
  obtain ⟨x, hx⟩ := Option.isSome_iff_exists.1 hs
  have hp : x.path = e.path := by simpa using List.find?_some hx
  rw [hx, eq_of_mem_children ((hm x).1 (List.mem_of_find?_eq_some hx)) he hp]

end

/-! ## One move -/

section
variable {t : Catalog} (ht : t.IsTree) {s d : String} (hm : t.Movable s d)
include ht hm

/-- A listing that is moved with its directory holds what the directory holds then. -/
theorem perm_rebasedEntry {x q : String} {es : List Entry} (hx : Canonical x)
    (hq : Path.rebase x s d = some q) (h : es.Perm (t.children x)) :
    (es.map (rebasedEntry s d)).Perm ((t.move s d).children q) := by
  have hs := hm.canonical_source ht
  obtain ⟨hn, hmem⟩ := perm_children.1 h
  have hreb : ∀ y ∈ es, ∃ p, Canonical y.path ∧ Path.rebase y.path s d = some p ∧
      rebasedEntry s d y = y.relocated p := by
    intro y hy
    obtain ⟨hf, hpar, -⟩ := Catalog.mem_children.1 ((hmem y).1 hy)
    have hyc := ht.canonical _ y hf
    have hw : Path.isWithin y.path s = true := by
      refine (Path.isWithin_iff_parent hyc (ht.ne_root _ y hf) hs).2 (.inr ?_)
      rw [hpar]
      exact Path.isWithin_of_rebase hx hq
    obtain ⟨p, hp, -⟩ := Path.exists_rebase hyc hs hm.canonical hw
    exact ⟨p, hyc, hp, by simp [rebasedEntry, hp]⟩
  rw [perm_children]
  constructor
  · refine List.Nodup.map_on (fun y hy y' hy' he => ?_) hn
    obtain ⟨p, hyc, hp, hr⟩ := hreb y hy
    obtain ⟨p', hyc', hp', hr'⟩ := hreb y' hy'
    have hpp : p = p' := by
      have := congrArg Entry.path (hr.symm.trans (he.trans hr'))
      exact this
    have hback := Path.rebase_rebase hyc hs hm.canonical hp
    rw [hpp, Path.rebase_rebase hyc' hs hm.canonical hp', Option.some.injEq] at hback
    exact eq_of_mem_children ((hmem y).1 hy) ((hmem y').1 hy') hback.symm
  · intro e
    rw [List.mem_map, Catalog.mem_children_move_target ht hm hx hq]
    constructor
    · rintro ⟨y, hy, rfl⟩
      obtain ⟨p, -, hp, hr⟩ := hreb y hy
      exact ⟨y, (hmem y).1 hy, p, hp, hr⟩
    · rintro ⟨y, hy, p, hp, rfl⟩
      exact ⟨y, (hmem y).2 hy, by simp [rebasedEntry, hp]⟩

/-- The directory that the source lies in lies apart from the move. -/
theorem parent_source_apart :
    Path.isWithin (Path.parent s) s = false ∧ Path.isWithin (Path.parent s) d = false := by
  have hs := hm.canonical_source ht
  obtain ⟨e, he⟩ := Option.isSome_iff_exists.1 hm.stored
  refine ⟨Bool.eq_false_iff.2 fun hw => ?_, Bool.eq_false_iff.2 fun hw => ?_⟩
  · obtain ⟨b, n, hb, hn, rfl⟩ := hs.eq_join (hm.source_ne_root ht)
    rw [Path.parent_join hb hn, Path.not_isWithin_join hb hn] at hw
    cases hw
  · exact hm.not_isDirectory ht hw (ht.parent s e he)

variable {keys : List String} {c : Cache} (hc : MirrorsExcept keys c t)
include hc

/-- What is cached after the move lies apart from it and was cached before, or lies where a cached
directory was moved to. -/
theorem get?_moveEntry_eq_some {key : String} {l : Listing}
    (h : (c.moveEntry s d).get? key = some l) :
    (Path.isWithin key s = false ∧ Path.isWithin key d = false ∧ (c.get? key).isSome = true) ∨
      ∃ x l₀, Canonical x ∧ c.get? x = some l₀ ∧ Path.rebase x s d = some key ∧
        l.entries = l₀.entries.map (rebasedEntry s d) := by
  have hs := hm.canonical_source ht
  have hd := hm.canonical
  have hcan := hc.hasCanonicalKeys ht
  have hkey : Canonical key := hcan.moveEntry hs hd key (by rw [h]; rfl)
  have hdisj := fun q hq hw => hm.disjoint ht (q := q) hq hw
  by_cases hks : Path.isWithin key s = true
  · rw [get?_moveEntry_source hcan hs hd hdisj hkey hks] at h
    cases h
  · by_cases hkd : Path.isWithin key d = true
    · obtain ⟨x, -, hx, hxs, hq⟩ := Path.exists_rebase hkey hd hs hkd
      have hxp : x ≠ Path.parent s := fun e => by
        rw [e, (parent_source_apart ht hm).1] at hxs
        cases hxs
      have hqp : key ≠ Path.parent d := fun e => by
        rw [e, (hm.parent_apart ht).2] at hkd
        cases hkd
      have hfree : ∀ k, (c.get? k).isSome = true → Path.isWithin k d = false := fun k hk => by
        obtain ⟨l', hl'⟩ := Option.isSome_iff_exists.1 hk
        exact Bool.eq_false_iff.2 fun hw => hm.not_isDirectory ht hw (hc k l' hl').1
      rw [get?_moveEntry_target hcan hs hd hfree hx hq hxp hqp, Option.map_eq_some_iff] at h
      obtain ⟨l₀, hl₀, rfl⟩ := h
      exact .inr ⟨x, l₀, hx, hl₀, hq, rfl⟩
    · rw [Bool.not_eq_true] at hks hkd
      refine .inl ⟨hks, hkd, ?_⟩
      have hsome : ((c.moveEntry s d).get? key).isSome = true := by rw [h]; rfl
      rw [get?_moveEntry_apart hcan hs hd hks hkd] at hsome
      revert hsome
      cases c.get? key <;> simp

/-- **The cache follows a move of the store**, but for the parents of the two paths. -/
theorem mirrorsExcept_moveEntry (hkeys : ∀ k ∈ keys, Path.isWithin k s = false) :
    MirrorsExcept (Path.parent s :: Path.parent d :: keys) (c.moveEntry s d) (t.move s d) := by
  intro key l h
  rcases get?_moveEntry_eq_some ht hm hc h with ⟨hks, hkd, hsome⟩ | ⟨x, l₀, hx, hl₀, hq, hl⟩
  · obtain ⟨l₀, hl₀⟩ := Option.isSome_iff_exists.1 hsome
    refine ⟨(Catalog.isDirectory_move_apart ht hm hks hkd).2 (hc key l₀ hl₀).1, fun hn => ?_⟩
    simp only [List.mem_cons, not_or] at hn
    obtain ⟨hns, hnd, hn⟩ := hn
    have hsame := get?_moveEntry_apart (hc.hasCanonicalKeys ht) (hm.canonical_source ht)
      hm.canonical hks hkd
    simp only [if_neg hns, if_neg hnd] at hsame
    rw [hsame, hl₀, Option.some.injEq] at h
    have hperm := (hc key l₀ hl₀).2 hn
    rw [h] at hperm
    obtain ⟨hnodup, hmem⟩ := perm_children.1 hperm
    refine perm_children.2 ⟨hnodup, fun e => ?_⟩
    rw [hmem, Catalog.mem_children_move ht hm hks hkd]
    refine ⟨fun he => .inl ⟨he, fun hes => ?_⟩, ?_⟩
    · exact hns (hes ▸ (Catalog.mem_children.1 he).2.1.symm)
    · rintro (⟨he, -⟩ | ⟨hk, -⟩)
      · exact he
      · exact absurd hk hnd
  · obtain ⟨hdir, hperm⟩ := hc x l₀ hl₀
    refine ⟨(Catalog.isDirectory_move_target ht hm hx hq).2 hdir, fun _ => ?_⟩
    rw [hl]
    refine perm_rebasedEntry ht hm hx hq (hperm fun hk => ?_)
    have := Path.isWithin_of_rebase hx hq
    rw [hkeys x hk] at this
    cases this

omit ht hm hc in
theorem mem_dropSource {key : String} {l : Listing} (hl : l.entries.Perm (t.children key)) :
    let left := if key = Path.parent s then dropEntry s l else l
    left.entries.Nodup ∧ ∀ e, e ∈ left.entries ↔ e ∈ t.children key ∧ e.path ≠ s := by
  intro left
  obtain ⟨hn, hmem⟩ := perm_children.1 hl
  by_cases hk : key = Path.parent s
  · have hleft : left.entries = l.entries.filter (·.path != s) := by
      rw [show left = dropEntry s l from if_pos hk, entries_dropEntry hl]
    rw [hleft]
    exact ⟨hn.filter _, fun e => by simp [hmem]⟩
  · rw [show left = l from if_neg hk]
    refine ⟨hn, fun e => ⟨fun he => ⟨(hmem e).1 he, fun hes => ?_⟩, fun he => (hmem e).2 he.1⟩⟩
    exact hk (hes ▸ (Catalog.mem_children.1 ((hmem e).1 he)).2.1.symm)

end

section
variable {t : Catalog} (ht : t.IsTree) {s d : String} (hm : t.Movable s d) {c : Cache}
  (hc : Mirrors c t) (hp : (c.get? (Path.parent s)).isSome = true)
include ht hm hc hp

theorem listedEntry?_source : ∃ e, t.find? s = some e ∧ c.listedEntry? s = some e := by
  obtain ⟨e, he⟩ := Option.isSome_iff_exists.1 hm.stored
  obtain ⟨l, hl⟩ := Option.isSome_iff_exists.1 hp
  obtain rfl := Catalog.path_of_find? he
  have hne : e.path ≠ Path.parent e.path := fun h => by
    have := (parent_source_apart ht hm).1
    rw [← h, Path.isWithin_refl (hm.canonical_source ht)] at this
    cases this
  have hmem : e ∈ t.children (Path.parent e.path) := Catalog.mem_children.2 ⟨he, rfl, hne⟩
  refine ⟨e, he, ?_⟩
  unfold listedEntry?
  rw [hl]
  exact find?_listed (hc _ l hl).2 hmem

/-- **The cache follows a move of the store**, if the directory of the source is cached. -/
theorem mirrors_moveEntry : Mirrors (c.moveEntry s d) (t.move s d) := by
  intro key l h
  have hcan := (hc.except []).hasCanonicalKeys ht
  obtain ⟨hdir, hrest⟩ := mirrorsExcept_moveEntry ht hm (hc.except []) (by simp) key l h
  refine ⟨hdir, ?_⟩
  by_cases hk : key = Path.parent s ∨ key = Path.parent d
  · -- both parents lie apart from the move
    obtain ⟨hks, hkd⟩ : Path.isWithin key s = false ∧ Path.isWithin key d = false := by
      rcases hk with rfl | rfl
      · exact parent_source_apart ht hm
      · exact hm.parent_apart ht
    obtain ⟨e, he, hlisted⟩ := listedEntry?_source ht hm hc hp
    rw [get?_moveEntry_apart hcan (hm.canonical_source ht) hm.canonical hks hkd] at h
    cases hg : c.get? key with
    | none => simp [hg] at h
    | some l₀ =>
      obtain ⟨hn, hmem⟩ := mem_dropSource (s := s) (hc key l₀ hg).2
      revert hn hmem
      generalize hleft : (if key = Path.parent s then dropEntry s l₀ else l₀) = left
      intro hn hmem
      have h : (if key = Path.parent d then placeEntry (e.relocated d) left else left) = l := by
        rw [hg] at h
        by_cases hs' : key = Path.parent s <;> by_cases hd' : key = Path.parent d <;>
          simp_all [placed]
      have hfree : ∀ x ∈ left.entries, x.path ≠ d := fun x hx hxd => by
        have := (Catalog.mem_children.1 ((hmem x).1 hx).1).1
        rw [hxd, hm.find?_eq_none ht (Path.isWithin_refl hm.canonical)] at this
        cases this
      by_cases hkd' : key = Path.parent d
      · have hl : l.entries = left.entries ++ [e.relocated d] := by
          rw [← h, if_pos hkd', placeEntry, Entry.relocated_path]
          rw [List.filter_eq_self.2 fun x hx => by simpa using hfree x hx]
        refine perm_children.2 ⟨?_, fun x => ?_⟩
        · rw [hl, List.nodup_append]
          refine ⟨hn, by simp, fun x hx y hy hxy => hfree x hx ?_⟩
          rw [hxy, List.mem_singleton.1 hy]
          rfl
        · rw [hl, List.mem_append, List.mem_singleton, hmem,
            Catalog.mem_children_move ht hm hks hkd, he]
          simp [hkd']
      · rw [if_neg hkd'] at h
        refine perm_children.2 ⟨h ▸ hn, fun x => ?_⟩
        rw [← h, hmem, Catalog.mem_children_move ht hm hks hkd]
        simp [hkd']
  · refine hrest ?_
    simpa [not_or] using hk

end

/-! ## Removals -/

/-- **The cache follows a deletion** of stored entries. -/
theorem mirrors_removePaths {t : Catalog} (ht : t.IsTree) {c : Cache} (hc : Mirrors c t)
    {paths : List String} (hp : ∀ p ∈ paths, (t.find? p).isSome = true) :
    Mirrors (c.removePaths paths) (t.eraseAllWithin paths) := by
  intro key l h
  rw [get?_removePaths] at h
  cases hw : paths.any (Path.isWithin key ·) with
  | true => simp [hw] at h
  | false =>
    rw [hw, if_neg (by simp), Option.map_eq_some_iff] at h
    obtain ⟨l₀, hl₀, rfl⟩ := h
    obtain ⟨hdir, hperm⟩ := hc key l₀ hl₀
    obtain ⟨hn, hmem⟩ := perm_children.1 hperm
    refine ⟨(Catalog.isDirectory_eraseAllWithin ht hp).2 ⟨hdir, hw⟩,
      perm_children.2 ⟨hn.filter _, fun e => ?_⟩⟩
    rw [List.mem_filter, hmem, Catalog.mem_children_eraseAllWithin]
    refine and_congr_right fun he => ?_
    obtain ⟨hf, hpar, -⟩ := Catalog.mem_children.1 he
    have hec := ht.canonical _ e hf
    -- below a directory that stays, only the paths themselves are deleted
    have honly : ∀ p ∈ paths, Path.isWithin e.path p = true ↔ e.path = p := by
      intro p hpm
      have hpc := (ht.ne_root_of_stored hp p hpm).1
      rw [Path.isWithin_iff_parent hec (ht.ne_root _ e hf) hpc, hpar, or_iff_left]
      simpa using (List.any_eq_false.1 hw) p hpm
    rw [List.any_eq_false]
    simp only [Bool.not_eq_true', List.contains_eq_mem, decide_eq_false_iff_not]
    constructor
    · intro hnot p hpm hwp
      exact hnot ((honly p hpm).1 hwp ▸ hpm)
    · intro hall hmem'
      exact hall e.path hmem' ((honly e.path hmem').2 rfl)

/-! ## Patches -/

/-- The store after moves that are tried one after another. -/
def storeAfter (s : Store) (moves : List (String × String)) : Store :=
  moves.foldl (fun s m => (s.move m.1 m.2).2) s

/-- The store accepts the moves one after another, and at each the directory of the source is
cached. -/
def AcceptedInTurn (c : Cache) (s : Store) : List (String × String) → Prop
  | [] => True
  | m :: moves =>
    (c.get? (Path.parent m.1)).isSome = true ∧ (s.move m.1 m.2).1 = .ok () ∧
      AcceptedInTurn (c.moveEntry m.1 m.2) (s.move m.1 m.2).2 moves

theorem movable_of_accepted {s : Store} {source destination : String}
    (hd : Canonical destination) (h : (s.move source destination).1 = .ok ()) :
    s.catalog.Movable source destination ∧
      (s.move source destination).2.catalog = s.catalog.move source destination := by
  rcases (s.move_cases source destination).2 with ⟨f, hf, -⟩ | ⟨-, hm, hcat⟩
  · rw [h] at hf
    cases hf
  · exact ⟨Store.movable_of_moveFailure? hd hm, hcat⟩

theorem mirrors_applyMoves {moves : List (String × String)} {c : Cache} {s : Store}
    (hs : s.catalog.IsTree) (hc : Mirrors c s.catalog)
    (hcan : ∀ m ∈ moves, Canonical m.1 ∧ Canonical m.2) (h : AcceptedInTurn c s moves) :
    Mirrors (c.apply (.move moves)) (storeAfter s moves).catalog := by
  induction moves generalizing c s with
  | nil => exact hc
  | cons m moves ih =>
    obtain ⟨hp, hok, hrest⟩ := h
    obtain ⟨hm, hcat⟩ := movable_of_accepted (hcan m List.mem_cons_self).2 hok
    rw [apply_move_cons]
    refine ih ?_ ?_ (fun x hx => hcan x (List.mem_cons_of_mem _ hx)) hrest
    · rw [hcat]
      exact hs.move hm
    · rw [hcat]
      exact mirrors_moveEntry hs hm hc hp

/-- **A patch predicts the store.** For a cache that mirrors a tree-shaped store: moves that the
store accepts one after another, each with the directory of its source cached when its turn comes,
leave the patched cache a mirror of the store after them; and so does a removal of paths that the
store deletes completely. -/
theorem mirrors_apply {c : Cache} {s : Store} (hs : s.catalog.WellShaped)
    (hc : Mirrors c s.catalog) :
    (∀ moves, (∀ m ∈ moves, Canonical m.1 ∧ Canonical m.2) → AcceptedInTurn c s moves →
        Mirrors (c.apply (.move moves)) (storeAfter s moves).catalog) ∧
      ∀ paths report, (s.delete paths).1 = .ok report → report.isComplete = true →
        Mirrors (c.apply (.remove paths)) (s.delete paths).2.catalog := by
  refine ⟨fun moves hcan h => mirrors_applyMoves hs.tree hc hcan h, fun paths report hr hall => ?_⟩
  rcases (s.delete_cases paths).2 with ⟨f, hf, -⟩ | ⟨gone, failed, hok, hcat, -, hst, hgone⟩
  · rw [hf] at hr
    cases hr
  · rw [hok, Except.ok.injEq] at hr
    subst hr
    obtain rfl := hgone (by simpa [Remote.DeleteReport.isComplete] using hall)
    rw [hcat]
    exact mirrors_removePaths hs.tree hc hst

/-- A directory with a file, and a directory beside it. -/
def sampleCatalog : Catalog :=
  .ofEntries [.directory "/a" default, .file "/a/f" 7 default, .directory "/b" default]

/-- Every directory of the sample cached. -/
def sampleCache : Cache :=
  ["/", "/a", "/b"].foldl
    (fun c key => c.insert (.ofEntries key (sampleCatalog.children key))) .empty

theorem mirrors_apply_sample :
    Mirrors (sampleCache.apply (.move [("/a", "/b/a"), ("/b/a/f", "/g")]))
        (storeAfter (.ofCatalog sampleCatalog default) [("/a", "/b/a"), ("/b/a/f", "/g")]).catalog ∧
      Mirrors (sampleCache.apply (.remove ["/a", "/b"]))
        ((Store.ofCatalog sampleCatalog default).delete ["/a", "/b"]).2.catalog := by
  have h := mirrors_apply (c := sampleCache) (s := .ofCatalog sampleCatalog default)
    (by decide) (by decide)
  refine ⟨h.1 _ (by decide) ?_, h.2 _ ⟨["/a", "/b"], []⟩ (by decide +kernel) rfl⟩
  exact ⟨by decide, by decide +kernel, by decide +kernel, by decide, trivial⟩

end CloudDrive.Cache
