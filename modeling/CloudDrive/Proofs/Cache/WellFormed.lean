import CloudDrive.Proofs.Cache.TakeBack

/-!
# Well-formed listings

A listing is well-formed (`Listing.WellFormed`) if its entries lie directly in the listed directory,
have the last components of their paths as names, and no two of them have the same path. A cache is
(`Cache.WellFormed`) if every listing is and stands under the path of its directory.

* `WellFormed.listsOwn`: each directory lists only what lies in it, which is what it takes to undo a
  deletion.
* `Listing.WellFormed.rebased`: a listing that goes along with a move stays well-formed.
* `WellFormed.apply`, `WellFormed.rollback`: so does a cache when it is patched, and when a snapshot
  of a well-formed cache is rolled back in it.
* `wellFormed_runAll`: so does an empty cache under any changes that are admissible (`Admissible`):
  what is inserted is well-formed, what is moved has canonical paths, and a snapshot that is rolled
  back was taken before.
-/

namespace CloudDrive

open Path (Canonical IsComponent)

/-! ## Listings -/

/-- The entries lie in the directory, with distinct paths and the names that these end in. -/
structure Listing.WellFormed (l : Listing) : Prop where
  canonical : Canonical l.path
  entry : ∀ e ∈ l.entries,
    Canonical e.path ∧ Path.parent e.path = l.path ∧ e.name = Path.name e.path
  distinct : l.entries.Pairwise fun e e' => e.path ≠ e'.path

theorem Listing.wellFormed_iff {l : Listing} :
    l.WellFormed ↔ Canonical l.path ∧
      (∀ e ∈ l.entries,
        Canonical e.path ∧ Path.parent e.path = l.path ∧ e.name = Path.name e.path) ∧
      l.entries.Pairwise fun e e' => e.path ≠ e'.path :=
  ⟨fun h => ⟨h.canonical, h.entry, h.distinct⟩, fun ⟨hc, he, hd⟩ => ⟨hc, he, hd⟩⟩

instance (l : Listing) : Decidable l.WellFormed := decidable_of_iff _ Listing.wellFormed_iff.symm

section
variable {l : Listing} (h : l.WellFormed)
include h

theorem Listing.WellFormed.sublist {entries : List Entry} (hsub : entries.Sublist l.entries) :
    { l with entries }.WellFormed :=
  ⟨h.canonical, fun e he => h.entry e (hsub.subset he), h.distinct.sublist hsub⟩

theorem Listing.WellFormed.placeEntry {e : Entry} (hc : Canonical e.path)
    (hp : Path.parent e.path = l.path) (hn : e.name = Path.name e.path) :
    (Cache.placeEntry e l).WellFormed := by
  have hkept := h.sublist (List.filter_sublist (p := fun e' => e'.path != e.path))
  refine ⟨h.canonical, fun e' he' => ?_, ?_⟩
  · rcases List.mem_append.1 he' with he' | he'
    · exact hkept.entry e' he'
    · obtain rfl := List.mem_singleton.1 he'
      exact ⟨hc, hp, hn⟩
  · refine List.pairwise_append.2 ⟨hkept.distinct, List.pairwise_singleton _ _, ?_⟩
    intro e' he' e'' he''
    obtain rfl := List.mem_singleton.1 he''
    simpa using (List.mem_filter.1 he').2

variable {s d q : String} (hs : Canonical s) (hne : s ≠ Path.root) (hd : Canonical d)
  (hq : Path.rebase l.path s d = some q)
include hs hne hd hq

theorem Listing.WellFormed.rebasedEntry_eq {e : Entry} (he : e ∈ l.entries) :
    ∃ n, IsComponent n ∧ e.path = Path.join l.path n ∧
      Cache.rebasedEntry s d e = e.relocated (Path.join q n) := by
  obtain ⟨hc, hp, -⟩ := h.entry e he
  have hroot : e.path ≠ Path.root := by
    -- otherwise the root would be the directory, but it lies in nothing that is moved
    intro heq
    have hw := Path.isWithin_of_rebase h.canonical hq
    rw [← hp, heq, show Path.parent Path.root = Path.root from rfl] at hw
    exact hne (hs.eq_root hw)
  obtain ⟨dir, n, hdir, hn, hjoin⟩ := hc.eq_join hroot
  have hpar : dir = l.path := by
    rw [← hp, hjoin, Path.parent_join hdir hn]
  subst hpar
  refine ⟨n, hn, hjoin, ?_⟩
  unfold Cache.rebasedEntry
  rw [hjoin, Path.rebase_join h.canonical hn hs hd hq]

theorem Listing.WellFormed.rebased :
    (Listing.ofEntries q (l.entries.map (Cache.rebasedEntry s d))).WellFormed := by
  have hqc : Canonical q := h.canonical.rebase hs hd hq
  refine ⟨hqc, fun e' he' => ?_, ?_⟩
  · obtain ⟨e, he, rfl⟩ := List.mem_map.1 he'
    obtain ⟨n, hn, -, heq⟩ := h.rebasedEntry_eq hs hne hd hq he
    rw [heq]
    exact ⟨Path.canonical_join hqc hn, Path.parent_join hqc hn, rfl⟩
  · refine List.pairwise_map.2 (h.distinct.imp_of_mem fun {e e'} he he' hdiff heq => hdiff ?_)
    obtain ⟨n, hn, hpath, hreb⟩ := h.rebasedEntry_eq hs hne hd hq he
    obtain ⟨n', hn', hpath', hreb'⟩ := h.rebasedEntry_eq hs hne hd hq he'
    rw [hreb, hreb'] at heq
    obtain ⟨-, hnn⟩ := Path.join_inj hqc hqc hn hn' heq
    rw [hpath, hpath', hnn]

end

/-! ## Caches -/

namespace Cache

/-- Each listing is well-formed and stands under the path of its directory. -/
def WellFormed (c : Cache) : Prop :=
  ∀ key l, c.get? key = some l → l.path = key ∧ l.WellFormed

theorem wellFormed_empty : WellFormed .empty := fun key l hl => by cases hl

section
variable {c : Cache} (h : c.WellFormed)
include h

theorem WellFormed.listsOwn : c.ListsOwn := fun key l hl e he => by
  obtain ⟨hpath, hwell⟩ := h key l hl
  exact (hwell.entry e he).2.1.trans hpath

theorem WellFormed.insert {l : Listing} (hl : l.WellFormed) : (c.insert l).WellFormed := by
  intro key l' hl'
  rw [get?_insert] at hl'
  split at hl'
  · next hkey =>
    obtain rfl : l = l' := by simpa using hl'
    exact ⟨hkey.symm, hl⟩
  · exact h key l' hl'

theorem WellFormed.removePaths (paths : List String) : (c.removePaths paths).WellFormed := by
  intro key l hl
  rw [get?_removePaths] at hl
  split at hl
  · cases hl
  · obtain ⟨l', hl', rfl⟩ := Option.map_eq_some_iff.1 hl
    obtain ⟨hpath, hwell⟩ := h key l' hl'
    exact ⟨hpath, hwell.sublist List.filter_sublist⟩

theorem WellFormed.rollback {c₀ : Cache} (h₀ : c₀.WellFormed) (scope : Scope) :
    (c.rollback (c₀.begin scope)).WellFormed := by
  intro key l hl
  rw [get?_rollback] at hl
  split at hl
  · exact h key l hl
  · split at hl
    · exact h₀ key l hl
    · exact h key l hl

variable {s d : String} (hs : Canonical s) (hne : s ≠ Path.root) (hd : Canonical d)
include hs hne hd

/-- The listings beneath the source keep in step with their keys. -/
theorem WellFormed.carried {key : String} {l : Listing}
    (hl : (c.carried s d).find? key = some l) : l.path = key ∧ l.WellFormed := by
  refine (relocates_moveListing s d).forall_get_foldl
    (P := fun key l => l.path = key ∧ l.WellFormed) (fun key l q ⟨hpath, hwell⟩ hq => ?_)
    (c.keysWithin s) (fun key l hl => ?_) key l hl
  · exact ⟨rfl, hwell.rebased hs hne hd (hpath ▸ hq)⟩
  · rw [find?_withoutSource] at hl
    split at hl
    · obtain ⟨l', hl', rfl⟩ := Option.map_eq_some_iff.1 hl
      obtain ⟨hpath, hwell⟩ := h key l' hl'
      exact ⟨hpath, hwell.sublist List.eraseP_sublist⟩
    · exact h key l hl

theorem WellFormed.moveEntry : (c.moveEntry s d).WellFormed := by
  intro key l hl
  rw [get?_moveEntry] at hl
  split at hl
  · next hkey =>
    obtain ⟨l', hl', rfl⟩ := Option.map_eq_some_iff.1 hl
    obtain ⟨hpath, hwell⟩ := h.carried hs hne hd hl'
    unfold placed
    split
    · next e _ =>
      exact ⟨hpath, hwell.placeEntry (e := e.relocated d) hd (hkey.symm.trans hpath.symm) rfl⟩
    · exact ⟨hpath, hwell⟩
  · exact h.carried hs hne hd hl

end

/-! ## Admissible changes -/

/-- What is inserted is well-formed, what is moved has canonical paths and is not the root, and what
is rolled back is one of the snapshots at hand. -/
def Change.IsAdmissible (snapshots : List Snapshot) : Change → Prop
  | .insert listing => listing.WellFormed
  | .patch (.move moves) => ∀ m ∈ moves, Canonical m.1 ∧ m.1 ≠ Path.root ∧ Canonical m.2
  | .rollback snapshot => snapshot ∈ snapshots
  | _ => True

/-- The snapshot that a change takes. -/
def taken (c : Cache) : Change → List Snapshot
  | .begin scope => [c.begin scope]
  | _ => []

instance (snapshots : List Snapshot) : (x : Change) → Decidable (x.IsAdmissible snapshots)
  | .insert listing => inferInstanceAs (Decidable listing.WellFormed)
  | .patch (.remove _) => .isTrue trivial
  | .patch (.move moves) =>
    inferInstanceAs (Decidable (∀ m ∈ moves, Canonical m.1 ∧ m.1 ≠ Path.root ∧ Canonical m.2))
  | .begin _ => .isTrue trivial
  | .commit _ => .isTrue trivial
  | .rollback snapshot => inferInstanceAs (Decidable (snapshot ∈ snapshots))
  | .clear => .isTrue trivial

/-- Each change is admissible at its turn, with the snapshots that were taken before. -/
def Admissible (c : Cache) (snapshots : List Snapshot) : List Change → Prop
  | [] => True
  | x :: changes => x.IsAdmissible snapshots ∧ (c.run x).Admissible (c.taken x ++ snapshots) changes

def decidableAdmissible :
    (c : Cache) → (snapshots : List Snapshot) → (changes : List Change) →
      Decidable (c.Admissible snapshots changes)
  | _, _, [] => .isTrue trivial
  | c, snapshots, x :: changes =>
    have := decidableAdmissible (c.run x) (c.taken x ++ snapshots) changes
    inferInstanceAs (Decidable (_ ∧ _))

instance (c : Cache) (snapshots : List Snapshot) (changes : List Change) :
    Decidable (c.Admissible snapshots changes) := decidableAdmissible c snapshots changes

theorem WellFormed.applyMoves {c : Cache} (h : c.WellFormed) {moves : List (String × String)}
    (hm : ∀ m ∈ moves, Canonical m.1 ∧ m.1 ≠ Path.root ∧ Canonical m.2) :
    (c.apply (.move moves)).WellFormed := by
  induction moves generalizing c with
  | nil => exact h
  | cons m moves ih =>
    obtain ⟨hs, hne, hd⟩ := hm m List.mem_cons_self
    exact ih (h.moveEntry hs hne hd) fun x hx => hm x (List.mem_cons_of_mem _ hx)

/-- The snapshots are of well-formed caches. -/
def AreWellFormed (snapshots : List Snapshot) : Prop :=
  ∀ s ∈ snapshots, ∃ c : Cache, c.WellFormed ∧ ∃ scope, s = c.begin scope

/-- **An admissible change** keeps a cache well-formed. -/
theorem WellFormed.run {c : Cache} (h : c.WellFormed) {snapshots : List Snapshot}
    (hsnapshots : AreWellFormed snapshots) {x : Change} (hx : x.IsAdmissible snapshots) :
    (c.run x).WellFormed := by
  cases x with
  | insert listing => exact h.insert hx
  | patch patch =>
    cases patch with
    | remove paths => exact h.removePaths paths
    | move moves => exact h.applyMoves hx
  | begin scope => exact h
  | commit snapshot => exact h
  | rollback snapshot =>
    obtain ⟨c₀, h₀, scope, rfl⟩ := hsnapshots snapshot hx
    exact h.rollback h₀ scope
  | clear => exact wellFormed_empty

theorem WellFormed.taken {c : Cache} (h : c.WellFormed) (x : Change) :
    AreWellFormed (c.taken x) := by
  cases x with
  | begin scope =>
    intro s hs
    obtain rfl := List.mem_singleton.1 hs
    exact ⟨c, h, scope, rfl⟩
  | _ => exact fun s hs => absurd hs List.not_mem_nil

theorem WellFormed.runAll {c : Cache} (h : c.WellFormed) {snapshots : List Snapshot}
    (hsnapshots : AreWellFormed snapshots) {changes : List Change}
    (hc : c.Admissible snapshots changes) : (c.runAll changes).WellFormed := by
  induction changes generalizing c snapshots with
  | nil => exact h
  | cons x changes ih =>
    obtain ⟨hx, hrest⟩ := hc
    refine ih (h.run hsnapshots hx) (fun s hs => ?_) hrest
    exact (List.mem_append.1 hs).elim (h.taken x s) (hsnapshots s)

/-- **A run of admissible changes** from an empty cache keeps it well-formed: each listing stands
under its own path, and its entries lie in it, with distinct paths and the names that these end in.
Directories may be moved over cached ones or beneath themselves, and a snapshot may be rolled back
at any time after it was taken, and more than once. -/
theorem wellFormed_runAll {changes : List Change} (h : Cache.empty.Admissible [] changes) :
    (Cache.empty.runAll changes).WellFormed :=
  wellFormed_empty.runAll (fun _ hs => absurd hs List.not_mem_nil) h

/-- A directory is deleted, which is undone by a snapshot of all listings, and is then moved into
the place of one beneath it. -/
theorem wellFormed_runAll_nested :
    let changes : List Change := nestedChanges ++
      [.begin .allListings, .patch (.remove ["/a"]), .rollback (nestedCache.begin .allListings),
        .patch (.move [("/a", "/a/b")])]
    Cache.empty.Admissible [] changes ∧
      (Cache.empty.runAll changes).keys = ["/", "/a/b/b"] ∧
      (Cache.empty.runAll changes).WellFormed := by
  intro changes
  have h : Cache.empty.Admissible [] changes := by decide
  exact ⟨h, by decide, wellFormed_runAll h⟩

end Cache

end CloudDrive
