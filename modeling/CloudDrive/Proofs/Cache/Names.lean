import CloudDrive.Proofs.Cache.Patch
import CloudDrive.Proofs.Path.Spelling

/-!
# Names in cached listings

A cache is well-named (`Cache.WellNamed`) if every entry that it lists has a component as its name.
No more is asked of the listings: their entries may lie anywhere, in any order and more than once.

* `WellNamed.insert`, `WellNamed.apply`, `WellNamed.rollback`: a cache stays so if what is fetched
is, if what is moved goes to paths that have a name, and if the snapshot was taken of such a cache.
-/

namespace CloudDrive

open Path (IsComponent)

/-- Every entry has a component as its name. -/
def Listing.WellNamed (l : Listing) : Prop := ∀ e ∈ l.entries, IsComponent e.name

theorem Listing.WellNamed.mono {l l' : Listing} (h : l.WellNamed) (hs : l'.entries ⊆ l.entries) :
    l'.WellNamed := fun e he => h e (hs he)

namespace Cache

/-- Every listing is well-named. -/
def WellNamed (c : Cache) : Prop := ∀ key l, c.get? key = some l → l.WellNamed

/-- A snapshot of a well-named cache. -/
def Snapshot.WellNamed (s : Snapshot) : Prop :=
  ∃ c : Cache, c.WellNamed ∧ ∃ scope, s = c.begin scope

/-- What is moved goes to a path that has a name. -/
def Patch.WellNamed : Patch → Prop
  | .remove _ => True
  | .move moves => ∀ m ∈ moves, IsComponent (Path.name m.2)

theorem wellNamed_empty : WellNamed .empty := fun key l hl => by cases hl

theorem wellNamed_rebasedEntry {source destination : String} {e : Entry}
    (he : IsComponent e.name) (hd : IsComponent (Path.name destination)) :
    IsComponent (rebasedEntry source destination e).name := by
  unfold rebasedEntry
  split
  · next hq => exact Path.isComponent_name_rebase hq hd
  · exact he

section
variable {c : Cache} (h : c.WellNamed)
include h

theorem WellNamed.insert {l : Listing} (hl : l.WellNamed) : (c.insert l).WellNamed := by
  intro key l' hl'
  rw [get?_insert] at hl'
  split at hl'
  · exact Option.some.inj hl' ▸ hl
  · exact h key l' hl'

theorem WellNamed.removePaths (paths : List String) : (c.removePaths paths).WellNamed := by
  intro key l hl
  rw [get?_removePaths] at hl
  split at hl
  · cases hl
  · obtain ⟨l', hl', rfl⟩ := Option.map_eq_some_iff.1 hl
    exact (h key l' hl').mono List.filter_sublist.subset

section
variable {source destination : String} (hd : IsComponent (Path.name destination))
include hd

theorem WellNamed.carried (key : String) (l : Listing)
    (hl : (c.carried source destination).find? key = some l) : l.WellNamed := by
  refine (relocates_moveListing source destination).forall_get_foldl
    (P := fun _ l => l.WellNamed) (fun _ l q hl _ e he => ?_) (c.keysWithin source)
    (fun key l hl => ?_) key l hl
  · obtain ⟨old, hold, rfl⟩ := List.mem_map.1 he
    exact wellNamed_rebasedEntry (hl old hold) hd
  · rw [find?_withoutSource] at hl
    split at hl
    · obtain ⟨l', hl', rfl⟩ := Option.map_eq_some_iff.1 hl
      exact (h key l' hl').mono List.eraseP_subset
    · exact h key l hl

theorem WellNamed.moveEntry : (c.moveEntry source destination).WellNamed := by
  intro key l hl
  rw [get?_moveEntry] at hl
  split at hl
  · obtain ⟨l', hl', rfl⟩ := Option.map_eq_some_iff.1 hl
    have hcarried := h.carried hd key l' hl'
    unfold placed
    split
    · intro e he
      rcases List.mem_append.1 he with he | he
      · exact hcarried e (List.mem_filter.1 he).1
      · exact List.mem_singleton.1 he ▸ hd
    · exact hcarried
  · exact h.carried hd key l hl

end

/-- **A patch** keeps a cache well-named. -/
theorem WellNamed.apply {patch : Patch} (hp : patch.WellNamed) : (c.apply patch).WellNamed := by
  cases patch with
  | remove paths => exact h.removePaths paths
  | move moves =>
    induction moves generalizing c with
    | nil => exact h
    | cons m moves ih =>
      obtain ⟨hm, hmoves⟩ := List.forall_mem_cons.1 hp
      exact ih (h.moveEntry hm) hmoves

theorem WellNamed.begin (scope : Scope) : (c.begin scope).WellNamed := ⟨c, h, scope, rfl⟩

/-- **A rollback** keeps a cache well-named. -/
theorem WellNamed.rollback {s : Snapshot} (hs : s.WellNamed) : (c.rollback s).WellNamed := by
  obtain ⟨c₀, h₀, scope, rfl⟩ := hs
  intro key l hl
  rw [get?_rollback] at hl
  split at hl
  · exact h key l hl
  · split at hl
    · exact h₀ key l hl
    · exact h key l hl

end

end Cache

end CloudDrive
