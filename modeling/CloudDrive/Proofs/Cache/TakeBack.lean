import CloudDrive.Proofs.Cache.Scope

/-!
# Patches that are taken back

When the store refuses a change, its patch is undone by a rollback of the snapshot that was taken of
the scope of the patch (`takenBack`).

* `get?_takenBack`: if the patch has changed nothing outside its scope, everything is cached as
  before.
* `get?_apply_remove_of_not_touched`: a removal changes nothing outside its scope if each cached
  directory lists only what lies in it (`ListsOwn`). For a single move this holds of any cache.
* `takenBack_restores`: so the cache is as before when a deletion or a single move is refused.
-/

namespace CloudDrive.Cache

/-- The cache after a patch is applied and taken back. -/
def takenBack (c : Cache) (patch : Patch) : Cache :=
  (c.apply patch).rollback (c.begin (c.scopeFor patch))

theorem relists_takenBack (c : Cache) (patch : Patch) : Relists c (c.takenBack patch) :=
  (relists_apply c patch).trans (relists_rollback _ _)

/-- Each cached directory lists only entries that lie in it. -/
def ListsOwn (c : Cache) : Prop :=
  ∀ key l, c.get? key = some l → ∀ e ∈ l.entries, Path.parent e.path = key

theorem listsOwn_iff {c : Cache} :
    c.ListsOwn ↔ ∀ key ∈ c.keys, ∀ l ∈ c.get? key, ∀ e ∈ l.entries, Path.parent e.path = key := by
  refine ⟨fun h key _ l hl => h key l hl, fun h key l hl => h key ?_ l hl⟩
  rw [mem_keys_iff, hl]
  rfl

instance (c : Cache) : Decidable c.ListsOwn := decidable_of_iff _ listsOwn_iff.symm

section
variable {c : Cache}

/-- **A removal stays in its scope.** -/
theorem get?_apply_remove_of_not_touched (hown : c.ListsOwn) {paths : List String} {key : String}
    (hk : key ∉ c.touchedBy (.remove paths)) : (c.apply (.remove paths)).get? key = c.get? key := by
  show (c.removePaths paths).get? key = c.get? key
  rw [get?_removePaths]
  cases hl : c.get? key with
  | none => simp
  | some l =>
    have hnot : ∀ p ∈ paths, key ≠ Path.parent p ∧ Path.isWithin key p = false := by
      intro p hp
      have hp' : key ∉ Path.parent p :: c.keysWithin p := fun h =>
        hk (List.mem_flatMap.2 ⟨p, hp, h⟩)
      rw [List.mem_cons, not_or, mem_keysWithin, hl] at hp'
      exact ⟨hp'.1, by simpa using hp'.2⟩
    have hany : paths.any (Path.isWithin key ·) = false :=
      List.any_eq_false.2 fun p hp => by simp [(hnot p hp).2]
    have hkeep : l.entries.filter (! paths.contains ·.path) = l.entries := by
      refine List.filter_eq_self.2 fun e he => ?_
      simp only [List.contains_eq_mem, Bool.not_eq_true', decide_eq_false_iff_not]
      exact fun hmem => (hnot _ hmem).1 (hown key l hl e he).symm
    rw [hany, if_neg Bool.false_ne_true, Option.map_some, hkeep]

variable (hr : c.Reachable)
include hr

/-- A patch that stays in its scope is taken back in full. -/
theorem get?_takenBack {patch : Patch}
    (h : ∀ key ∉ c.touchedBy patch, (c.apply patch).get? key = c.get? key) (key : String) :
    (c.takenBack patch).get? key = c.get? key := by
  rw [takenBack, get?_rollback_apply hr]
  split
  · rfl
  · next hk => exact h key hk

theorem get?_takenBack_single (m : String × String) (key : String) :
    (c.takenBack (.move [m])).get? key = c.get? key :=
  get?_takenBack hr (fun _ hk => get?_apply_of_not_touched (not_carriesTwice_singleton c m) hk) key

theorem get?_takenBack_remove (hown : c.ListsOwn) (paths : List String) (key : String) :
    (c.takenBack (.remove paths)).get? key = c.get? key :=
  get?_takenBack hr (fun _ hk => get?_apply_remove_of_not_touched hown hk) key

/-- **A deletion or a single move that is taken back** leaves no trace: the same directories are
cached with the same listings, and the same ones are stale. The cache may have come to be by any
changes, and the paths may be any texts. They may be repeated or lie beneath each other, and a
directory may be moved to a place beneath itself. -/
theorem takenBack_restores (hown : c.ListsOwn) :
    (∀ paths, (∀ key, (c.takenBack (.remove paths)).get? key = c.get? key) ∧
        (c.takenBack (.remove paths)).stale = c.stale) ∧
      ∀ source destination,
        (∀ key, (c.takenBack (.move [(source, destination)])).get? key = c.get? key) ∧
          (c.takenBack (.move [(source, destination)])).stale = c.stale :=
  ⟨fun paths => ⟨get?_takenBack_remove hr hown paths, (relists_takenBack c _).stale⟩,
    fun source destination =>
      ⟨get?_takenBack_single hr (source, destination), (relists_takenBack c _).stale⟩⟩

end

/-- The root is fetched, a directory in it and a directory in that, and the outer one gets stale. -/
def nestedChanges : List Change :=
  [.insert (.ofEntries "/" [.directory "/a" default]),
    .insert (.ofEntries "/a" [.directory "/a/b" default, .file "/a/f" 7 default]),
    .insert (.ofEntries "/a/b" [.file "/a/b/f" 8 default]),
    .commit ⟨.paths ["/a"], 0, [("/a", none)]⟩]

def nestedCache : Cache := Cache.empty.runAll nestedChanges

/-- Paths beneath each other are deleted, and a directory is moved to a place beneath itself. -/
theorem takenBack_restores_nested :
    let deletion : Patch := .remove ["/a/b", "/a", "/a/b"]
    let move : Patch := .move [("/a", "/a/b/a")]
    nestedCache.Reachable ∧ nestedCache.ListsOwn ∧ nestedCache.stale = ["/a"] ∧
      ((nestedCache.apply deletion).keys = ["/"] ∧
        (∀ key, (nestedCache.takenBack deletion).get? key = nestedCache.get? key) ∧
          (nestedCache.takenBack deletion).stale = nestedCache.stale) ∧
      (nestedCache.apply move).keys = ["/", "/a/b/a", "/a/b/a/b"] ∧
        (∀ key, (nestedCache.takenBack move).get? key = nestedCache.get? key) ∧
          (nestedCache.takenBack move).stale = nestedCache.stale := by
  have hr : nestedCache.Reachable := ⟨_, rfl⟩
  have hown : nestedCache.ListsOwn := by decide
  obtain ⟨hremove, hmove⟩ := takenBack_restores hr hown
  exact ⟨hr, hown, by decide, ⟨by decide, hremove _⟩, by decide,
    hmove _ _⟩

end CloudDrive.Cache
