import CloudDrive.Cache.Transaction
import Mathlib.Data.List.Induction

/-!
# What a rollback leaves

`get?_rollback`: of the directories that a snapshot covers, a rollback puts back what the cache
held when the snapshot was taken, unless a listing has been fetched since; every other directory
keeps its listing.

Whether a listing has been fetched since is told by revision numbers. `fetchedSince_runAll` says
what the numbers mean: over any changes of the cache (`Cache.Change`), a directory counts as fetched
exactly if a listing of it was inserted after the last time that the cache was cleared.
`get?_rollback_runAll` puts both together.
-/

namespace CloudDrive.Cache

/-! ## Changes of the listings only -/

/-- The second cache differs from the first one in its listings at most. -/
def Relists (c c' : Cache) : Prop := ∃ listings, c' = { c with listings }

section
variable {c c' : Cache} (h : Relists c c')
include h

theorem Relists.stale : c'.stale = c.stale := by
  obtain ⟨listings, rfl⟩ := h
  rfl

theorem Relists.fetched : c'.fetched = c.fetched := by
  obtain ⟨listings, rfl⟩ := h
  rfl

theorem Relists.revision : c'.revision = c.revision := by
  obtain ⟨listings, rfl⟩ := h
  rfl

theorem Relists.trans {c'' : Cache} (h' : Relists c' c'') : Relists c c'' := by
  obtain ⟨listings, rfl⟩ := h
  exact h'

end

theorem relists_foldl {α : Type} {f : Cache → α → Cache} (h : ∀ c x, Relists c (f c x))
    (c : Cache) (xs : List α) : Relists c (xs.foldl f c) := by
  induction xs generalizing c with
  | nil => exact ⟨_, rfl⟩
  | cons x xs ih => exact (h c x).trans (ih (f c x))

theorem relists_restore (revision : Nat) (c : Cache) (x : String × Option Listing) :
    Relists c (restore revision c x) := by
  obtain ⟨key, captured⟩ := x
  simp only [restore]
  split
  · exact ⟨_, rfl⟩
  · cases captured <;> exact ⟨_, rfl⟩

theorem relists_rollback (c : Cache) (s : Snapshot) : Relists c (c.rollback s) :=
  Relists.trans ⟨_, rfl⟩ (relists_foldl (relists_restore s.revision) _ _)

theorem relists_apply (c : Cache) : ∀ patch, Relists c (c.apply patch)
  | .remove _ => ⟨_, rfl⟩
  | .move moves => relists_foldl (fun _ _ => ⟨_, rfl⟩) c moves

/-! ## One rollback -/

theorem fetchedSince_eq (c : Cache) (key : String) (revision : Nat) :
    c.fetchedSince key revision =
      ((c.get? key).isSome && (c.fetched.find? key).any (revision < ·)) := by
  simp [fetchedSince, contains, get?, OrderedTable.contains_eq_isSome]

/-- Captured listings put back one after another. A directory may be captured more than once: the
first listing put back decides, as the others are the same. -/
theorem get?_foldl_restore (revision : Nat) (saved : String → Option Listing) (keys : List String)
    (c : Cache) (k : String) :
    ((keys.map fun key => (key, saved key)).foldl (restore revision) c).get? k =
      if k ∈ keys ∧ c.fetchedSince k revision = false then saved k else c.get? k := by
  induction keys generalizing c with
  | nil => simp
  | cons key keys ih =>
    rw [List.map_cons, List.foldl_cons, ih, get?_restore]
    have hf := (relists_restore revision c (key, saved key)).fetched
    have hg := get?_restore revision c key (saved key) k
    by_cases hk : k = key
    · subst hk
      cases hc : c.fetchedSince k revision
      · simp
      · have hs : (restore revision c (k, saved k)).fetchedSince k revision = true := by
          rw [fetchedSince_eq, hf, hg, if_neg (by simp [hc]), ← fetchedSince_eq, hc]
        simp [hs]
    · have hs : (restore revision c (key, saved key)).fetchedSince k revision =
          c.fetchedSince k revision := by
        rw [fetchedSince_eq, hf, hg, if_neg (by simp [hk]), ← fetchedSince_eq]
      simp [hs, hk]

theorem find?_foldl_erase (keys : List String) (t : OrderedTable Listing) (k : String) :
    (keys.foldl OrderedTable.erase t).find? k = if k ∈ keys then none else t.find? k := by
  induction keys generalizing t with
  | nil => simp
  | cons key keys ih =>
    rw [List.foldl_cons, ih, OrderedTable.find?_erase]
    by_cases h : k ∈ keys <;> by_cases hk : k = key <;> simp [h, hk]

theorem mem_keys_iff (c : Cache) (key : String) : key ∈ c.keys ↔ (c.get? key).isSome = true := by
  have h := c.listings.contains_eq_isSome key
  unfold OrderedTable.contains at h
  rw [keys, get?, ← h]
  simp

theorem captured_begin (c : Cache) (scope : Scope) :
    (c.begin scope).captured = (c.begin scope).keys.map fun key => (key, c.get? key) := by
  unfold begin Snapshot.keys
  cases scope <;> simp [Function.comp_def]

/-- A snapshot holds the directories that its scope covers, cached or not if the scope lists them,
and the cached ones of them otherwise. -/
theorem mem_keys_begin (c : Cache) (scope : Scope) (key : String) :
    key ∈ (c.begin scope).keys ↔
      scope.covers key = true ∧ (scope.isList = true ∨ (c.get? key).isSome = true) := by
  unfold begin Snapshot.keys
  cases scope <;>
    simp [Scope.covers, Scope.isList, Function.comp_def, mem_keys_iff, and_comm]

/-- What a rollback drops: the directories of a predicate scope that are cached now and were not
then, and have not been fetched since. -/
theorem mem_addedSince_begin (c₀ c : Cache) (scope : Scope) (key : String) :
    key ∈ c.addedSince (c₀.begin scope) ↔
      scope.isList = false ∧ (c.get? key).isSome = true ∧ scope.covers key = true ∧
        key ∉ (c₀.begin scope).keys ∧ c.fetchedSince key c₀.revision = false := by
  have hscope : (c₀.begin scope).scope = scope := rfl
  have hrev : (c₀.begin scope).revision = c₀.revision := rfl
  unfold addedSince
  rw [hscope, hrev]
  cases scope.isList <;> simp [mem_keys_iff, and_assoc]

/-- A covered directory that a snapshot does not hold was not cached when it was taken. -/
theorem get?_eq_none_of_not_mem_keys {c : Cache} {scope : Scope} {key : String}
    (hc : scope.covers key = true) (h : key ∉ (c.begin scope).keys) : c.get? key = none := by
  have hn : ¬ (c.get? key).isSome = true := fun hs =>
    h ((mem_keys_begin c scope key).2 ⟨hc, .inr hs⟩)
  simpa using hn

/-- **A rollback** of a snapshot that `c₀` took, in a cache `c`. -/
theorem get?_rollback (c₀ c : Cache) (scope : Scope) (key : String) :
    (c.rollback (c₀.begin scope)).get? key =
      if c.fetchedSince key c₀.revision then c.get? key
      else if scope.covers key then c₀.get? key
      else c.get? key := by
  have hadded := mem_addedSince_begin c₀ c scope key
  have hmem := mem_keys_begin c₀ scope key
  -- what is left to put the captured listings into
  obtain ⟨kept, hkept, hfetched, hroll⟩ : ∃ kept : Cache,
      kept.get? key = (if key ∈ c.addedSince (c₀.begin scope) then none else c.get? key) ∧
      kept.fetched = c.fetched ∧
      c.rollback (c₀.begin scope) =
        ((c₀.begin scope).keys.map fun k => (k, c₀.get? k)).foldl (restore c₀.revision) kept :=
    ⟨{ c with listings := (c.addedSince (c₀.begin scope)).foldl OrderedTable.erase c.listings },
      find?_foldl_erase _ c.listings key, rfl, by rw [← captured_begin]; rfl⟩
  rw [hroll, get?_foldl_restore, fetchedSince_eq, hkept, hfetched]
  cases hf : c.fetchedSince key c₀.revision
  · rw [fetchedSince_eq] at hf
    by_cases ha : key ∈ c.addedSince (c₀.begin scope)
    · obtain ⟨-, -, hc, hk, -⟩ := hadded.1 ha
      simp [ha, hk, hc, get?_eq_none_of_not_mem_keys hc hk]
    · by_cases hk : key ∈ (c₀.begin scope).keys
      · simp [ha, hf, hk, (hmem.1 hk).1]
      · cases hc : scope.covers key
        · simp [ha, hk]
        · -- neither captured nor added: not cached then, and not cached now
          have h₁ : ¬ (c.get? key).isSome = true := fun hs => by
            refine ha (hadded.2 ⟨?_, hs, hc, hk, by rw [fetchedSince_eq, hf]⟩)
            rw [Bool.eq_false_iff]
            exact fun hl => hk (hmem.2 ⟨hc, .inl hl⟩)
          simp only [Bool.not_eq_true, Option.isSome_eq_false_iff, Option.isNone_iff_eq_none] at h₁
          simp [ha, hk, h₁, get?_eq_none_of_not_mem_keys hc hk]
  · have ha : key ∉ c.addedSince (c₀.begin scope) := fun ha => by
      rw [(hadded.1 ha).2.2.2.2] at hf
      cases hf
    rw [fetchedSince_eq] at hf
    simp [ha, hf]

/-! ## Changes of the cache -/

/-- A change of the cache. Snapshots may be of any time. -/
inductive Change where
  | insert (listing : Listing)
  | patch (patch : Patch)
  | begin (scope : Scope)
  | commit (snapshot : Snapshot)
  | rollback (snapshot : Snapshot)
  | clear

/-- The cache after a change; to take a snapshot changes nothing. -/
def run (c : Cache) : Change → Cache
  | .insert listing => c.insert listing
  | .patch patch => c.apply patch
  | .begin _ => c
  | .commit snapshot => (c.commit snapshot).2
  | .rollback snapshot => c.rollback snapshot
  | .clear => c.clear

/-- The cache after changes, one after another. -/
def runAll (c : Cache) (changes : List Change) : Cache := changes.foldl run c

/-- Among the changes is an insertion of a listing of `key`, and no clearing after it. -/
def InsertedSinceClear (changes : List Change) (key : String) : Prop :=
  ∃ earlier listing later, changes = earlier ++ .insert listing :: later ∧
    listing.path = key ∧ Change.clear ∉ later

theorem runAll_concat (c : Cache) (changes : List Change) (x : Change) :
    c.runAll (changes ++ [x]) = (c.runAll changes).run x := by
  simp [runAll]

theorem not_insertedSinceClear_nil (key : String) : ¬ InsertedSinceClear [] key := by
  rintro ⟨earlier, listing, later, h, -⟩
  simp at h

theorem insertedSinceClear_concat {changes : List Change} {x : Change} {key : String} :
    InsertedSinceClear (changes ++ [x]) key ↔
      (∃ listing, x = .insert listing ∧ listing.path = key) ∨
        x ≠ .clear ∧ InsertedSinceClear changes key := by
  constructor
  · rintro ⟨earlier, listing, later, h, hp, hc⟩
    rcases List.eq_nil_or_concat later with rfl | ⟨later, y, rfl⟩
    · obtain ⟨-, hx⟩ := List.append_inj' h rfl
      exact .inl ⟨listing, by simpa using hx, hp⟩
    · rw [List.concat_eq_append, ← List.cons_append, ← List.append_assoc] at h
      obtain ⟨hl, hx⟩ := List.append_inj' h rfl
      rw [List.concat_eq_append, List.mem_append, not_or] at hc
      obtain rfl : x = y := by simpa using hx
      exact .inr ⟨fun e => hc.2 (by simp [e]), earlier, listing, later, hl, hp, hc.1⟩
  · rintro (⟨listing, rfl, hp⟩ | ⟨hx, earlier, listing, later, rfl, hp, hc⟩)
    · exact ⟨changes, listing, [], rfl, hp, by simp⟩
    · refine ⟨earlier, listing, later ++ [x], by simp, hp, ?_⟩
      rw [List.mem_append, not_or]
      exact ⟨hc, by simpa using fun e => hx e.symm⟩

/-! ## Revision numbers -/

/-- What the revision numbers say after `changes` of a cache whose revision was `revision`: no
number is ahead of the count, and a greater number than `revision` tells an insertion that no
clearing has undone. -/
structure Tracks (revision : Nat) (changes : List Change) (c : Cache) : Prop where
  le_revision : revision ≤ c.revision
  bounded : ∀ key r, c.fetched.find? key = some r → r ≤ c.revision
  newer : ∀ key, (∃ r, c.fetched.find? key = some r ∧ revision < r) ↔
    InsertedSinceClear changes key

theorem Tracks.run {revision : Nat} {changes : List Change} {c : Cache}
    (h : Tracks revision changes c) (x : Change) :
    Tracks revision (changes ++ [x]) (c.run x) := by
  obtain ⟨hle, hb, hn⟩ := h
  -- a change that keeps the numbers, and is neither an insertion nor a clearing
  have same : (c.run x).fetched = c.fetched → (c.run x).revision = c.revision →
      (∀ l, x ≠ .insert l) → x ≠ .clear → Tracks revision (changes ++ [x]) (c.run x) := by
    intro hf hr hi hc
    refine ⟨by rw [hr]; exact hle, fun key r => by rw [hf, hr]; exact hb key r, fun key => ?_⟩
    rw [hf, hn, insertedSinceClear_concat]
    exact ⟨fun h => .inr ⟨hc, h⟩, fun h => h.elim (fun ⟨l, hl, _⟩ => absurd hl (hi l)) (·.2)⟩
  cases x with
  | insert listing =>
    have hf : ∀ key, (c.run (.insert listing)).fetched.find? key =
        if key = listing.path then some (c.revision + 1) else c.fetched.find? key :=
      OrderedTable.find?_insert _ _ _
    have hr : (c.run (.insert listing)).revision = c.revision + 1 := rfl
    refine ⟨by omega, fun key r h => ?_, fun key => ?_⟩
    · rw [hf] at h
      split at h
      · simp only [Option.some.injEq] at h
        omega
      · have := hb key r h
        omega
    · rw [hf, insertedSinceClear_concat]
      by_cases hk : key = listing.path
      · subst hk
        exact ⟨fun _ => .inl ⟨listing, rfl, rfl⟩, fun _ => ⟨_, if_pos rfl, by omega⟩⟩
      · rw [if_neg hk, hn]
        refine ⟨fun h => .inr ⟨by simp, h⟩, ?_⟩
        rintro (⟨l, hl, rfl⟩ | ⟨-, h⟩)
        · cases hl
          exact absurd rfl hk
        · exact h
  | patch patch =>
    exact same (relists_apply c patch).fetched (relists_apply c patch).revision (by simp) (by simp)
  | begin scope => exact same rfl rfl (by simp) (by simp)
  | commit snapshot => exact same rfl rfl (by simp) (by simp)
  | rollback snapshot =>
    exact same (relists_rollback c snapshot).fetched (relists_rollback c snapshot).revision (by simp)
      (by simp)
  | clear =>
    refine ⟨hle, fun key r h => ?_, fun key => ?_⟩
    · cases h
    · rw [insertedSinceClear_concat]
      constructor
      · rintro ⟨r, h, -⟩
        cases h
      · rintro (⟨l, hl, -⟩ | ⟨hc, -⟩)
        · cases hl
        · exact absurd rfl hc

theorem tracks_runAll {c : Cache} (h : ∀ key r, c.fetched.find? key = some r → r ≤ c.revision)
    (changes : List Change) : Tracks c.revision changes (c.runAll changes) := by
  induction changes using List.reverseRecOn with
  | nil =>
    refine ⟨Nat.le_refl _, h, fun key => ⟨?_, fun hn => absurd hn (not_insertedSinceClear_nil key)⟩⟩
    rintro ⟨r, hr, hlt⟩
    exact absurd (h key r hr) (by omega)
  | append_singleton changes x ih =>
    rw [runAll_concat]
    exact ih.run x

/-- Over changes of a reachable cache, a cached listing counts as fetched since the first of them if
it was inserted by one, and the cache has not been cleared after that. -/
theorem fetchedSince_runAll (before changes : List Change) (key : String) :
    ((Cache.empty.runAll before).runAll changes).fetchedSince key
        (Cache.empty.runAll before).revision = true ↔
      (((Cache.empty.runAll before).runAll changes).get? key).isSome = true ∧
        InsertedSinceClear changes key := by
  have hb := (tracks_runAll (c := .empty) (fun key r h => by cases h) before).bounded
  have ht := (tracks_runAll hb changes).newer key
  rw [fetchedSince_eq, Bool.and_eq_true, ← ht, Option.any_eq_true]
  simp

/-- The cache has come to be by changes of an empty one. -/
def Reachable (c : Cache) : Prop := ∃ changes, c = Cache.empty.runAll changes

theorem reachable_empty : Reachable .empty := ⟨[], rfl⟩

theorem Reachable.run {c : Cache} (h : c.Reachable) (x : Change) : (c.run x).Reachable := by
  obtain ⟨changes, rfl⟩ := h
  exact ⟨changes ++ [x], (runAll_concat _ _ _).symm⟩

/-- A rollback in which no listing was fetched since the snapshot puts back the whole scope. -/
theorem get?_rollback_of_fetched_eq {c₀ c : Cache} (h : c₀.Reachable)
    (hf : c.fetched = c₀.fetched) (scope : Scope) (key : String) :
    (c.rollback (c₀.begin scope)).get? key =
      if scope.covers key then c₀.get? key else c.get? key := by
  obtain ⟨changes, rfl⟩ := h
  have hb := (tracks_runAll (c := .empty) (fun key r h => by cases h) changes).bounded
  have hn : c.fetchedSince key (Cache.empty.runAll changes).revision = false := by
    rw [fetchedSince_eq, hf]
    cases hr : (Cache.empty.runAll changes).fetched.find? key with
    | none => simp
    | some r =>
      have := hb key r hr
      simp only [Option.any_some, Bool.and_eq_false_imp, decide_eq_false_iff_not]
      omega
  rw [get?_rollback, if_neg (by simp [hn])]

/-- A patch that is taken back at once: what it touches is as before. -/
theorem get?_rollback_apply {c : Cache} (h : c.Reachable) (patch : Patch) (key : String) :
    ((c.apply patch).rollback (c.begin (c.scopeFor patch))).get? key =
      if key ∈ c.touchedBy patch then c.get? key else (c.apply patch).get? key := by
  rw [get?_rollback_of_fetched_eq h (relists_apply c patch).fetched]
  simp [scopeFor, Scope.covers]

/-- **Rollback under any interleaving.** A snapshot is taken of a reachable cache, and rolled back
after any further changes, rollbacks and clearings included. Each directory ends with the listing
that it has just before the rollback if this listing is cached and one was inserted since the
snapshot and since the last clearing; otherwise, a directory of the scope ends as the snapshot found
it, cached or not, and every other one is left alone. -/
theorem get?_rollback_runAll (before changes : List Change) (scope : Scope) (key : String) :
    let c₀ := Cache.empty.runAll before
    let c₁ := c₀.runAll changes
    let after := c₁.rollback (c₀.begin scope)
    ((c₁.get? key).isSome = true ∧ InsertedSinceClear changes key →
        after.get? key = c₁.get? key) ∧
      (¬ ((c₁.get? key).isSome = true ∧ InsertedSinceClear changes key) →
        after.get? key = if scope.covers key then c₀.get? key else c₁.get? key) := by
  intro c₀ c₁ after
  have h := get?_rollback c₀ c₁ scope key
  have hf := fetchedSince_runAll before changes key
  constructor
  · intro hi
    exact h.trans (if_pos (hf.2 hi))
  · intro hi
    exact h.trans (if_neg fun hc => hi (hf.1 hc))

end CloudDrive.Cache
