import CloudDrive.Cache.Patch

/-!
# Transactions on the cache

An optimistic change begins with a snapshot of the listings that it can touch. If the store accepts
the change, a commit marks them stale; if not, a rollback puts them back. A listing that was fetched
after the snapshot is newer than the snapshot and stays.

* `get?_commit`: a commit leaves every listing as it is.
-/

namespace CloudDrive.Cache

/-- Which cached listings a snapshot covers. -/
inductive Scope where
  /-- Every cached listing. -/
  | allListings
  /-- Exactly these directories, cached or not. -/
  | paths (paths : List String)
  /-- Every cached listing at or beneath a path. -/
  | subtree (ancestor : String)
  deriving Repr, DecidableEq, Inhabited

/-- Does the scope cover the directory? -/
def Scope.covers : Scope → String → Bool
  | .allListings, _ => true
  | .paths listed, key => listed.contains key
  | .subtree ancestor, key => Path.isWithin key ancestor

/-- Is the scope a list of directories? -/
def Scope.isList : Scope → Bool
  | .paths _ => true
  | _ => false

/-- A copy of the listings that a scope covered at one time. -/
structure Snapshot where
  /-- What is covered. -/
  scope : Scope
  /-- The number of fetches at that time. -/
  revision : Nat
  /-- The directories with their listings, `none` for one that was not cached. -/
  captured : List (String × Option Listing)
  deriving DecidableEq, Inhabited

/-- The directories that a snapshot holds. -/
def Snapshot.keys (s : Snapshot) : List String := s.captured.map (·.1)

/-- The directories that a move can touch: the parents of both paths, and every cached directory at
or beneath the source, together with where it would go. -/
def touchedByMove (c : Cache) (source destination : String) : List String :=
  Path.parent source :: Path.parent destination ::
    (c.keysWithin source).flatMap fun key =>
      (Path.rebase key source destination).toList ++ [key]

/-- The directories that a patch can touch. -/
def touchedBy (c : Cache) : Patch → List String
  | .remove paths => paths.flatMap fun p => Path.parent p :: c.keysWithin p
  | .move moves => moves.flatMap fun m => c.touchedByMove m.1 m.2

/-- The narrowest list of directories that covers what a patch can touch. -/
def scopeFor (c : Cache) (patch : Patch) : Scope := .paths (c.touchedBy patch).eraseDups

/-- A snapshot of what a scope covers. -/
def begin (c : Cache) (scope : Scope) : Snapshot :=
  { scope
    revision := c.revision
    captured :=
      match scope with
      | .paths paths => paths.map fun p => (p, c.get? p)
      | _ => (c.keys.filter scope.covers).map fun key => (key, c.get? key) }

/-- The end of a change that the store accepted: the captured directories that are still cached are
stale, and are to be fetched again. -/
def commit (c : Cache) (s : Snapshot) : List String × Cache :=
  let refetch := s.keys.filter c.contains
  (refetch, { c with stale := c.stale ++ refetch.filter (! c.stale.contains ·) })

/-- The directories that the scope of a snapshot covers now and that were not cached then, unless
they were fetched since. -/
def addedSince (c : Cache) (s : Snapshot) : List String :=
  if s.scope.isList then []
  else c.keys.filter fun key =>
    s.scope.covers key && ! s.keys.contains key && ! c.fetchedSince key s.revision

/-- A captured listing put back, unless a newer one was fetched. -/
def restore (revision : Nat) (c : Cache) : String × Option Listing → Cache
  | (key, captured) =>
    if c.fetchedSince key revision then c
    else
      match captured with
      | some listing => { c with listings := c.listings.insert key listing }
      | none => { c with listings := c.listings.erase key }

/-- The end of a change that the store refused: the captured directories are as they were, and those
that the scope covers besides are gone. What was fetched in between stays. -/
def rollback (c : Cache) (s : Snapshot) : Cache :=
  let kept := { c with listings := (c.addedSince s).foldl OrderedTable.erase c.listings }
  s.captured.foldl (restore s.revision) kept

/-! ## Lemmas -/

@[simp] theorem get?_commit (c : Cache) (s : Snapshot) (key : String) :
    (c.commit s).2.get? key = c.get? key := rfl

theorem get?_restore (revision : Nat) (c : Cache) (key : String) (captured : Option Listing)
    (k : String) :
    (restore revision c (key, captured)).get? k =
      if k = key ∧ c.fetchedSince key revision = false then captured else c.get? k := by
  unfold restore
  cases hf : c.fetchedSince key revision
  · cases captured <;> simp [get?, hf]
  · simp [hf]

end CloudDrive.Cache
