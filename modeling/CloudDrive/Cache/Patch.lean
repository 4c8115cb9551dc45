import CloudDrive.Cache

/-!
# Optimistic patches

A patch changes the cached listings at once, as the store is expected to change. It never asks the
store.

* `apply_move_cons`: moves are applied one after another.
* `rename_eq`: a rename is a move within one directory.
-/

namespace CloudDrive.Cache

/-- An expected change of the store. -/
inductive Patch where
  /-- The entries at these paths go, with all beneath them. -/
  | remove (paths : List String)
  /-- Each source goes to its destination, one after another; both are whole paths. -/
  | move (moves : List (String × String))
  deriving Repr, DecidableEq, Inhabited

/-- The rename of an entry inside its directory. -/
def Patch.rename (path newName : String) : Patch :=
  .move [(path, Path.join (Path.parent path) newName)]

/-- The cache after entries are removed. -/
def removePaths (c : Cache) (paths : List String) : Cache :=
  let trimmed := c.listings.mapValues fun l =>
    { l with entries := l.entries.filter (! paths.contains ·.path) }
  { c with listings := trimmed.filterKeys fun key => ! paths.any (Path.isWithin key ·) }

/-- An entry as it is after `source` has become `destination`. -/
def rebasedEntry (source destination : String) (e : Entry) : Entry :=
  match Path.rebase e.path source destination with
  | some path => e.relocated path
  | none => e

/-- The listing of `key` moved to where `key` lies after `source` has become `destination`. -/
def moveListing (source destination : String) (listings : OrderedTable Listing) (key : String) :
    OrderedTable Listing :=
  match listings.find? key, Path.rebase key source destination with
  | some listing, some newKey =>
    (listings.erase key).insert newKey
      (Listing.ofEntries newKey (listing.entries.map (rebasedEntry source destination)))
  | _, _ => listings.erase key

/-- The entry at `path` as the listing of its parent holds it. -/
def listedEntry? (c : Cache) (path : String) : Option Entry :=
  (c.get? (Path.parent path)).bind fun l => l.entries.find? (·.path == path)

/-- A listing without its first entry at `path`. -/
def dropEntry (path : String) (l : Listing) : Listing :=
  { l with entries := l.entries.eraseP (·.path == path) }

/-- A listing with an entry that replaces any at its path. -/
def placeEntry (e : Entry) (l : Listing) : Listing :=
  { l with entries := l.entries.filter (·.path != e.path) ++ [e] }

/-- The cache after one move: the entry leaves its listing, the listings beneath it get their new
keys, and the entry joins the listing of its new parent. -/
def moveEntry (c : Cache) (source destination : String) : Cache :=
  let without := c.listings.modify (Path.parent source) (dropEntry source)
  let carried := (c.keysWithin source).foldl (moveListing source destination) without
  let placed :=
    match c.listedEntry? source with
    | some e => carried.modify (Path.parent destination) (placeEntry (e.relocated destination))
    | none => carried
  { c with listings := placed }

/-- The cache after a patch. -/
def apply (c : Cache) : Patch → Cache
  | .remove paths => c.removePaths paths
  | .move moves => moves.foldl (fun c m => c.moveEntry m.1 m.2) c

/-! ## Lemmas -/

theorem apply_move_cons (c : Cache) (m : String × String) (moves : List (String × String)) :
    c.apply (.move (m :: moves)) = (c.moveEntry m.1 m.2).apply (.move moves) := rfl

theorem rename_eq (path newName : String) :
    Patch.rename path newName = .move [(path, Path.join (Path.parent path) newName)] := rfl

/-- After a removal a directory is cached if it was and lies within none of the paths. -/
theorem get?_removePaths (c : Cache) (paths : List String) (key : String) :
    (c.removePaths paths).get? key =
      if paths.any (Path.isWithin key ·) then none
      else (c.get? key).map fun l =>
        { l with entries := l.entries.filter (! paths.contains ·.path) } := by
  simp only [removePaths, get?, OrderedTable.find?_filterKeys, OrderedTable.find?_mapValues]
  cases paths.any (Path.isWithin key ·) <;> simp

end CloudDrive.Cache
