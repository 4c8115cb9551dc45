import CloudDrive.Path
import CloudDrive.Time.Instant

/-!
# Entries and listings

An entry is a snapshot of one item of the store, a listing the content of one directory. Entries are
never edited: an optimistic change of the cache makes relocated copies.

* `relocated_path`, `relocated_relocated`: a relocated copy lies where it was sent last.
-/

namespace CloudDrive

/-- What an entry is. -/
inductive EntryKind where
  | file
  | directory
  deriving Repr, DecidableEq, Inhabited

/-- A snapshot of one item of the store. -/
structure Entry where
  /-- The name that is shown. -/
  name : String
  /-- Where the item lies. -/
  path : String
  /-- File or directory. -/
  kind : EntryKind
  /-- The size in bytes. -/
  size : UInt64
  /-- The time of the last change. -/
  modified : Instant
  /-- Who owns the item. -/
  owner : String
  deriving DecidableEq, Inhabited

namespace Entry

/-- A file at `path`, without an owner. -/
def file (path : String) (size : UInt64) (modified : Instant) : Entry :=
  ⟨Path.name path, path, .file, size, modified, ""⟩

/-- A directory at `path`, without an owner. -/
def directory (path : String) (modified : Instant) : Entry :=
  ⟨Path.name path, path, .directory, 0, modified, ""⟩

/-- Is the entry a directory? -/
def isDirectory (e : Entry) : Bool := e.kind == .directory

/-- Is the entry a file? -/
def isFile (e : Entry) : Bool := e.kind == .file

/-- Does the name start with a dot? -/
def isHidden (e : Entry) : Bool := e.name.toList.head? == some '.'

/-- The copy of an entry that lies at `path`. -/
def relocated (e : Entry) (path : String) : Entry := { e with name := Path.name path, path := path }

@[simp] theorem relocated_path (e : Entry) (path : String) : (e.relocated path).path = path := rfl

@[simp] theorem relocated_relocated (e : Entry) (p q : String) :
    (e.relocated p).relocated q = e.relocated q := rfl

end Entry

/-- The content of one directory. -/
structure Listing where
  /-- The directory that is listed. -/
  path : String
  /-- The way from the root to the directory. -/
  crumbs : List Path.Crumb
  /-- What lies directly inside the directory. -/
  entries : List Entry
  deriving DecidableEq, Inhabited

namespace Listing

/-- The listing of `path` with these entries; the crumbs are those of the path. -/
def ofEntries (path : String) (entries : List Entry) : Listing :=
  ⟨path, Path.breadcrumbs path, entries⟩

/-- The first entry of this name. -/
def find? (l : Listing) (name : String) : Option Entry := l.entries.find? (·.name == name)

/-- Is there an entry of this name? -/
def contains (l : Listing) (name : String) : Bool := (l.find? name).isSome

/-- The names of the entries, in order. -/
def names (l : Listing) : List String := l.entries.map (·.name)

/-- An entry of a name is found exactly when the name is among the names. -/
theorem contains_iff (l : Listing) (name : String) : l.contains name = true ↔ name ∈ l.names := by
  simp [contains, find?, names]

end Listing

end CloudDrive
