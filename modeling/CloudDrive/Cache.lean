import CloudDrive.Entry
import CloudDrive.OrderedTable

/-!
# The cache of listings

Listings under the paths of their directories. A key is stale from the commit of a change that
touches it until its listing is fetched again. Each fetch has a number, so that it can be told
whether a listing is newer than a point of time.

* `get?_insert`: a fetched listing is found under its path.
-/

namespace CloudDrive

/-- The cache of listings. -/
structure Cache where
  /-- The listings, in the order in which their directories came. -/
  listings : OrderedTable Listing := .empty
  /-- The directories whose listings are to be fetched again. -/
  stale : List String := []
  /-- The number of the last fetch of each directory. -/
  fetched : OrderedTable Nat := .empty
  /-- The number of fetches so far. -/
  revision : Nat := 0
  deriving DecidableEq

namespace Cache

instance : Inhabited Cache := ⟨{}⟩

/-- No listings. -/
def empty : Cache := {}

/-- The cached listing of a directory. -/
def get? (c : Cache) (path : String) : Option Listing := c.listings.find? path

/-- Is the directory cached? -/
def contains (c : Cache) (path : String) : Bool := c.listings.contains path

/-- The cached directories, in order. -/
def keys (c : Cache) : List String := c.listings.keys

/-- The number of cached directories. -/
def size (c : Cache) : Nat := c.listings.size

/-- Is the listing of the directory to be fetched again? -/
def isStale (c : Cache) (path : String) : Bool := c.stale.contains path

/-- A listing that was just fetched. -/
def insert (c : Cache) (listing : Listing) : Cache :=
  { listings := c.listings.insert listing.path listing
    stale := c.stale.filter (· != listing.path)
    fetched := c.fetched.insert listing.path (c.revision + 1)
    revision := c.revision + 1 }

/-- Every listing dropped; the count of fetches goes on. -/
def clear (c : Cache) : Cache := { revision := c.revision }

/-- The cached directories at or beneath a path, in order. -/
def keysWithin (c : Cache) (ancestor : String) : List String :=
  c.keys.filter (Path.isWithin · ancestor)

/-- Has the cached listing of the directory been fetched after the fetch of this number? -/
def fetchedSince (c : Cache) (path : String) (revision : Nat) : Bool :=
  c.contains path && (c.fetched.find? path).any (revision < ·)

/-! ## Lemmas -/

@[simp] theorem get?_insert (c : Cache) (listing : Listing) (path : String) :
    (c.insert listing).get? path = if path = listing.path then some listing else c.get? path := by
  simp [get?, insert]

@[simp] theorem get?_clear (c : Cache) (path : String) : c.clear.get? path = none := rfl

end Cache

end CloudDrive
