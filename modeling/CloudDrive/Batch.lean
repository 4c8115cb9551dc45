import CloudDrive.Cache.Patch
import CloudDrive.Remote.Call

/-!
# Batch moves

A batch moves entries into one directory. It is planned against the listing of that directory: a
source whose name is taken there, or that is the directory itself, is skipped as a conflict. The
outcome tells what became of the moves that were tried.

* `mem_moves_or_conflict`: every distinct source is moved or skipped.
-/

namespace CloudDrive

/-- One move that is asked for. -/
structure MoveRequest where
  /-- The whole path of the entry. -/
  source : String
  /-- The whole path that the entry is to have. -/
  destination : String
  deriving Repr, DecidableEq, Inhabited

namespace MoveRequest

/-- The move of `source` into `directory` under its own name. -/
def intoDirectory (source directory : String) : MoveRequest :=
  ⟨source, Path.join directory (Path.name source)⟩

/-- The name of the entry that is moved. -/
def name (m : MoveRequest) : String := Path.name m.source

end MoveRequest

/-! ## Conflicts -/

/-- Why a move is skipped. -/
inductive ConflictKind where
  /-- The name is taken at the destination. -/
  | nameExists
  /-- The entry is the destination. -/
  | selfMove
  deriving Repr, DecidableEq, Inhabited

/-- What the user is told. -/
def ConflictKind.message : ConflictKind → String
  | .nameExists => "An item with this name already exists"
  | .selfMove => "Cannot move a directory into itself"

/-- A move that is skipped. -/
structure Conflict where
  request : MoveRequest
  kind : ConflictKind
  deriving Repr, DecidableEq, Inhabited

/-! ## Plans -/

/-- The moves of a batch, and those that are skipped. -/
structure MovePlan where
  /-- The directory that the entries are moved into. -/
  destination : String
  /-- The moves to run, in the order of the request. -/
  moves : List MoveRequest
  /-- The moves to skip, in the order of the request. -/
  conflicts : List Conflict
  deriving Repr, DecidableEq, Inhabited

namespace MovePlan

/-- Is there nothing to run? -/
def isEmpty (p : MovePlan) : Bool := p.moves.isEmpty

/-- The sources of the moves to run. -/
def sources (p : MovePlan) : List String := p.moves.map (·.source)

/-- What the moves are expected to do to the cache. -/
def toPatch (p : MovePlan) : Cache.Patch := .move (p.moves.map fun m => (m.source, m.destination))

/-- The sources with a name of their own: of several with one name, the first. -/
def distinct (sources : List String) : List String :=
  sources.eraseDupsBy fun a b => Path.name a == Path.name b

/-- Why the move of `source` into the listed directory would be skipped. -/
def conflict? (listing : Listing) (source : String) : Option ConflictKind :=
  if source = listing.path ∨ Path.name source = Path.name listing.path then some .selfMove
  else if listing.contains (Path.name source) then some .nameExists
  else none

/-- The plan that moves `sources` into the listed directory. -/
def ofSources (sources : List String) (listing : Listing) : MovePlan :=
  { destination := listing.path
    moves := ((distinct sources).filter (conflict? listing · |>.isNone)).map
      (MoveRequest.intoDirectory · listing.path)
    conflicts := (distinct sources).filterMap fun s =>
      (conflict? listing s).map fun kind => ⟨.intoDirectory s listing.path, kind⟩ }

/-- Every distinct source is moved, or skipped with its kind of conflict. -/
theorem mem_moves_or_conflict {sources : List String} {listing : Listing} {s : String}
    (h : s ∈ distinct sources) :
    (conflict? listing s = none ∧
        MoveRequest.intoDirectory s listing.path ∈ (ofSources sources listing).moves) ∨
      ∃ kind, conflict? listing s = some kind ∧
        ⟨.intoDirectory s listing.path, kind⟩ ∈ (ofSources sources listing).conflicts := by
  cases hc : conflict? listing s with
  | none =>
    exact .inl ⟨rfl, List.mem_map.2 ⟨s, List.mem_filter.2 ⟨h, by simp [hc]⟩, rfl⟩⟩
  | some kind =>
    exact .inr ⟨kind, rfl, List.mem_filterMap.2 ⟨s, h, by simp [hc]⟩⟩

end MovePlan

/-! ## Outcomes -/

/-- A move that the store refused. -/
structure MoveFailure where
  source : String
  reason : String
  deriving Repr, DecidableEq, Inhabited

/-- What became of a batch. -/
structure BatchOutcome where
  /-- The moves that the store accepted. -/
  successCount : Nat := 0
  /-- The moves that it refused, in order. -/
  failures : List MoveFailure := []
  /-- The moves that were tried. -/
  total : Nat := 0
  /-- The moves that were skipped. -/
  conflicts : Nat := 0
  deriving Repr, DecidableEq, Inhabited

namespace BatchOutcome

/-- Was no move refused? -/
def isSuccess (o : BatchOutcome) : Bool := o.failures.isEmpty

/-- Were some moves accepted and some refused? -/
def isPartial (o : BatchOutcome) : Bool := 0 < o.successCount && ! o.failures.isEmpty

/-- The counts in words. -/
def summary (o : BatchOutcome) : String :=
  Nat.repr o.successCount ++ " succeeded, " ++ Nat.repr o.failures.length ++ " failed, " ++
    Nat.repr o.conflicts ++ " skipped"

/-- The reasons of the refused moves. -/
def failureMessage (o : BatchOutcome) : String :=
  String.intercalate "; " (o.failures.map fun f => Path.name f.source ++ ": " ++ f.reason)

/-- The sources of the refused moves. -/
def failedSources (o : BatchOutcome) : List String := o.failures.map (·.source)

/-- The outcome after one more reply of the store. -/
def add (o : BatchOutcome) (m : MoveRequest) : Except Remote.Failure Unit → BatchOutcome
  | .ok _ => { o with successCount := o.successCount + 1 }
  | .error f => { o with failures := o.failures ++ [⟨m.source, f.reason⟩] }

end BatchOutcome

end CloudDrive
