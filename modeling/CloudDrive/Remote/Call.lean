import CloudDrive.Entry
import CloudDrive.Remote.Failure

/-!
# Remote calls

The five calls that a store answers, and the type of the answer to each.
-/

namespace CloudDrive.Remote

/-- A file that is to be stored. -/
structure UploadFile where
  /-- The name that the file will have. -/
  name : String
  /-- The bytes of the file. -/
  data : List UInt8
  deriving Repr, DecidableEq, Inhabited

/-- A path that was not deleted. -/
structure DeleteFailure where
  /-- The path. -/
  path : String
  /-- What the user is told. -/
  reason : String
  deriving Repr, DecidableEq, Inhabited

/-- What a deletion did to each path. -/
structure DeleteReport where
  /-- The paths that were deleted. -/
  deleted : List String
  /-- The paths that were not. -/
  failed : List DeleteFailure
  deriving Repr, DecidableEq, Inhabited

/-- Was every path deleted? -/
def DeleteReport.isComplete (r : DeleteReport) : Bool := r.failed.isEmpty

/-- The kinds of call. -/
inductive CallKind where
  | list
  | delete
  | move
  | createDirectory
  | upload
  deriving Repr, DecidableEq, Inhabited

/-- A call of the store. -/
inductive Call where
  /-- List the entries of a directory. -/
  | list (path : String)
  /-- Delete entries for good. -/
  | delete (paths : List String)
  /-- Move one entry; `destination` is its whole new path. -/
  | move (source destination : String)
  /-- Create a directory inside another. -/
  | createDirectory (parent name : String)
  /-- Store a file in a directory. -/
  | upload (file : UploadFile) (directory : String)
  deriving Repr, DecidableEq, Inhabited

/-- The kind of a call. -/
def Call.kind : Call → CallKind
  | .list _ => .list
  | .delete _ => .delete
  | .move _ _ => .move
  | .createDirectory _ _ => .createDirectory
  | .upload _ _ => .upload

/-- What a call that succeeds brings. -/
abbrev Call.Answer : Call → Type
  | .list _ => Listing
  | .delete _ => DeleteReport
  | .move _ _ => Unit
  | .createDirectory _ _ => Unit
  | .upload _ _ => Unit

/-- What a call brings: a failure or its answer. -/
abbrev Call.Reply (c : Call) : Type := Except Failure c.Answer

end CloudDrive.Remote
