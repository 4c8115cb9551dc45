/-!
# Failures of remote calls

A call of the store fails with a kind, which decides whether it is worth another try, and a reason,
which is shown as it is.
-/

namespace CloudDrive.Remote

/-- The kinds of failure. -/
inductive FailureKind where
  /-- The connection failed or timed out. -/
  | network
  /-- The call needs other rights. -/
  | unauthorized
  /-- What the call names does not exist. -/
  | notFound
  /-- What the call would create exists. -/
  | alreadyExists
  /-- The service wants fewer calls. -/
  | rateLimited
  /-- The service itself failed. -/
  | server
  deriving Repr, DecidableEq, Inhabited

/-- A failed call. -/
structure Failure where
  /-- The kind of failure. -/
  kind : FailureKind
  /-- What the user is told. -/
  reason : String
  deriving Repr, DecidableEq, Inhabited

namespace Failure

/-- Nothing lies at `path`. -/
def notFound (path : String) : Failure := ⟨.notFound, "Path not found: " ++ path⟩

/-- Something lies at `path` already. -/
def alreadyExists (path : String) : Failure := ⟨.alreadyExists, "Already exists: " ++ path⟩

/-- A directory was needed at `path`. -/
def notDirectory (path : String) : Failure := ⟨.server, "Not a directory: " ++ path⟩

/-- A directory was to be moved into itself. -/
def moveIntoItself : Failure := ⟨.server, "Cannot move a directory into itself"⟩

/-- May a read be tried again after this failure? -/
def isRetryable (f : Failure) : Bool := f.kind == .server || f.kind == .rateLimited

/-- Does the failure say that the entry exists? -/
def isAlreadyExists (f : Failure) : Bool := f.kind == .alreadyExists

end Failure

end CloudDrive.Remote
