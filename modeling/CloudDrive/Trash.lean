import CloudDrive.Config

/-!
# The trash

Entries are deleted softly by moving them into a reserved directory, which is created on demand, and
restored by moving them to the root.

* `viewKind_trashPath`: the reserved directory shows the trash.
-/

namespace CloudDrive

/-- What kind of directory is shown. -/
inductive ViewKind where
  | normal
  | trash
  deriving Repr, DecidableEq, Inhabited

/-- The name of the kind. -/
def ViewKind.label : ViewKind → String
  | .normal => "Normal"
  | .trash => "Trash"

namespace Trash

/-- The kind of the directory `path`. -/
def viewKind (c : Config) (path : String) : ViewKind :=
  if path = c.trashPath then .trash else .normal

/-- Is `path` the trash or inside it? Such a path is never a valid target of a user's move. -/
def isReserved (c : Config) (path : String) : Bool := Path.isWithin path c.trashPath

/-- Where entries of these names lie in the trash. -/
def entries (c : Config) (names : List String) : List String := names.map (Path.join c.trashPath)

@[simp] theorem viewKind_trashPath (c : Config) : viewKind c c.trashPath = .trash := by
  simp [viewKind]

end Trash

end CloudDrive
