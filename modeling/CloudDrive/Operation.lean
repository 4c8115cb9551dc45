import CloudDrive.Remote.Call

/-!
# Operations

What a task does to the store, as plain data, so that a failed task can be run again.
-/

namespace CloudDrive

/-- A change of the store that can be run again after it failed. -/
inductive Operation where
  /-- Move entries into a directory. -/
  | moveEntries (sources : List String) (destination : String)
  /-- Move entries into the trash. -/
  | moveToTrash (sources : List String)
  /-- Move entries of the trash to the root. -/
  | restoreFromTrash (names : List String)
  /-- Delete entries for good. -/
  | deleteEntries (paths : List String)
  /-- Create a directory. -/
  | createDirectory (parent name : String)
  /-- Rename an entry inside its directory. -/
  | rename (path newName : String)
  /-- Store a file. -/
  | upload (file : Remote.UploadFile) (directory : String)
  deriving Repr, DecidableEq, Inhabited

/-- What the operation does, in words. -/
def Operation.description : Operation → String
  | .moveEntries sources destination =>
    "Move " ++ Nat.repr sources.length ++ " item(s) to " ++ destination
  | .moveToTrash sources => "Move " ++ Nat.repr sources.length ++ " item(s) to trash"
  | .restoreFromTrash names => "Restore " ++ Nat.repr names.length ++ " item(s)"
  | .deleteEntries paths => "Delete " ++ Nat.repr paths.length ++ " file(s)"
  | .createDirectory _ name => "Create folder " ++ name
  | .rename path newName => "Rename " ++ Path.name path ++ " -> " ++ newName
  | .upload file _ => "Upload " ++ file.name

end CloudDrive
