import CloudDrive.Path

/-!
# Typed names and paths

What a user types is checked before the store is asked. `normalize` reads a path to navigate to,
`validateName` the name of a new entry; each says which rule a refused text breaks.
-/

namespace CloudDrive.Path

open Text (dropEndWhile isWhiteSpace trim trimChars)

/-- The most bytes that a name may have. -/
def maxNameBytes : Nat := 255

/-- Why a typed name or path is refused. -/
inductive InputError where
  /-- Nothing is left of the name. -/
  | emptyName
  /-- The name stands for a directory itself or for its parent. -/
  | reservedName (name : String)
  /-- The name holds a character that separates components. -/
  | containsSeparator (separator : Char)
  /-- The name has more than `maxNameBytes` bytes. -/
  | tooLong (bytes : Nat)
  /-- Nothing is left of the path. -/
  | emptyPath
  /-- The path does not start at the root. -/
  | relativePath (suggestion : String)
  /-- Two white-space characters stand side by side. -/
  | repeatedWhiteSpace
  deriving Repr, DecidableEq, Inhabited

/-- What the user is told. -/
def InputError.message : InputError → String
  | .emptyName => "Name cannot be empty"
  | .reservedName name => "Invalid name: " ++ name
  | .containsSeparator separator => "Name cannot contain '" ++ String.singleton separator ++ "'"
  | .tooLong bytes => "Name is too long (" ++ Nat.repr bytes ++ " bytes, max 255)"
  | .emptyPath => "Path is required"
  | .relativePath suggestion => "Path should start with / (did you mean " ++ suggestion ++ "?)"
  | .repeatedWhiteSpace => "Path contains repeated spaces"

/-- Do two white-space characters stand side by side? -/
def hasRepeatedWhiteSpace : List Char → Bool
  | c :: d :: rest => isWhiteSpace c && isWhiteSpace d || hasRepeatedWhiteSpace (d :: rest)
  | _ => false

/-- The path that a typed text stands for: trimmed, absolute, without trailing separators. -/
def normalize (typed : String) : Except InputError String :=
  let value := trimChars typed.toList
  if value.isEmpty then
    .error .emptyPath
  else if value.head? ≠ some '/' then
    .error (.relativePath (String.ofList ('/' :: value)))
  else if hasRepeatedWhiteSpace value then
    .error .repeatedWhiteSpace
  else if (stem value).isEmpty then
    .ok root
  else
    .ok (String.ofList (stem value))

/-- The entry name that a typed text stands for: trimmed, not empty, a single component. -/
def validateName (typed : String) : Except InputError String :=
  let name := trim typed
  if name = "" then
    .error .emptyName
  else if name = "." ∨ name = ".." then
    .error (.reservedName name)
  else
    match name.toList.find? (fun c => c == '/' || c == '\\') with
    | some separator => .error (.containsSeparator separator)
    | none => if maxNameBytes < name.utf8ByteSize then .error (.tooLong name.utf8ByteSize)
        else .ok name

end CloudDrive.Path
