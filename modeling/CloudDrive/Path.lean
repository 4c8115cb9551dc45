import CloudDrive.Text.WhiteSpace

/-!
# Paths of the remote store

A path is an absolute text whose components are separated by `/`. The functions here accept any
text, also with repeated or trailing slashes, and say what they make of it.

* `toList_join`, `toList_parent`, `toList_name`: the three functions read on characters.
* `isWithin_self`, `rebase_self`: the border cases of nesting and of moving a subtree.
-/

namespace CloudDrive.Path

open Text (dropEndWhile)

/-- The root of the store. -/
def root : String := "/"

/-- Is this the character that separates components? -/
def isSeparator (c : Char) : Bool := c == '/'

/-- The characters of a path less the separators at its end. -/
def stem (path : List Char) : List Char := dropEndWhile isSeparator path

/-! ## Joining and taking apart -/

/-- The entry `name` of the directory `base`. -/
def join (base name : String) : String :=
  String.ofList (stem base.toList ++ '/' :: name.toList)

/-- The last component of a path; empty for the root. -/
def name (path : String) : String :=
  String.ofList ((stem path.toList).reverse.takeWhile (! isSeparator ·)).reverse

/-- The characters of a path before its last separator. -/
def beforeName (path : List Char) : List Char :=
  (((stem path).reverse.dropWhile (! isSeparator ·)).drop 1).reverse

/-- The directory that holds a path; the root holds itself. -/
def parent (path : String) : String :=
  if (beforeName path.toList).isEmpty then root else String.ofList (beforeName path.toList)

/-! ## Nesting -/

/-- Is `path` the directory `ancestor` or beneath it? -/
def isWithin (path ancestor : String) : Bool :=
  if ancestor = root then
    path.toList.head? == some '/'
  else
    path == ancestor || (ancestor.toList ++ ['/']).isPrefixOf path.toList

/-- Where `path` lies once the directory `source` is called `target`; `none` for a path that does
not lie within `source`. -/
def rebase (path source target : String) : Option String :=
  if path = source then
    some target
  else if isWithin path source then
    some (String.ofList (stem target.toList ++ path.toList.drop (stem source.toList).length))
  else
    none

/-! ## Components and breadcrumbs -/

/-- What stands before, between and after the separators of a path, empty stretches included. -/
def pieces : List Char → List (List Char)
  | [] => [[]]
  | c :: rest => if isSeparator c then [] :: pieces rest else (pieces rest).modifyHead (c :: ·)

/-- The components of a path: its pieces that are not empty. -/
def components (path : List Char) : List (List Char) := (pieces path).filter (! ·.isEmpty)

/-- One step of the way from the root to a directory. -/
structure Crumb where
  /-- The component that the step adds. -/
  name : String
  /-- The path once the step is taken. -/
  path : String
  deriving Repr, DecidableEq, Inhabited

/-- The steps that add `names` one after another to `base`. -/
def crumbsFrom (base : String) : List (List Char) → List Crumb
  | [] => []
  | first :: others =>
    let here := base ++ "/" ++ String.ofList first
    ⟨String.ofList first, here⟩ :: crumbsFrom here others

/-- The steps from the root to the directory `path`. -/
def breadcrumbs (path : String) : List Crumb := crumbsFrom "" (components path.toList)

/-! ## Lemmas -/

theorem toList_join (base name : String) :
    (join base name).toList = stem base.toList ++ '/' :: name.toList := by
  simp [join]

theorem toList_name (path : String) :
    (name path).toList = ((stem path.toList).reverse.takeWhile (! isSeparator ·)).reverse := by
  simp [name]

theorem toList_parent (path : String) :
    (parent path).toList =
      if (beforeName path.toList).isEmpty then ['/'] else beforeName path.toList := by
  unfold parent
  split <;> simp [root]

@[simp] theorem rebase_self (path target : String) : rebase path path target = some target := by
  simp [rebase]

theorem isWithin_self {path : String} (h : path ≠ root) : isWithin path path = true := by
  simp [isWithin, h]

end CloudDrive.Path
