import CloudDrive.CommandLine.ByteSize
import CloudDrive.Ledger
import CloudDrive.Notice
import CloudDrive.Time.Rfc3339

/-!
# Printed lines

Listings and tasks as lines of text. Names and sizes stand in columns; a name that does not fit is
cut short.

* `length_padRight`, `length_padLeft`: a padded text has its width, or more.
* `length_shorten_le`: a shortened text fits.
-/

namespace CloudDrive.CommandLine

/-! ## Columns -/

/-- So many blanks. -/
def blanks (n : Nat) : String := String.ofList (List.replicate n ' ')

/-- A text with blanks behind it up to a width. -/
def padRight (width : Nat) (s : String) : String := s ++ blanks (width - s.length)

/-- A text with blanks in front of it up to a width. -/
def padLeft (width : Nat) (s : String) : String := blanks (width - s.length) ++ s

/-- A text of at most `limit` characters: as it is, or cut, with an ellipsis at its end. -/
def shorten (limit : Nat) (s : String) : String :=
  if s.length ≤ limit then s else String.ofList (s.toList.take (limit - 1)) ++ "…"

/-! ## Listings -/

/-- The number of characters of a name that a listing has room for. -/
def nameWidth : Nat := 40

/-- The width of the column of sizes. -/
def sizeWidth : Nat := 10

/-- A line across the page. -/
def ruler : String := String.ofList (List.replicate 60 '─')

/-- An entry as a line. -/
def entryLine (e : Entry) : String :=
  let name := if e.isDirectory then e.name ++ "/" else e.name
  let size := if e.isDirectory then "" else sizeText e.size
  "  " ++ padRight nameWidth (shorten nameWidth name) ++ " " ++ padLeft sizeWidth size ++ "  " ++
    e.modified.minuteText

/-- The lines of a directory. -/
def listingLines (path : String) (entries : List Entry) : List String :=
  ["", ruler, " " ++ path ++ " (" ++ Nat.repr entries.length ++ " entries)", ruler] ++
    entries.map entryLine ++ [""]

/-! ## Tasks -/

/-- The mark of the state of a task. -/
def statusMark : TaskStatus → String
  | .running => "…"
  | .success => "✓"
  | .failed => "✗"

/-- The lines of a task. -/
def taskLines (t : Task) : List String :=
  (" " ++ statusMark t.status ++ " " ++ t.id.text ++ " " ++ t.label) ::
    (t.summary.map ("     " ++ ·)).toList ++ (t.error.map ("     error: " ++ ·)).toList

/-- The lines of a notice. -/
def noticeLines (n : Notice) : List String := ["", " [" ++ n.severity.label ++ "] " ++ n.message]

/-- The lines of tasks, which are given newest first and shown oldest first, and of the notice. -/
def ledgerLines (tasks : List Task) (notice : Option Notice) : List String :=
  tasks.reverse.flatMap taskLines ++ notice.elim [] noticeLines

/-! ## Lemmas -/

@[simp] theorem length_blanks (n : Nat) : (blanks n).length = n := by
  simp [blanks, String.length_ofList]

theorem length_padRight (width : Nat) (s : String) :
    (padRight width s).length = max width s.length := by
  simp [padRight]
  omega

theorem length_padLeft (width : Nat) (s : String) :
    (padLeft width s).length = max width s.length := by
  simp [padLeft]
  omega

theorem length_shorten_le {limit : Nat} (h : 0 < limit) (s : String) :
    (shorten limit s).length ≤ limit := by
  unfold shorten
  split
  · assumption
  · have h1 : "…".length = 1 := rfl
    simp only [String.length_append, String.length_ofList, List.length_take, h1]
    omega

end CloudDrive.CommandLine
