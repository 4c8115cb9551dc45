import CloudDrive.Entry
import CloudDrive.Text.Lowercase

/-!
# The visible sequence

A listing is filtered and sorted into the sequence that is shown. Indices of the selection and of
the pointer refer to this sequence.

* `occursIn_iff`: the search test is the sublist relation on neighbouring characters.
* `mem_visible`: exactly the accepted entries are visible.
-/

namespace CloudDrive.View

open Text (lowercase nameKey trim)

/-! ## Sorting -/

/-- How entries are sorted within directories and within files. -/
inductive SortMode where
  | nameAsc
  | nameDesc
  | dateDesc
  | dateAsc
  deriving Repr, DecidableEq, Inhabited

namespace SortMode

/-- The modes in the order in which `next` runs through them. -/
def all : List SortMode := [nameAsc, nameDesc, dateDesc, dateAsc]

/-- The mode that is offered next. -/
def next : SortMode → SortMode
  | nameAsc => nameDesc
  | nameDesc => dateDesc
  | dateDesc => dateAsc
  | dateAsc => nameAsc

/-- What the user sees. -/
def label : SortMode → String
  | nameAsc => "Name ↓"
  | nameDesc => "Name ↑"
  | dateDesc => "Date ↓"
  | dateAsc => "Date ↑"

end SortMode

/-- Names are compared by their keys, and those with one key by their characters. -/
def compareNames (a b : Entry) : Ordering :=
  (compare (nameKey a.name) (nameKey b.name)).then (compare a.name b.name)

/-- The order of a mode. -/
def SortMode.compare : SortMode → Entry → Entry → Ordering
  | .nameAsc, a, b => compareNames a b
  | .nameDesc, a, b => compareNames b a
  | .dateDesc, a, b => b.modified.compare a.modified
  | .dateAsc, a, b => a.modified.compare b.modified

/-- Directories come before files; within each group the mode decides. -/
def compareEntries (mode : SortMode) (a b : Entry) : Ordering :=
  match a.isDirectory, b.isDirectory with
  | true, false => .lt
  | false, true => .gt
  | _, _ => mode.compare a b

/-! ## Filters -/

/-- The quick filters. -/
inductive Preset where
  | all
  | recent
  | large
  | media
  | documents
  deriving Repr, DecidableEq, Inhabited

/-- Every quick filter, in the order in which they are offered. -/
def Preset.every : List Preset := [.all, .recent, .large, .media, .documents]

/-- What the user sees. -/
def Preset.label : Preset → String
  | .all => "All"
  | .recent => "Recent"
  | .large => "Large"
  | .media => "Media"
  | .documents => "Documents"

/-- The least size of a large file: 100 MiB. -/
def largeBytes : UInt64 := 104857600

/-- How many days a change stays recent. -/
def recentDays : Nat := 7

/-- The extensions of images, video and audio. -/
def mediaExtensions : List String :=
  ["jpg", "jpeg", "png", "gif", "webp", "mp4", "mov", "mkv", "mp3", "wav"]

/-- The extensions of office documents and texts. -/
def documentExtensions : List String :=
  ["pdf", "doc", "docx", "txt", "md", "xls", "xlsx", "ppt", "pptx"]

/-- What follows the last dot of a name. -/
def extension? (name : String) : Option (List Char) :=
  if '.' ∈ name.toList then some (name.toList.reverse.takeWhile (· != '.')).reverse else none

/-- Has the name one of the extensions? The case of ASCII letters does not count. -/
def hasExtension (name : String) (extensions : List String) : Bool :=
  (extension? name).any fun found =>
    extensions.any fun e => found.map Char.toLower == e.toList.map Char.toLower

/-- Does the filter let the entry pass? -/
def Preset.matches (preset : Preset) (e : Entry) (now : Instant) : Bool :=
  match preset with
  | .all => true
  | .recent => now.nanosSince e.modified ≤ Instant.nanosOfDays recentDays
  | .large => ! e.isDirectory && largeBytes ≤ e.size
  | .media => hasExtension e.name mediaExtensions
  | .documents => hasExtension e.name documentExtensions

/-- The names of files that operating systems leave behind. -/
def systemNames : List String := ["Thumbs.db", ".DS_Store"]

/-- Is the entry shown only on request? -/
def isHidden (e : Entry) : Bool := e.isHidden || systemNames.contains e.name

/-- What the user has set for the view. -/
structure Options where
  /-- Only names that contain this text are shown; case does not count. -/
  search : String := ""
  /-- Are hidden entries shown? -/
  showHidden : Bool := false
  /-- The quick filter. -/
  preset : Preset := .all
  /-- The sort mode. -/
  sort : SortMode := .nameAsc
  deriving Repr, DecidableEq, Inhabited

/-- Does the query stand somewhere in the text? -/
def occursIn (query : List Char) : List Char → Bool
  | [] => query.isEmpty
  | c :: rest => query.isPrefixOf (c :: rest) || occursIn query rest

/-- The text that names are searched for. -/
def Options.query (o : Options) : String := lowercase (trim o.search)

/-- Does the query stand in the key of the name? -/
def Options.finds (o : Options) (e : Entry) : Bool :=
  occursIn o.query.toList (nameKey e.name).toList

/-- Is the entry shown? -/
def Options.accepts (o : Options) (now : Instant) (e : Entry) : Bool :=
  o.finds e && (o.showHidden || ! isHidden e) && o.preset.matches e now

/-- The entries that are shown, in their order. Entries that compare equal keep the order of the
listing. -/
def visible (entries : List Entry) (o : Options) (now : Instant) : List Entry :=
  (entries.filter (o.accepts now)).mergeSort fun a b => (compareEntries o.sort a b).isLE

/-! ## Lemmas -/

/-- The search test is the sublist relation on neighbouring characters. -/
theorem occursIn_iff (query cs : List Char) : occursIn query cs = true ↔ query <:+: cs := by
  induction cs with
  | nil => simp [occursIn]
  | cons c cs ih => simp [occursIn, ih, List.infix_cons_iff]

/-- Exactly the accepted entries are visible. -/
theorem mem_visible {entries : List Entry} {o : Options} {now : Instant} {e : Entry} :
    e ∈ visible entries o now ↔ e ∈ entries ∧ o.accepts now e = true := by
  simp [visible]

end CloudDrive.View
