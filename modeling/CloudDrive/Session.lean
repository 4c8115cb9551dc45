import CloudDrive.Cache.Transaction
import CloudDrive.Ledger
import CloudDrive.Notice
import CloudDrive.Path.Typed
import CloudDrive.Pointer.Gesture
import CloudDrive.Trash
import CloudDrive.View

/-!
# Sessions

What one user sees and does: the directory that is shown, its view, the selection, the pointer, the
cached listings, the tasks and the notice. Everything here is immediate; what asks the store is in
`CloudDrive.Session.Command`.

* `visible`: the sequence that indices refer to.
* `prune`: selection and focus reduced to what is visible.
* `names_prune_subset`, `focused_prune`: afterwards both are visible.
-/

namespace CloudDrive

open Pointer (Drop Gesture)

/-- The session of one user. -/
structure Session where
  config : Config
  /-- The present. -/
  clock : Instant
  /-- The directory that is shown. -/
  path : String
  options : View.Options
  selection : Selection
  /-- The name of the entry that the keyboard is on. -/
  focused : Option String
  /-- The drop that waits for consent. -/
  pendingDrop : Option Drop
  /-- The directories visited lately, the latest first. -/
  recent : List String
  /-- Is the listing of the directory on its way? -/
  loading : Bool
  /-- Why the directory could not be loaded. -/
  loadError : Option String
  cache : Cache
  ledger : Ledger
  notice : Option Notice
  gesture : Gesture
  /-- The number of loads and resets so far; it tells the newest load from older ones. -/
  generation : Nat
  deriving Inhabited

/-- Why a command is refused, or failed to load. -/
inductive SessionError where
  /-- A typed name or path breaks a rule. -/
  | input (error : Path.InputError)
  /-- A directory could not be loaded. -/
  | transport (path : String) (failure : Remote.Failure)
  /-- The target of a move or a new entry lies in the trash. -/
  | reservedDestination (path : String)
  | nothingSelected
  | noPendingMove
  | notInTrash
  | unknownTask (id : TaskId)
  deriving Repr, DecidableEq, Inhabited

/-- What the user is told. -/
def SessionError.message : SessionError → String
  | .input error => error.message
  | .transport path failure => "Failed to load " ++ path ++ ": " ++ failure.reason
  | .reservedDestination path => path ++ " is reserved and cannot be used as a destination"
  | .nothingSelected => "No items selected"
  | .noPendingMove => "No move is waiting for confirmation"
  | .notInTrash => "Restoring is only possible from the trash"
  | .unknownTask id => "Unknown task " ++ id.text

namespace Session

/-- A fresh session: the root is shown, and nothing is loaded. -/
def start (config : Config) (clock : Instant) : Session :=
  { config, clock
    path := config.rootPath
    options := {}
    selection := .empty
    focused := none
    pendingDrop := none
    recent := []
    loading := false
    loadError := none
    cache := .empty
    ledger := .withLimit config.historyLimit
    notice := none
    gesture := .idle config.dragThreshold
    generation := 0 }

/-! ## Queries -/

/-- The cached listing of the directory that is shown. -/
def listing (s : Session) : Option Listing := s.cache.get? s.path

/-- The entries that are shown, in their order. -/
def visible (s : Session) : List Entry :=
  match s.listing with
  | some l => View.visible l.entries s.options s.clock
  | none => []

/-- The names that are shown, in their order. -/
def visibleNames (s : Session) : List String := s.visible.map (·.name)

/-- The kind of the directory that is shown. -/
def viewKind (s : Session) : ViewKind := Trash.viewKind s.config s.path

/-- The label of a task, empty if the ledger has it no more. -/
def taskLabel (s : Session) (id : TaskId) : String := ((s.ledger.get? id).map (·.label)).getD ""

/-! ## Upkeep -/

/-- A notice shown. -/
def notify (severity : Severity) (message : String) (s : Session) : Session :=
  { s with notice := some ⟨message, severity, s.clock⟩ }

/-- Selection and focus reduced to what is visible. -/
def prune (s : Session) : Session :=
  { s with
    selection := s.selection.retainVisible s.visibleNames
    focused := s.focused.filter s.visibleNames.contains }

/-- New view options. -/
def setOptions (options : View.Options) (s : Session) : Session := { s with options }.prune

/-! ## Selecting -/

/-- A click on the visible entry of an index. -/
def click (index : Nat) (modifiers : Pointer.Modifiers) (s : Session) : Session :=
  match s.visibleNames[index]? with
  | none => s
  | some name =>
    { s with
      focused := some name
      selection :=
        if modifiers.shift then s.selection.extendTo index s.visibleNames
        else if modifiers.toggle then s.selection.toggle name index
        else s.selection.selectOnly name index }

/-- Every visible entry selected. -/
def selectAll (s : Session) : Session :=
  { s with selection := s.selection.selectAll s.visibleNames }

/-- Exactly the visible ones of some names selected: how many they are. -/
def selectNames (names : List String) (s : Session) : Nat × Session :=
  let visible := s.visibleNames
  let selection := (names.filter visible.contains).foldl
    (fun selection name => selection.ensureSelected name (visible.idxOf name)) s.selection.clear
  (selection.names.length, { s with selection })

/-- Nothing selected. -/
def clearSelection (s : Session) : Session := { s with selection := s.selection.clear }

/-- Where the keyboard goes by `delta` rows from the entry it is on, and to the first row from
nowhere. -/
def focusAfter (visible : List String) (focused : Option String) (delta : Int) : Nat :=
  match focused.bind fun name => visible.idxOf? name with
  | none => 0
  | some index => min (index + delta).toNat (visible.length - 1)

/-- The keyboard moved by `delta` rows, and only the entry there selected. -/
def moveFocus (delta : Int) (s : Session) : Session :=
  let visible := s.visibleNames
  let index := focusAfter visible s.focused delta
  match visible[index]? with
  | none => s
  | some name =>
    { s with selection := s.selection.selectOnly name index, focused := some name }

/-- The focused entry added to the selection or taken away. -/
def toggleFocused (s : Session) : Session :=
  match s.focused with
  | none => s
  | some name =>
    match s.visibleNames.idxOf? name with
    | none => s
    | some index => { s with selection := s.selection.toggle name index }

/-- An entry focused and added to the selection, as for its context menu. -/
def contextSelect (name : String) (s : Session) : Session :=
  match s.visibleNames.idxOf? name with
  | none => s
  | some index =>
    { s with focused := some name, selection := s.selection.ensureSelected name index }

/-! ## The pointer -/

/-- The pointer pressed over the visible entry of an index. -/
def pointerDown (index : Nat) (point : Pointer.Point) (modifiers : Pointer.Modifiers)
    (s : Session) : Session :=
  match s.visibleNames[index]? with
  | none => s
  | some name => { s with gesture := s.gesture.press name index point modifiers }

/-- The pointer moved. -/
def pointerMove (point : Pointer.Point) (s : Session) : Pointer.GestureOutcome × Session :=
  let (outcome, gesture) := s.gesture.move point s.selection
  (outcome, { s with gesture })

/-- A drag of the visible entry of an index, started by the platform. -/
def startDrag (index : Nat) (s : Session) : Pointer.GestureOutcome × Session :=
  match s.visibleNames[index]? with
  | none => (.nothing, s)
  | some name =>
    let (outcome, gesture) := s.gesture.startDrag name s.selection
    (outcome, { s with gesture })

/-- A drag over the visible entry of an index, or over none. -/
def hover (index : Option Nat) (s : Session) : Session :=
  { s with gesture := s.gesture.hover (index.bind (s.visible[·]?)) }

/-- The pointer released: a click selects, a drop waits for consent. -/
def pointerUp (s : Session) : Pointer.GestureOutcome × Session :=
  let (outcome, gesture) := s.gesture.release s.path
  let s := { s with gesture }
  match outcome with
  | .click _ index modifiers => (outcome, s.click index modifiers)
  | .dropped drop => (outcome, { s with pendingDrop := some drop })
  | _ => (outcome, s)

/-- The gesture given up. -/
def cancelDrag (s : Session) : Session := { s with gesture := s.gesture.cancel }

/-- The drop that waits for consent given up. -/
def cancelDrop (s : Session) : Session :=
  match s.pendingDrop with
  | none => s
  | some _ => notify .info "Move cancelled" { s with pendingDrop := none }

/-! ## Tasks, notices, reset -/

/-- A task taken out of the ledger. -/
def dismissTask (id : TaskId) (s : Session) : Except SessionError Unit × Session :=
  let (found, ledger) := s.ledger.dismiss id
  (if found then .ok () else .error (.unknownTask id), { s with ledger })

/-- Every task that has ended taken out of the ledger: how many there were. -/
def clearFinished (s : Session) : Nat × Session :=
  let (count, ledger) := s.ledger.clearFinished
  (count, { s with ledger })

/-- The notice hidden. -/
def dismissNotice (s : Session) : Session := { s with notice := none }

/-- Everything forgotten but the settings; loads on their way are no more the newest. -/
def reset (s : Session) : Session :=
  { start s.config s.clock with
    cache := s.cache.clear
    ledger := s.ledger.clear
    gesture := s.gesture.cancel
    generation := s.generation + 1 }

/-! ## Lemmas -/

/-- After pruning, every selected name is visible. -/
theorem names_prune_subset (s : Session) :
    ∀ name ∈ s.prune.selection.names, name ∈ s.visibleNames := by
  intro name h
  simp only [prune, Selection.names_retainVisible, List.mem_filter] at h
  simpa using h.2

/-- After pruning, the focused name is visible. -/
theorem focused_prune (s : Session) {name : String} (h : s.prune.focused = some name) :
    name ∈ s.visibleNames := by
  simp only [prune, Option.filter_eq_some_iff] at h
  simpa using h.2

end Session

end CloudDrive
