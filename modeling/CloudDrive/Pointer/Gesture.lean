import CloudDrive.Entry
import CloudDrive.Pointer.Distance
import CloudDrive.Selection

/-!
# Clicks and drags

A press over an entry arms the gesture. Travel of at least the threshold turns it into a drag; a
release before that is a click. A drag that the platform starts skips the armed state.

* `state_release`, `state_cancel`: both end the gesture.
* `press_of_ne_idle`: a second press during a gesture counts for nothing.
-/

namespace CloudDrive.Pointer

/-- The keys held during a press. -/
structure Modifiers where
  /-- Extend the selection from the anchor. -/
  shift : Bool := false
  /-- Add the entry to the selection or take it away. -/
  toggle : Bool := false
  deriving Repr, DecidableEq, Inhabited

/-- The directory that a drag would drop onto. -/
structure DropTarget where
  name : String
  path : String
  deriving Repr, DecidableEq, Inhabited

/-- An entry as a drop target; only directories are. -/
def DropTarget.ofEntry? (e : Entry) : Option DropTarget :=
  if e.isDirectory then some ⟨e.name, e.path⟩ else none

/-- A drop that waits for the user's consent. -/
structure Drop where
  /-- The names of what was dragged, in the directory where the drag began. -/
  sources : List String
  /-- The name of the directory dropped onto. -/
  targetName : String
  /-- The path of the directory dropped onto. -/
  targetPath : String
  deriving Repr, DecidableEq, Inhabited

/-- The state of the pointer. -/
inductive GestureState where
  /-- Nothing is pressed. -/
  | idle
  /-- An entry is pressed, and the pointer has not travelled far. -/
  | armed (origin : Point) (name : String) (index : Nat) (modifiers : Modifiers)
  /-- Entries are dragged, perhaps over a directory. -/
  | dragging (payload : List String) (target : Option DropTarget)
  deriving Inhabited

/-- What an event of the pointer comes to. -/
inductive GestureOutcome where
  | nothing
  /-- A press and release without much travel. -/
  | click (name : String) (index : Nat) (modifiers : Modifiers)
  /-- A drag of these names has begun. -/
  | dragStarted (payload : List String)
  /-- Entries were dropped onto a directory. -/
  | dropped (drop : Drop)
  deriving Repr, DecidableEq, Inhabited

/-- The pointer gesture. -/
structure Gesture where
  /-- How far the pointer has to travel to turn a press into a drag. -/
  threshold : Float
  /-- The state of the pointer. -/
  state : GestureState
  deriving Inhabited

namespace Gesture

/-- Nothing pressed, with this threshold. -/
def idle (threshold : Float) : Gesture := ⟨threshold, .idle⟩

/-- Is a drag going on? -/
def isDragging (g : Gesture) : Bool :=
  match g.state with
  | .dragging _ _ => true
  | _ => false

/-- The directory that a drop would go to. -/
def target (g : Gesture) : Option DropTarget :=
  match g.state with
  | .dragging _ target => target
  | _ => none

/-- The pointer is pressed over an entry. -/
def press (g : Gesture) (name : String) (index : Nat) (origin : Point) (modifiers : Modifiers) :
    Gesture :=
  match g.state with
  | .idle => { g with state := .armed origin name index modifiers }
  | _ => g

/-- What a drag of `name` carries: the whole selection if `name` is part of it. -/
def payload (name : String) (selection : Selection) : List String :=
  if selection.contains name then selection.names else [name]

/-- A drag of these names begins. -/
def beginDrag (g : Gesture) (names : List String) : GestureOutcome × Gesture :=
  (.dragStarted names, { g with state := .dragging names none })

/-- The pointer has moved. -/
def move (g : Gesture) (point : Point) (selection : Selection) : GestureOutcome × Gesture :=
  match g.state with
  | .armed origin name _ _ =>
    if origin.distanceTo point < g.threshold then (.nothing, g)
    else g.beginDrag (payload name selection)
  | _ => (.nothing, g)

/-- The platform has started a drag of `name`. -/
def startDrag (g : Gesture) (name : String) (selection : Selection) : GestureOutcome × Gesture :=
  g.beginDrag (payload name selection)

/-- A drag is over an entry, or over none. -/
def hover (g : Gesture) (entry : Option Entry) : Gesture :=
  match g.state with
  | .dragging names _ => { g with state := .dragging names (entry.bind DropTarget.ofEntry?) }
  | _ => g

/-- The drop of `names` onto `target`, unless it would move nothing: the directory that the names
lie in, or a target that is all that is dragged. -/
def drop? (names : List String) (target : DropTarget) (directory : String) : Option Drop :=
  if target.path = directory then none
  else if names.all (· == target.name) then none
  else some ⟨names.eraseDups, target.name, target.path⟩

/-- The pointer is released; `directory` is where the dragged names lie. -/
def release (g : Gesture) (directory : String) : GestureOutcome × Gesture :=
  let outcome :=
    match g.state with
    | .idle => .nothing
    | .armed _ name index modifiers => .click name index modifiers
    | .dragging names (some target) =>
      match drop? names target directory with
      | some drop => .dropped drop
      | none => .nothing
    | .dragging _ none => .nothing
  (outcome, { g with state := .idle })

/-- The gesture is given up. -/
def cancel (g : Gesture) : Gesture := { g with state := .idle }

/-! ## Lemmas -/

@[simp] theorem state_release (g : Gesture) (directory : String) :
    (g.release directory).2.state = .idle := rfl

@[simp] theorem state_cancel (g : Gesture) : g.cancel.state = .idle := rfl

theorem press_of_ne_idle {g : Gesture} (h : g.state ≠ .idle) (name : String) (index : Nat)
    (origin : Point) (modifiers : Modifiers) : g.press name index origin modifiers = g := by
  unfold press
  split
  · next h' => exact absurd h' h
  · rfl

end Gesture

end CloudDrive.Pointer
