import CloudDrive.Session.Work

/-!
# Commands of a session

A command is checked at once, by `accept`, which either refuses it or says what work it comes to;
only the work asks the store.

* `program`: the program of a command.
* `accept_navigate_error`: a path that breaks a rule changes nothing.
-/

namespace CloudDrive.Session

/-- What the user asks of the store. -/
inductive Command where
  | navigate (typed : String)
  | refresh
  | confirmMove
  | moveTo (typed : String)
  | trash
  | restore
  | deletePermanently
  /-- Delete for good inside the trash, and into the trash elsewhere. -/
  | delete
  | createDirectory (typed : String)
  | rename (name typed : String)
  | upload (files : List Remote.UploadFile)
  | retry (id : TaskId)
  deriving Repr, DecidableEq, Inhabited

/-- What a command brings. -/
inductive Answer where
  | done
  /-- A task was started. -/
  | task (id : TaskId)
  /-- A new name was the old one, and no task was started. -/
  | unchanged
  /-- A task per file was started. -/
  | tasks (ids : List TaskId)
  /-- Was the task run again? -/
  | retried (happened : Bool)
  deriving Repr, DecidableEq, Inhabited

/-- The work that an accepted command comes to. -/
inductive Request where
  | load (path : String)
  | perform (operation : Operation)
  | performAll (operations : List Operation)
  /-- A task of the ledger run again. -/
  | rerun (id : TaskId) (operation : Operation)
  /-- No work at all. -/
  | nothing (answer : Answer)
  deriving Repr, DecidableEq, Inhabited

/-! ## Checks -/

/-- The selected names; there has to be one. -/
def selectedNames (s : Session) : Except SessionError (List String) :=
  if s.selection.names.isEmpty then .error .nothingSelected else .ok s.selection.names

/-- The paths of the selected entries; there has to be one. -/
def selectedPaths (s : Session) : Except SessionError (List String) :=
  s.selectedNames.map (·.map (Path.join s.path))

/-- The target of a user's move or a new entry may not lie in the trash. -/
def checkDestination (s : Session) (path : String) : Except SessionError Unit :=
  if Trash.isReserved s.config path then .error (.reservedDestination path) else .ok ()

/-- A text that the user typed. -/
def checkTyped (result : Except Path.InputError String) : Except SessionError String :=
  result.mapError .input

/-- The session that shows another directory, before its listing has arrived. -/
def visit (target : String) (s : Session) : Session :=
  { s with
    path := target
    selection := s.selection.clear
    focused := none
    pendingDrop := none
    loadError := none
    recent := (target :: s.recent.filter (· != target)).take s.config.recentLimit
    gesture := s.gesture.cancel }

/-- The move of a drop that has the user's consent. -/
def dropRequest (s : Session) (drop : Pointer.Drop) : Except SessionError Request := do
  s.checkDestination drop.targetPath
  return .perform (.moveEntries (drop.sources.map (Path.join s.path)) drop.targetPath)

/-- The move of the selection into a typed directory. -/
def moveRequest (s : Session) (typed : String) : Except SessionError Request := do
  let destination ← checkTyped (Path.normalize typed)
  s.checkDestination destination
  return .perform (.moveEntries (← s.selectedPaths) destination)

/-- The move of the selection into the trash. -/
def trashRequest (s : Session) : Except SessionError Request := do
  return .perform (.moveToTrash (← s.selectedPaths))

/-- The restoration of the selection, which has to be in the trash. -/
def restoreRequest (s : Session) : Except SessionError Request := do
  if s.viewKind ≠ .trash then
    throw .notInTrash
  return .perform (.restoreFromTrash (← s.selectedNames))

/-- The deletion of the selection for good. -/
def deleteRequest (s : Session) : Except SessionError Request := do
  return .perform (.deleteEntries (← s.selectedPaths))

/-- The creation of a directory of a typed name in the directory that is shown. -/
def createRequest (s : Session) (typed : String) : Except SessionError Request := do
  let name ← checkTyped (Path.validateName typed)
  s.checkDestination (Path.join s.path name)
  return .perform (.createDirectory s.path name)

/-- The renaming of an entry of the directory that is shown to a typed name. -/
def renameRequest (s : Session) (name typed : String) : Except SessionError Request := do
  let newName ← checkTyped (Path.validateName typed)
  if newName = name then
    return .nothing .unchanged
  s.checkDestination (Path.join s.path newName)
  return .perform (.rename (Path.join s.path name) newName)

/-- The storing of files in the directory that is shown. -/
def uploadRequest (s : Session) (files : List Remote.UploadFile) : Except SessionError Request := do
  s.checkDestination s.path
  return .performAll (files.map (.upload · s.path))

/-! ## Commands -/

/-- The work that a command comes to, or why it is refused, and the session after the check. -/
def accept (command : Command) (s : Session) : Except SessionError Request × Session :=
  match command with
  | .navigate typed =>
    match checkTyped (Path.normalize typed) with
    | .error e => (.error e, s)
    | .ok target => (.ok (.load target), s.visit target)
  | .refresh => (.ok (.load s.path), s)
  | .confirmMove =>
    match s.pendingDrop with
    | none => (.error .noPendingMove, s)
    | some drop => (s.dropRequest drop, { s with pendingDrop := none })
  | .moveTo typed => (s.moveRequest typed, s)
  | .trash => (s.trashRequest, s)
  | .restore => (s.restoreRequest, s)
  | .deletePermanently => (s.deleteRequest, s)
  | .delete => (if s.viewKind = .trash then s.deleteRequest else s.trashRequest, s)
  | .createDirectory typed => (s.createRequest typed, s)
  | .rename name typed => (s.renameRequest name typed, s)
  | .upload files => (s.uploadRequest files, s)
  | .retry id =>
    if (s.ledger.get? id).isNone then (.error (.unknownTask id), s)
    else
      match s.ledger.beginRetry id with
      | (none, ledger) => (.ok (.nothing (.retried false)), { s with ledger })
      | (some operation, ledger) => (.ok (.rerun id operation), { s with ledger })

/-- The program of work. -/
def Request.program : Request → Program Session (Except SessionError Answer)
  | .load path => do return (← Session.load path).map fun _ => .done
  | .perform operation => do return .ok (.task (← Session.perform operation))
  | .performAll operations => do return .ok (.tasks (← Session.performAll operations))
  | .rerun id operation => do
    work id operation
    return .ok (.retried true)
  | .nothing answer => return .ok answer

/-- The program of a command. -/
def Command.program (command : Command) : Program Session (Except SessionError Answer) := do
  match ← modifyGet (accept command) with
  | .error e => return .error e
  | .ok request => request.program

/-! ## Lemmas -/

/-- A path that breaks a rule changes nothing. -/
theorem accept_navigate_error {s : Session} {typed : String} {e : Path.InputError}
    (h : Path.normalize typed = .error e) :
    accept (.navigate typed) s = (.error (.input e), s) := by
  have hc : checkTyped (Path.normalize typed) = .error (.input e) := by
    rw [h]
    rfl
  simp [accept, hc]

end CloudDrive.Session
