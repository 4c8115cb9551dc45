import CloudDrive.Remote.Call
import CloudDrive.Store.Catalog

/-!
# The store

A simulated remote store. It answers calls from its catalog, logs every call that is made, fails
calls on request, and holds calls back while its gate is closed for their kind.

* `answer`: the reply to a call, and the store afterwards.
* `catalog_answer_list`: a listing changes no entry. * `gate_answer`: no call moves the gate.
-/

namespace CloudDrive

namespace Store

open Remote (Call CallKind DeleteReport Failure UploadFile)

/-! ## Faults and the gate -/

/-- A failure that calls of one kind meet. -/
structure Fault where
  kind : CallKind
  /-- The path that calls have to name to meet the failure; `none` stands for any call. -/
  path : Option String
  failure : Failure
  /-- Does the fault go away with the first call that meets it? -/
  once : Bool
  deriving Repr, DecidableEq, Inhabited

/-- Does a call of this kind that names `path` meet the fault? -/
def Fault.meets (f : Fault) (kind : CallKind) (path : Option String) : Bool :=
  f.kind == kind && (f.path.isNone || f.path == path)

/-- Which calls are held back. -/
inductive Gate where
  /-- No call. -/
  | opened
  /-- Every call. -/
  | closed
  /-- The calls of these kinds. -/
  | closedFor (kinds : List CallKind)
  deriving Repr, DecidableEq, Inhabited

/-- Are calls of this kind held back? -/
def Gate.holds : Gate → CallKind → Bool
  | .opened, _ => false
  | .closed, _ => true
  | .closedFor kinds, kind => kinds.contains kind

/-- The gate closed for one more kind. -/
def Gate.closeFor : Gate → CallKind → Gate
  | .opened, kind => .closedFor [kind]
  | .closed, _ => .closed
  | .closedFor kinds, kind => .closedFor (if kinds.contains kind then kinds else kinds ++ [kind])

end Store

open Remote (Call CallKind DeleteReport Failure UploadFile)
open Store (Catalog Fault Gate)

/-- The store. -/
structure Store where
  /-- The entries. -/
  catalog : Catalog
  /-- The calls that were made, oldest first. -/
  log : List Call
  /-- The failures that calls meet, oldest first. -/
  faults : List Fault
  /-- Which calls are held back. -/
  gate : Gate
  /-- The time that new entries get. -/
  clock : Instant
  deriving Inhabited

namespace Store

/-- A store that holds a catalog, at a time. -/
def ofCatalog (catalog : Catalog) (clock : Instant) : Store := ⟨catalog, [], [], .opened, clock⟩

/-- The calls of one kind that were made. -/
def callsOf (s : Store) (kind : CallKind) : List Call := s.log.filter (·.kind == kind)

/-- A call noted in the log. -/
def record (s : Store) (c : Call) : Store := { s with log := s.log ++ [c] }

/-- An entry put into the catalog. -/
def insert (s : Store) (e : Entry) : Store := { s with catalog := s.catalog.insert e }

/-- A fault added after the others. -/
def addFault (s : Store) (f : Fault) : Store := { s with faults := s.faults ++ [f] }

/-- The failure that a call meets, and the store after it. -/
def takeFault (s : Store) (kind : CallKind) (path : Option String) : Option Failure × Store :=
  match s.faults.find? (·.meets kind path) with
  | none => (none, s)
  | some f =>
    (some f.failure,
      if f.once then { s with faults := s.faults.eraseP (·.meets kind path) } else s)

/-! ## The calls -/

/-- Why `path` cannot serve as a directory. -/
def directoryFailure? (s : Store) (path : String) : Option Failure :=
  if path = Path.root then none
  else
    match s.catalog.find? path with
    | some e => if e.isDirectory then none else some (.notDirectory path)
    | none => some (.notFound path)

/-- The listing of a directory. -/
def list (s : Store) (directory : String) : Except Failure Listing × Store :=
  match s.takeFault .list (some directory) with
  | (some f, s) => (.error f, s)
  | (none, s) =>
    match s.directoryFailure? directory with
    | some f => (.error f, s)
    | none => (.ok (.ofEntries directory (s.catalog.children directory)), s)

/-- One path deleted, with all beneath it, and noted in the report. -/
def deleteOne (s : Store) (report : DeleteReport) (path : String) : Store × DeleteReport :=
  let refused (reason : String) : DeleteReport :=
    { report with failed := report.failed ++ [⟨path, reason⟩] }
  match s.takeFault .delete (some path) with
  | (some f, s) => (s, refused f.reason)
  | (none, s) =>
    if (s.catalog.find? path).isSome then
      ({ s with catalog := s.catalog.eraseWithin path },
        { report with deleted := report.deleted ++ [path] })
    else
      (s, refused (Failure.notFound path).reason)

/-- Paths deleted one after another; each is reported. -/
def delete (s : Store) (paths : List String) : Except Failure DeleteReport × Store :=
  match s.takeFault .delete none with
  | (some f, s) => (.error f, s)
  | (none, s) =>
    let (s, report) := paths.foldl (fun (s, report) path => s.deleteOne report path) (s, ⟨[], []⟩)
    (.ok report, s)

/-- Why the catalog cannot move `source` to `destination`. -/
def moveFailure? (s : Store) (source destination : String) : Option Failure :=
  if (s.catalog.find? source).isNone then some (.notFound source)
  else if s.catalog.contains destination then some (.alreadyExists destination)
  else if Path.isWithin destination source then some .moveIntoItself
  else s.directoryFailure? (Path.parent destination)

/-- One entry moved, with all beneath it. -/
def move (s : Store) (source destination : String) : Except Failure Unit × Store :=
  match s.takeFault .move (some source) with
  | (some f, s) => (.error f, s)
  | (none, s) =>
    match s.moveFailure? source destination with
    | some f => (.error f, s)
    | none => (.ok (), { s with catalog := s.catalog.move source destination })

/-- A directory created. -/
def createDirectory (s : Store) (parent name : String) : Except Failure Unit × Store :=
  let target := Path.join parent name
  match s.takeFault .createDirectory (some target) with
  | (some f, s) => (.error f, s)
  | (none, s) =>
    match s.directoryFailure? parent with
    | some f => (.error f, s)
    | none =>
      if s.catalog.contains target then (.error (.alreadyExists target), s)
      else (.ok (), s.insert (.directory target s.clock))

/-- A file stored; it replaces a file, but no directory. -/
def upload (s : Store) (file : UploadFile) (directory : String) : Except Failure Unit × Store :=
  let target := Path.join directory file.name
  match s.takeFault .upload (some target) with
  | (some f, s) => (.error f, s)
  | (none, s) =>
    match s.directoryFailure? directory with
    | some f => (.error f, s)
    | none =>
      if (s.catalog.find? target).any (·.isDirectory) then (.error (.alreadyExists target), s)
      else (.ok (), s.insert (.file target (UInt64.ofNat file.data.length) s.clock))

/-- The reply to a call, and the store after it. -/
def answer (s : Store) : (c : Call) → c.Reply × Store
  | .list directory => s.list directory
  | .delete paths => s.delete paths
  | .move source destination => s.move source destination
  | .createDirectory parent name => s.createDirectory parent name
  | .upload file directory => s.upload file directory

/-- Is the call held back? -/
def holds (s : Store) (c : Call) : Bool := s.gate.holds c.kind

/-! ## Lemmas -/

@[simp] theorem catalog_takeFault (s : Store) (kind : CallKind) (path : Option String) :
    (s.takeFault kind path).2.catalog = s.catalog := by
  unfold takeFault
  split
  · rfl
  · split <;> rfl

/-- A listing changes no entry. -/
theorem catalog_answer_list (s : Store) (directory : String) :
    (s.answer (.list directory)).2.catalog = s.catalog := by
  have h := s.catalog_takeFault .list (some directory)
  simp only [answer, list]
  revert h
  generalize s.takeFault .list (some directory) = r
  intro h
  obtain ⟨_ | f, s'⟩ := r
  · simp only
    split <;> exact h
  · exact h

@[simp] theorem gate_takeFault (s : Store) (kind : CallKind) (path : Option String) :
    (s.takeFault kind path).2.gate = s.gate := by
  unfold takeFault
  split
  · rfl
  · split <;> rfl

theorem gate_deleteOne (s : Store) (report : DeleteReport) (path : String) :
    (s.deleteOne report path).1.gate = s.gate := by
  have h := s.gate_takeFault .delete (some path)
  unfold deleteOne
  simp only
  split
  · next hf => rw [hf] at h; exact h
  · next hf =>
    rw [hf] at h
    split <;> exact h

theorem gate_deleteAll (paths : List String) (s : Store) (report : DeleteReport) :
    (paths.foldl (fun (s, report) path => s.deleteOne report path) (s, report)).1.gate =
      s.gate := by
  induction paths generalizing s report with
  | nil => rfl
  | cons path paths ih => exact (ih _ _).trans (s.gate_deleteOne report path)

/-- No call moves the gate. -/
theorem gate_answer (s : Store) (c : Call) : (s.answer c).2.gate = s.gate := by
  cases c with
  | list directory =>
    have h := s.gate_takeFault .list (some directory)
    simp only [answer, list]
    split
    · next hf => rw [hf] at h; exact h
    · next hf => rw [hf] at h; split <;> exact h
  | delete paths =>
    have h := s.gate_takeFault .delete none
    simp only [answer, delete]
    split
    · next hf => rw [hf] at h; exact h
    · next hf => rw [hf] at h; exact (gate_deleteAll _ _ _).trans h
  | move source destination =>
    have h := s.gate_takeFault .move (some source)
    simp only [answer, move]
    split
    · next hf => rw [hf] at h; exact h
    · next hf => rw [hf] at h; split <;> exact h
  | createDirectory parent name =>
    have h := s.gate_takeFault .createDirectory (some (Path.join parent name))
    simp only [answer, createDirectory]
    split
    · next hf => rw [hf] at h; exact h
    · next hf =>
      rw [hf] at h
      split
      · exact h
      · split <;> exact h
  | upload file directory =>
    have h := s.gate_takeFault .upload (some (Path.join directory file.name))
    simp only [answer, upload]
    split
    · next hf => rw [hf] at h; exact h
    · next hf =>
      rw [hf] at h
      split
      · exact h
      · split <;> exact h

end Store

end CloudDrive
