import CloudDrive.Remote.Moves
import CloudDrive.Session

/-!
# The work behind commands

The programs that load directories and carry out operations. A change of the store is shown in the
cache first; if the store accepts it, the touched listings are fetched again, and if not, the cache
is put back and the task fails with what a retry would run.

* `load`: a directory fetched into the cache. * `work`: an operation carried out for a task.
-/

namespace CloudDrive.Session

open Remote (Failure)

/-! ## Loading -/

/-- A load begins; it is the newest one. -/
def beginLoad (s : Session) : Nat × Session :=
  (s.generation + 1, { s with generation := s.generation + 1, loading := true })

/-- A listing has arrived; only the newest load speaks for the view. -/
def loaded (generation : Nat) (listing : Listing) (s : Session) : Session :=
  let s := { s with cache := s.cache.insert listing }
  if s.generation = generation then { s with loading := false, loadError := none }.prune else s

/-- A load has failed; only the newest load speaks for the view. -/
def loadFailed (generation : Nat) (path : String) (f : Failure) (s : Session) : Session :=
  if s.generation = generation then
    notify .error (SessionError.transport path f).message
      { s with loading := false, loadError := some f.reason }
  else
    s

/-- A listing fetched with the retries of the settings. -/
def fetch (path : String) : Program Session (Except Failure Listing) := do
  Remote.list path (← get).config.readRetry

/-- A directory loaded. -/
def load (path : String) : Program Session (Except SessionError Unit) := do
  let generation ← modifyGet beginLoad
  match ← fetch path with
  | .ok listing =>
    modify (loaded generation listing)
    return .ok ()
  | .error f =>
    modify (loadFailed generation path f)
    return .error (.transport path f)

/-- A listing that was fetched again, or not. -/
def refetched (reply : Except Failure Listing) (s : Session) : Session :=
  match reply with
  | .ok listing => { s with cache := s.cache.insert listing }
  | .error _ => s

/-- Those of some directories that are still cached fetched again, one after another. -/
def refetch : List String → Program Session Unit
  | [] => return ()
  | key :: keys => do
    if (← get).cache.contains key then
      let reply ← fetch key
      modify (refetched reply)
    refetch keys

/-- Directories that a change has touched fetched again, and the selection reduced to what is
visible then. -/
def reconcile (keys : List String) : Program Session Unit := do
  refetch keys
  modify prune

/-! ## Reports -/

/-- A task has succeeded. -/
def succeed (id : TaskId) (label : String) (s : Session) : Session :=
  notify .success label { s with ledger := s.ledger.complete id none s.clock }

/-- A task has failed. -/
def fail (id : TaskId) (label reason : String) (s : Session) : Session :=
  let s := notify .error (label ++ " failed: " ++ reason) s
  { s with ledger := s.ledger.fail id reason s.clock }

/-- A task has failed, but part of it may be done: the report tells the counts, and what a retry
would run. -/
def failPartly (id : TaskId) (label reason summary : String) (retry : Operation) (s : Session) :
    Session :=
  let ledger := ((s.ledger.fail id reason s.clock).setSummary id summary).setRetry id (some retry)
  notify .error (label ++ ": " ++ summary) { s with ledger }

/-! ## Optimistic changes -/

/-- A patch applied to the cache, with a snapshot of what it touches. -/
def beginPatch (patch : Cache.Patch) (s : Session) : Cache.Snapshot × Session :=
  let snapshot := s.cache.begin (s.cache.scopeFor patch)
  (snapshot, { s with cache := s.cache.apply patch }.prune)

/-- The patch is accepted: the directories to fetch again. -/
def commit (snapshot : Cache.Snapshot) (s : Session) : List String × Session :=
  let (keys, cache) := s.cache.commit snapshot
  (keys, { s with cache })

/-- The patch is taken back. -/
def rollback (snapshot : Cache.Snapshot) (s : Session) : Session :=
  { s with cache := s.cache.rollback snapshot }

/-! ## Batches -/

/-- The kinds of batch move. -/
inductive BatchKind where
  | directory (destination : String)
  | trash
  | restore
  deriving Repr, DecidableEq, Inhabited

/-- The plan of a batch. The sources are paths, and for a restoration names inside the trash. -/
def BatchKind.prepare (kind : BatchKind) (c : Config) (sources : List String) :
    Program Session (Except Failure MovePlan) :=
  match kind with
  | .directory destination => MovePlan.prepare c.readRetry sources destination
  | .trash => Trash.prepareTrash c c.readRetry sources
  | .restore => Trash.prepareRestore c c.readRetry sources

/-- What a retry runs after these sources failed. -/
def BatchKind.retry (kind : BatchKind) (failed : List String) : Operation :=
  match kind with
  | .directory destination => .moveEntries failed destination
  | .trash => .moveToTrash failed
  | .restore => .restoreFromTrash (failed.map Path.name)

/-- Every move of a batch was skipped. -/
def allSkipped (id : TaskId) (label : String) (plan : MovePlan) (s : Session) : Session :=
  let outcome : BatchOutcome := { conflicts := plan.conflicts.length }
  notify .warning (label ++ ": " ++ outcome.summary)
    { s with ledger := s.ledger.complete id (some outcome.summary) s.clock }

/-- Every move that was tried is done: the directories to fetch again. -/
def batchDone (id : TaskId) (label : String) (outcome : BatchOutcome) (snapshot : Cache.Snapshot)
    (s : Session) : List String × Session :=
  let (keys, s) := s.commit snapshot
  let severity := if 0 < outcome.conflicts then Severity.warning else .success
  (keys, notify severity (label ++ ": " ++ outcome.summary)
    { s with ledger := s.ledger.complete id (some outcome.summary) s.clock })

/-- Some moves were refused. -/
def batchRefused (id : TaskId) (label : String) (kind : BatchKind) (outcome : BatchOutcome)
    (snapshot : Cache.Snapshot) (s : Session) : Session :=
  failPartly id label outcome.failureMessage outcome.summary (kind.retry outcome.failedSources)
    (s.rollback snapshot)

/-- A batch carried out. -/
def workBatch (id : TaskId) (sources : List String) (kind : BatchKind) : Program Session Unit := do
  let s ← get
  let label := s.taskLabel id
  match ← kind.prepare s.config sources with
  | .error f => modify (fail id label f.reason)
  | .ok plan =>
    if plan.isEmpty then
      modify (allSkipped id label plan)
    else
      let snapshot ← modifyGet (beginPatch plan.toPatch)
      let outcome ← BatchOutcome.ofPlan plan
      if outcome.isSuccess then
        let keys ← modifyGet (batchDone id label outcome snapshot)
        reconcile keys
      else
        modify (batchRefused id label kind outcome snapshot)
        if 0 < outcome.successCount then
          reconcile snapshot.keys

/-! ## Deletions -/

/-- Every path is deleted: the directories to fetch again. -/
def deleteDone (id : TaskId) (report : Remote.DeleteReport) (snapshot : Cache.Snapshot)
    (s : Session) : List String × Session :=
  let (keys, s) := s.commit snapshot
  let summary := "Deleted " ++ Nat.repr report.deleted.length ++ " item(s)"
  (keys, notify .success summary
    { s with ledger := s.ledger.complete id (some summary) s.clock })

/-- Some paths were not deleted. -/
def deleteRefused (id : TaskId) (label : String) (report : Remote.DeleteReport)
    (snapshot : Cache.Snapshot) (s : Session) : Session :=
  let reasons := report.failed.map fun f => Path.name f.path ++ ": " ++ f.reason
  let summary := Nat.repr report.deleted.length ++ " deleted, " ++
    Nat.repr report.failed.length ++ " failed"
  failPartly id label (String.intercalate "; " reasons) summary
    (.deleteEntries (report.failed.map (·.path))) (s.rollback snapshot)

/-- Entries deleted for good. -/
def workDelete (id : TaskId) (paths : List String) : Program Session Unit := do
  let label := (← get).taskLabel id
  let snapshot ← modifyGet (beginPatch (.remove paths))
  match ← Program.request (.delete paths) with
  | .error f => modify fun s => fail id label f.reason (s.rollback snapshot).prune
  | .ok report =>
    if report.isComplete then
      let keys ← modifyGet (deleteDone id report snapshot)
      reconcile keys
    else
      modify (deleteRefused id label report snapshot)
      if report.deleted.isEmpty then
        modify prune
      else
        reconcile snapshot.keys

/-! ## Single changes -/

/-- A directory created. -/
def workCreate (id : TaskId) (parent name : String) : Program Session Unit := do
  let label := (← get).taskLabel id
  match ← Program.request (.createDirectory parent name) with
  | .ok _ =>
    modify (succeed id label)
    reconcile [parent]
  | .error f => modify (fail id label f.reason)

/-- An entry renamed. -/
def workRename (id : TaskId) (path newName : String) : Program Session Unit := do
  let label := (← get).taskLabel id
  let snapshot ← modifyGet (beginPatch (.rename path newName))
  match ← Program.request (.move path (Path.join (Path.parent path) newName)) with
  | .ok _ =>
    let keys ← modifyGet (commit snapshot)
    modify (succeed id label)
    reconcile keys
  | .error f => modify fun s => fail id label f.reason (s.rollback snapshot)

/-- A file stored. -/
def workUpload (id : TaskId) (file : Remote.UploadFile) (directory : String) :
    Program Session Unit := do
  let label := (← get).taskLabel id
  match ← Program.request (.upload file directory) with
  | .ok _ =>
    modify (succeed id label)
    reconcile [directory]
  | .error f => modify (fail id label f.reason)

/-! ## Operations -/

/-- An operation carried out for a task. -/
def work (id : TaskId) : Operation → Program Session Unit
  | .moveEntries sources destination => workBatch id sources (.directory destination)
  | .moveToTrash sources => workBatch id sources .trash
  | .restoreFromTrash names => workBatch id names .restore
  | .deleteEntries paths => workDelete id paths
  | .createDirectory parent name => workCreate id parent name
  | .rename path newName => workRename id path newName
  | .upload file directory => workUpload id file directory

/-- An entry put into a directory by a call: what a creation and an upload have in common. -/
def workInsert (id : TaskId) (call : Remote.Call) (directory : String) : Program Session Unit := do
  let label := (← get).taskLabel id
  match ← Program.request call with
  | .ok _ =>
    modify (succeed id label)
    reconcile [directory]
  | .error f => modify (fail id label f.reason)

theorem work_createDirectory (id : TaskId) (parent name : String) :
    work id (.createDirectory parent name) =
      workInsert id (.createDirectory parent name) parent := by
  refine congrArg Program.get (funext fun s => congrArg (Program.call _) (funext fun r => ?_))
  cases r <;> rfl

theorem work_upload (id : TaskId) (file : Remote.UploadFile) (directory : String) :
    work id (.upload file directory) = workInsert id (.upload file directory) directory := by
  refine congrArg Program.get (funext fun s => congrArg (Program.call _) (funext fun r => ?_))
  cases r <;> rfl

/-- A task for an operation begins. -/
def beginTask (operation : Operation) (s : Session) : TaskId × Session :=
  let (id, ledger) := s.ledger.start operation.description (some operation) s.clock
  (id, { s with ledger })

/-- An operation carried out by a task of its own. -/
def perform (operation : Operation) : Program Session TaskId := do
  let id ← modifyGet (beginTask operation)
  work id operation
  return id

/-- Operations carried out one after another, each by a task of its own. -/
def performAll : List Operation → Program Session (List TaskId)
  | [] => return []
  | operation :: operations => do
    let id ← perform operation
    return id :: (← performAll operations)

end CloudDrive.Session
