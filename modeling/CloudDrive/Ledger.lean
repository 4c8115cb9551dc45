import CloudDrive.Operation

/-!
# The task ledger

A bounded list of tasks, newest first. Every change publishes a snapshot of the tasks; a change that
is refused publishes nothing.

* `published_publish`, `tasks_publish`: what a publication does.
* `beginRetry_eq`: a retry begins only for a failed task that can be run again.
-/

namespace CloudDrive

/-- The state of a task. -/
inductive TaskStatus where
  | running
  | success
  | failed
  deriving Repr, DecidableEq, Inhabited

/-- The name of the state. -/
def TaskStatus.label : TaskStatus → String
  | .running => "Running"
  | .success => "Success"
  | .failed => "Failed"

/-- The identity of a task in a ledger. -/
structure TaskId where
  number : Nat
  deriving Repr, DecidableEq, Inhabited

/-- How a task is named to the user. -/
def TaskId.text (id : TaskId) : String := "#" ++ Nat.repr id.number

/-- One entry of the ledger. -/
structure Task where
  id : TaskId
  /-- What the task does, in words. -/
  label : String
  status : TaskStatus
  startedAt : Instant
  finishedAt : Option Instant
  /-- The reason of the last failure. -/
  error : Option String
  /-- What the task came to, in words. -/
  summary : Option String
  /-- What a retry would run. -/
  retry : Option Operation
  deriving DecidableEq, Inhabited

namespace Task

/-- A task that has just begun. -/
def start (id : TaskId) (label : String) (retry : Option Operation) (now : Instant) : Task :=
  ⟨id, label, .running, now, none, none, none, retry⟩

/-- Has the task ended? -/
def isTerminal (t : Task) : Bool := t.status != .running

/-- Has the task failed, and can it be run again? -/
def isRetryable (t : Task) : Bool := t.status == .failed && t.retry.isSome

/-- The task when it ends. -/
def finish (t : Task) (status : TaskStatus) (now : Instant) : Task :=
  { t with status, finishedAt := some now }

/-- The task when it is run again. -/
def restart (t : Task) : Task :=
  { t with status := .running, finishedAt := none, error := none, summary := none }

end Task

/-- The ledger. -/
structure Ledger where
  /-- The tasks, newest first. -/
  tasks : List Task
  /-- The most tasks that are kept. -/
  limit : Nat
  /-- The number of the next task. -/
  nextId : Nat
  /-- The snapshot that was published last. -/
  published : List Task
  /-- The number of publications. -/
  publications : Nat
  deriving DecidableEq, Inhabited

namespace Ledger

/-- A ledger that keeps `limit` tasks, but at least one. -/
def withLimit (limit : Nat) : Ledger := ⟨[], max limit 1, 1, [], 0⟩

/-- The limit of a ledger that is given none. -/
def standardLimit : Nat := 30

/-- The ledger with its tasks published. -/
def publish (l : Ledger) : Ledger :=
  { l with published := l.tasks, publications := l.publications + 1 }

/-- The task with this identity. -/
def get? (l : Ledger) (id : TaskId) : Option Task := l.tasks.find? (·.id == id)

/-- The number of tasks. -/
def size (l : Ledger) : Nat := l.tasks.length

/-- A new running task in front; the oldest ones go if there are too many. -/
def start (l : Ledger) (label : String) (retry : Option Operation) (now : Instant) :
    TaskId × Ledger :=
  let id : TaskId := ⟨l.nextId⟩
  (id, publish
    { l with
      tasks := (Task.start id label retry now :: l.tasks).take l.limit
      nextId := l.nextId + 1 })

/-- One task changed, if it is there and passes a test. -/
def change (l : Ledger) (id : TaskId) (test : Task → Bool) (f : Task → Task) : Ledger :=
  if (l.get? id).any test then
    publish { l with tasks := l.tasks.map fun t => if t.id = id then f t else t }
  else
    l

/-- A running task has succeeded. -/
def complete (l : Ledger) (id : TaskId) (summary : Option String) (now : Instant) : Ledger :=
  l.change id (! ·.isTerminal) fun t => { t.finish .success now with summary }

/-- A running task has failed. -/
def fail (l : Ledger) (id : TaskId) (message : String) (now : Instant) : Ledger :=
  l.change id (! ·.isTerminal) fun t => { t.finish .failed now with error := some message }

/-- A summary for a task in any state. -/
def setSummary (l : Ledger) (id : TaskId) (summary : String) : Ledger :=
  l.change id (fun _ => true) fun t => { t with summary := some summary }

/-- What a retry of a task would run. -/
def setRetry (l : Ledger) (id : TaskId) (retry : Option Operation) : Ledger :=
  l.change id (fun _ => true) fun t => { t with retry }

/-- A failed task is running again: what it is to run, if it can be run again. -/
def beginRetry (l : Ledger) (id : TaskId) : Option Operation × Ledger :=
  (((l.get? id).filter (·.isRetryable)).bind (·.retry), l.change id (·.isRetryable) (·.restart))

/-- A task taken out, whatever its state: was it there? -/
def dismiss (l : Ledger) (id : TaskId) : Bool × Ledger :=
  if (l.get? id).isSome then
    (true, publish { l with tasks := l.tasks.filter (·.id != id) })
  else
    (false, l)

/-- Every task that has ended taken out: how many there were. -/
def clearFinished (l : Ledger) : Nat × Ledger :=
  let kept := l.tasks.filter (! ·.isTerminal)
  let removed := l.tasks.length - kept.length
  (removed, if 0 < removed then publish { l with tasks := kept } else l)

/-- Every task taken out. -/
def clear (l : Ledger) : Ledger := publish { l with tasks := [] }

/-! ## Lemmas -/

@[simp] theorem tasks_publish (l : Ledger) : l.publish.tasks = l.tasks := rfl

@[simp] theorem published_publish (l : Ledger) : l.publish.published = l.tasks := rfl

/-- A retry that is refused leaves the ledger as it is. -/
theorem beginRetry_eq {l : Ledger} {id : TaskId} (h : (l.get? id).any (·.isRetryable) = false) :
    l.beginRetry id = (none, l) := by
  have hf : (l.get? id).filter (·.isRetryable) = none := by
    cases hg : l.get? id with
    | none => rfl
    | some t => simp [hg] at h; simp [h]
  unfold beginRetry change
  rw [hf, h]
  rfl

end Ledger

end CloudDrive
