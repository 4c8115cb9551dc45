import CloudDrive.Batch
import CloudDrive.Remote.Retry
import CloudDrive.Trash

/-!
# Programs of moves

Batches are planned by listing the destination once, and run move by move; a move that is refused
stops none of those after it. The trash is created when it is needed.
-/

namespace CloudDrive

open Remote (Call Failure)

variable {σ : Type}

namespace MovePlan

/-- The plan that moves `sources` into `destination`, by its listing. -/
def prepare (policy : RetryPolicy) (sources : List String) (destination : String) :
    Program σ (Except Failure MovePlan) := do
  match ← Remote.list destination policy with
  | .ok listing => return .ok (ofSources sources listing)
  | .error f => return .error f

end MovePlan

namespace BatchOutcome

/-- The outcome after moves that run one after another. -/
def run (o : BatchOutcome) : List MoveRequest → Program σ BatchOutcome
  | [] => return o
  | m :: moves => do
    let reply ← Program.request (.move m.source m.destination)
    (o.add m reply).run moves

/-- The outcome of moves. -/
def ofMoves (moves : List MoveRequest) : Program σ BatchOutcome :=
  run { total := moves.length } moves

/-- The outcome of a plan. -/
def ofPlan (plan : MovePlan) : Program σ BatchOutcome := do
  let outcome ← ofMoves plan.moves
  return { outcome with conflicts := plan.conflicts.length }

end BatchOutcome

namespace Trash

/-- The trash created, unless it exists. -/
def ensure (c : Config) : Program σ (Except Failure Unit) := do
  match ← Program.request (.createDirectory c.trashParent c.trashName) with
  | .ok _ => return .ok ()
  | .error f => return if f.isAlreadyExists then .ok () else .error f

/-- The plan that moves `sources` into the trash, which is created if need be. -/
def prepareTrash (c : Config) (policy : RetryPolicy) (sources : List String) :
    Program σ (Except Failure MovePlan) := do
  match ← ensure c with
  | .ok _ => MovePlan.prepare policy sources c.trashPath
  | .error f => return .error f

/-- The plan that moves entries of the trash to the root. -/
def prepareRestore (c : Config) (policy : RetryPolicy) (names : List String) :
    Program σ (Except Failure MovePlan) :=
  MovePlan.prepare policy (entries c names) c.rootPath

end Trash

end CloudDrive
