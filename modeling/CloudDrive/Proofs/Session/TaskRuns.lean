import CloudDrive.Proofs.Session.Attempts
import CloudDrive.Proofs.Session.Turns

/-!
# The runs of a task

A task is run by the command that starts it and by each of its retries. The runs of a task are told
apart by the numbers of their commands, and what each of them has attempted is written down as the
calls are answered.

* `taskRuns`: the runs of a task in some turns.
* `taskRuns_snoc`: what one more turn adds.
-/

namespace CloudDrive.Session

variable {τ : Type}

/-- The run that a command begins at once: the task, and the operation that is carried out. (An
upload of several files runs several tasks, one after another, and is left out.) -/
def Start.run? (start : Start) : Option (TaskId × Operation) :=
  match (accept start.command start.session).1 with
  | .ok (.perform operation) => some (⟨start.session.ledger.nextId⟩, operation)
  | .ok (.rerun id operation) => some (id, operation)
  | _ => none

/-- A run of a task. -/
structure TaskRun where
  operation : Operation
  /-- The moves that were asked for and answered, in order. -/
  attempts : List Attempt := []

/-- The run after its command has heard something. -/
def TaskRun.hear (run : TaskRun) (x : Exchange) : TaskRun :=
  { run with attempts := run.attempts ++ x.attempt?.toList }

/-- What the command of a number hears when it goes on. -/
def heard? (service : Service τ) (w : Crew τ) (number : Nat) : Option Exchange :=
  (w.job? number).bind fun errand => (errand.rest.hear service w.remote).map (·.1)

/-- The runs of a task after one more turn. -/
def Turn.runs (service : Service τ) (id : TaskId) (w : Crew τ) (runs : Nat → Option TaskRun) :
    Turn τ → Nat → Option TaskRun
  | .ask command =>
    match Start.run? ⟨command, w.state⟩ with
    | some (other, operation) =>
      if other = id then Function.update runs w.begun (some { operation }) else runs
    | none => runs
  | .go number =>
    match heard? service w number with
    | some x => Function.update runs number ((runs number).map (·.hear x))
    | none => runs
  | _ => runs

/-- The runs of a task that some turns begin, by the numbers of their commands. -/
def taskRuns (service : Service τ) (id : TaskId) (w : Crew τ) (turns : List (Turn τ)) :
    Nat → Option TaskRun :=
  (turns.foldl (fun (w, runs) turn => ((turn.run service w).2, turn.runs service id w runs))
    (w, fun _ => none)).2

section
variable (service : Service τ) (id : TaskId) (w : Crew τ)

theorem taskRuns_snoc (turns : List (Turn τ)) (turn : Turn τ) :
    taskRuns service id w (turns ++ [turn]) =
      turn.runs service id (runTurns service w turns) (taskRuns service id w turns) := by
  have hfst : ∀ (runs : Nat → Option TaskRun),
      (turns.foldl (fun (w, runs) turn => ((turn.run service w).2, turn.runs service id w runs))
        (w, runs)).1 = runTurns service w turns := by
    induction turns generalizing w with
    | nil => exact fun runs => rfl
    | cons turn turns ih => exact fun runs => ih _ _
  unfold taskRuns
  rw [List.foldl_append, List.foldl_cons, List.foldl_nil]
  exact congrArg (fun w => turn.runs service id w _) (hfst _)

end

end CloudDrive.Session
