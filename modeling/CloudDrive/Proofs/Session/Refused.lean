import CloudDrive.Proofs.Session.Accepted
import CloudDrive.Proofs.Session.Turns

/-!
# Commands that are refused

A command is refused by its check or not at all: once it has been accepted, it ends with an answer,
or because a directory could not be loaded.

* `Program.Yields`: what the results of a program have in common, whatever it hears and whatever
  states it finds.
* `accept_of_error`: a check that refuses a command changes nothing; a drop that waited for the
  user's consent may be spent.
* `yields_runTurns`: no command that is on its way will be refused.
* `refused_does_nothing`: so a refusal leaves everything as it was.
-/

namespace CloudDrive

variable {σ τ ι α β : Type}

/-! ## Results of programs -/

namespace Program

/-- Every result that the program may bring, whatever it hears and whatever states it finds, has the
property. -/
def Yields (P : α → Prop) : Program σ α → Prop
  | .done a => P a
  | .get next => ∀ s, (next s).Yields P
  | .put _ next => next.Yields P
  | .call _ next => ∀ r, (next r).Yields P
  | .sleep _ next => next.Yields P

variable {P : α → Prop}

/-- What comes last decides about the result. -/
theorem yields_bind (p : Program σ β) {f : β → Program σ α} (hf : ∀ b, (f b).Yields P) :
    (p >>= f).Yields P := by
  induction p with
  | done b => exact hf b
  | get next ih => exact ih
  | put s next ih => exact ih
  | call c next ih => exact ih
  | sleep d next ih => exact ih

theorem Yields.settle {p : Program σ α} (h : p.Yields P) (s : σ) : (p.settle s).1.Yields P := by
  induction p generalizing s with
  | get next ih => exact ih s (h s) s
  | put s' next ih => exact ih h s'
  | _ => exact h

theorem Yields.hear {p rest : Program σ α} {service : Service τ} {t t' : τ} {x : Exchange}
    (h : p.Yields P) (hx : p.hear service t = some (x, rest, t')) : rest.Yields P := by
  cases p with
  | call c next =>
    cases hx
    exact h _
  | sleep d next =>
    cases hx
    exact h
  | _ => cases hx

end Program

/-- A job that is resumed brings such a result or goes on to do so. -/
theorem Crowd.yields_resume {P : α → Prop} (service : Service τ) (w : Crowd σ τ ι α)
    (job : Job σ ι α) (hw : ∀ other ∈ w.jobs, other.rest.Yields P) (h : job.rest.Yields P) :
    (∀ other ∈ (w.resume service job).2.jobs, other.rest.Yields P) ∧
      ∀ ended ∈ (w.resume service job).1, ended.rest.Yields P := by
  have hrest := h.settle w.state
  obtain ⟨rest, state, hsettle, ⟨a, -, hresume⟩ | ⟨-, hresume⟩⟩ := w.resume_cases service job
  · rw [hsettle] at hrest
    rw [hresume]
    refine ⟨hw, fun ended he => ?_⟩
    obtain rfl := Option.some.inj he
    exact hrest
  · rw [hsettle] at hrest
    rw [hresume]
    refine ⟨fun other ho => ?_, fun ended he => by cases he⟩
    rcases List.mem_append.1 ho with ho | ho
    · exact hw other ho
    · rw [List.mem_singleton.1 ho]
      exact hrest

/-! ## Answers and refusals -/

/-- Could a directory not be loaded? -/
def SessionError.isTransport : SessionError → Bool
  | .transport _ _ => true
  | _ => false

namespace Session

/-- The command was not refused: it has an answer, or a directory could not be loaded. -/
def IsHeard : Except SessionError Answer → Prop
  | .ok _ => True
  | .error e => e.isTransport = true

/-- **Work that was accepted** is not refused. -/
theorem yields_request (request : Request) : request.program.Yields IsHeard := by
  cases request with
  | load path =>
    unfold Request.program load
    simp only [bind_assoc]
    refine Program.yields_bind _ fun generation => Program.yields_bind _ fun r => ?_
    cases r with
    | ok listing => exact fun _ => trivial
    | error f => exact fun _ => rfl
  | perform operation => exact Program.yields_bind _ fun _ => trivial
  | performAll operations => exact Program.yields_bind _ fun _ => trivial
  | rerun id operation => exact Program.yields_bind _ fun _ => trivial
  | nothing answer => exact trivial

/-- **The check of a command** that refuses it changes nothing, except that the drop that waited for
consent is spent. -/
theorem accept_of_error {command : Command} {s : Session} {e : SessionError}
    (h : (accept command s).1 = .error e) :
    (accept command s).2 = s ∨
      command = .confirmMove ∧ (accept command s).2 = { s with pendingDrop := none } := by
  have hruling := ruling_accept command s
  generalize accept command s = checked at h hruling ⊢
  cases hruling with
  | refused => exact .inl rfl
  | dropRefused => exact .inr ⟨rfl, rfl⟩
  | _ => cases h

/-! ## Commands that overlap -/

section
variable (service : Service τ) {w : Crew τ}

theorem run_ask_of_error {command : Command} {e : SessionError}
    (h : (accept command w.state).1 = .error e) :
    (Turn.ask command).run service w =
      (some ⟨w.begun, ⟨command, w.state⟩, none, .done (.error e)⟩,
        { w with state := (accept command w.state).2, begun := w.begun + 1 }) := by
  rw [Turn.run]
  unfold Crowd.begin Command.program
  rw [Crowd.resume_modifyGet, h]
  rfl

theorem run_ask_of_ok {command : Command} {request : Request}
    (h : (accept command w.state).1 = .ok request) :
    (Turn.ask command).run service w =
      Crowd.resume service { w with state := (accept command w.state).2, begun := w.begun + 1 }
        ⟨w.begun, ⟨command, w.state⟩, none, request.program⟩ := by
  rw [Turn.run]
  unfold Crowd.begin Command.program
  rw [Crowd.resume_modifyGet, h]

/-- A turn leaves no command waiting that will be refused, and only a command that is asked in it is
refused. -/
theorem yields_run (hw : ∀ job ∈ w.jobs, job.rest.Yields IsHeard) (turn : Turn τ) :
    (∀ job ∈ (turn.run service w).2.jobs, job.rest.Yields IsHeard) ∧
      ∀ ended ∈ (turn.run service w).1, ended.rest.Yields IsHeard ∨
        ∃ command e, turn = .ask command ∧ (accept command w.state).1 = .error e := by
  cases turn with
  | ask command =>
    cases hr : (accept command w.state).1 with
    | error e =>
      refine ⟨?_, fun _ _ => .inr ⟨command, e, rfl, hr⟩⟩
      rw [run_ask_of_error service hr]
      exact hw
    | ok request =>
      rw [run_ask_of_ok service hr]
      have hresume := Crowd.yields_resume service
        { w with state := (accept command w.state).2, begun := w.begun + 1 }
        ⟨w.begun, ⟨command, w.state⟩, none, request.program⟩ hw (yields_request request)
      exact ⟨hresume.1, fun ended he => .inl (hresume.2 ended he)⟩
  | go number =>
    rw [Turn.run]
    rcases w.go_cases service number with hgo | ⟨job, x, rest, remote, hjob, hx, hgo⟩
    · rw [hgo]
      exact ⟨hw, fun ended he => by cases he⟩
    · rw [hgo]
      have hrest : rest.Yields IsHeard := (hw job (Crowd.mem_of_job? hjob).1).hear hx
      have hresume := Crowd.yields_resume service { w with remote, jobs := w.without number }
        { job with heard := some x, rest }
        (fun other ho => hw other (w.without_subset number ho)) hrest
      exact ⟨hresume.1, fun ended he => .inl (hresume.2 ended he)⟩
  | _ => exact ⟨hw, fun ended he => by cases he⟩

/-- **No command that is on its way** will be refused. -/
theorem yields_runTurns (hw : ∀ job ∈ w.jobs, job.rest.Yields IsHeard) (turns : List (Turn τ)) :
    ∀ job ∈ (runTurns service w turns).jobs, job.rest.Yields IsHeard := by
  induction turns generalizing w with
  | nil => exact hw
  | cons turn turns ih => exact ih (yields_run service hw turn).1

end

theorem dismissTask_of_error {s : Session} {id : TaskId} {e : SessionError}
    (h : (s.dismissTask id).1 = .error e) : (s.dismissTask id).2 = s := by
  unfold dismissTask Ledger.dismiss at h ⊢
  by_cases hfound : (s.ledger.get? id).isSome = true
  · simp [hfound] at h
  · simp [hfound]

/-- **A refused command does nothing.** Commands overlap in any way, on any service, from any
session on. If a turn ends a command that is refused, then the command was asked in that very turn;
no call has been made, and nothing is on its way that was not before; and the session is as it was,
but for a drop that waited for consent, which the command to carry it out may have spent. A refused
dismissal changes nothing either. -/
theorem refused_does_nothing (service : Service τ) (s₀ : Session) (t₀ : τ)
    (turns : List (Turn τ)) :
    let w := runTurns service (Crew.of s₀ t₀) turns
    (∀ (turn : Turn τ) (job : Errand) (e : SessionError), (turn.run service w).1 = some job →
      job.rest = .done (.error e) → e.isTransport = false →
        ∃ command state, turn = .ask command ∧ job.label = ⟨command, w.state⟩ ∧
          (turn.run service w).2 = { w with state, begun := w.begun + 1 } ∧
          (state = w.state ∨
            command = .confirmMove ∧ state = { w.state with pendingDrop := none })) ∧
    ∀ id e, (w.state.dismissTask id).1 = .error e → (w.state.dismissTask id).2 = w.state := by
  intro w
  refine ⟨fun turn job e hended hrest he => ?_, fun id e => dismissTask_of_error⟩
  have hjobs : ∀ job ∈ w.jobs, job.rest.Yields IsHeard :=
    yields_runTurns service (by rintro _ ⟨⟩) turns
  rcases (yields_run service hjobs turn).2 job hended with hheard | ⟨command, e', rfl, hr⟩
  · rw [hrest] at hheard
    exact absurd (he.symm.trans hheard) Bool.false_ne_true
  · rw [run_ask_of_error service hr] at hended ⊢
    obtain rfl := Option.some.inj hended
    exact ⟨command, _, rfl, rfl, rfl, accept_of_error hr⟩

/-- A fresh session refuses to restore what is not in the trash, and to dismiss a task that it does
not have. -/
theorem refused_does_nothing_outsideTrash :
    let s := start {} default
    let w : Crew Store := .of s (.ofCatalog .empty default)
    (∃ job, ((Turn.ask .restore).run .ofStore w).1 = some job ∧
      job.rest = .done (.error .notInTrash)) ∧
    ((Turn.ask .restore).run .ofStore w).2 = { w with begun := 1 } ∧
    (s.dismissTask ⟨7⟩).1 = .error (.unknownTask ⟨7⟩) ∧ (s.dismissTask ⟨7⟩).2 = s := by
  intro s w
  have hr : (accept .restore s).1 = .error .notInTrash := by decide
  have hdismiss : (s.dismissTask ⟨7⟩).1 = .error (.unknownTask ⟨7⟩) := rfl
  have hrun := run_ask_of_error .ofStore (w := w) hr
  obtain ⟨hcommand, htask⟩ := refused_does_nothing .ofStore s (.ofCatalog .empty default) []
  obtain ⟨command, state, hturn, -, hw, hstate⟩ :=
    hcommand (.ask .restore) _ .notInTrash (congrArg Prod.fst hrun) rfl rfl
  obtain rfl := Turn.ask.inj hturn
  refine ⟨⟨_, congrArg Prod.fst hrun, rfl⟩, ?_, hdismiss, htask _ _ hdismiss⟩
  rcases hstate with rfl | ⟨hconfirm, -⟩
  · exact hw
  · cases hconfirm

end Session

end CloudDrive
