import CloudDrive.Flight
import CloudDrive.Remote.Moves

/-!
# Runs of programs

A program runs on a port (`Port`), which answers its calls and may be anything with a state of its
own; the store is one (`Port.ofStore`).

* `finish_eq_runOn`: to finish a program is to run it on the store.
* `runOn_bind` and the lemmas beside it: a run goes through a program step by step.
* `Quiet.runOn_eq`: a program that neither reads nor writes the state runs as if there were none.
-/

namespace CloudDrive

open Remote (Call Failure)

/-- Whatever answers calls. -/
structure Port (τ : Type) where
  answer : τ → (c : Call) → c.Reply × τ

/-- The store notes a call and answers it. -/
def Port.ofStore : Port Store := ⟨fun s c => (s.record c).answer c⟩

variable {σ τ α β : Type}

/-- A program run to its end on a port: its result, the state and the port afterwards. -/
def Program.runOn (port : Port τ) : Program σ α → σ → τ → α × σ × τ
  | .done a, s, t => (a, s, t)
  | .get next, s, t => (next s).runOn port s t
  | .put s next, _, t => next.runOn port s t
  | .call c next, s, t => (next (port.answer t c).1).runOn port s (port.answer t c).2
  | .sleep _ next, s, t => next.runOn port s t

namespace Program

theorem finish_eq_runOn (p : Program σ α) (w : World σ) :
    (p.finish w).1 = (p.runOn .ofStore w.state w.store).1 ∧
      (p.finish w).2.state = (p.runOn .ofStore w.state w.store).2.1 ∧
      (p.finish w).2.store = (p.runOn .ofStore w.state w.store).2.2 := by
  induction p generalizing w with
  | done a => exact ⟨rfl, rfl, rfl⟩
  | get next ih => exact ih w.state w
  | put s next ih => exact ih { w with state := s }
  | call c next ih => exact ih _ { w with store := ((w.store.record c).answer c).2 }
  | sleep d next ih => exact ih { w with slept := w.slept + d.toNat }

section
variable (port : Port τ) (s : σ) (t : τ)

@[simp] theorem runOn_done (a : α) : (done a : Program σ α).runOn port s t = (a, s, t) := rfl

@[simp] theorem runOn_bind' (p : Program σ α) (f : α → Program σ β) :
    (p.bind f).runOn port s t =
      (f (p.runOn port s t).1).runOn port (p.runOn port s t).2.1 (p.runOn port s t).2.2 := by
  induction p generalizing s t with
  | done a => rfl
  | get next ih => exact ih s s t
  | put s' next ih => exact ih s' t
  | call c next ih => exact ih _ s _
  | sleep d next ih => exact ih s t

theorem runOn_bind (p : Program σ α) (f : α → Program σ β) :
    (p >>= f).runOn port s t =
      (f (p.runOn port s t).1).runOn port (p.runOn port s t).2.1 (p.runOn port s t).2.2 :=
  runOn_bind' port s t p f

@[simp] theorem runOn_get : (MonadState.get : Program σ σ).runOn port s t = (s, s, t) := rfl

@[simp] theorem runOn_modifyGet (f : σ → α × σ) :
    (modifyGet f : Program σ α).runOn port s t = ((f s).1, (f s).2, t) := rfl

@[simp] theorem runOn_modify (f : σ → σ) :
    (modify f : Program σ Unit).runOn port s t = (⟨⟩, f s, t) := rfl

theorem runOn_request_bind (c : Call) (f : c.Reply → Program σ β) :
    (request c >>= f).runOn port s t =
      (f (port.answer t c).1).runOn port s (port.answer t c).2 := rfl

end

/-! ## Programs that leave the state alone -/

/-- The program neither reads nor writes the state. -/
inductive Quiet : Program σ α → Prop where
  | done (a : α) : Quiet (.done a)
  | call (c : Call) (next : c.Reply → Program σ α) (h : ∀ r, Quiet (next r)) :
      Quiet (.call c next)
  | sleep (d : UInt64) (next : Program σ α) (h : Quiet next) : Quiet (.sleep d next)

theorem Quiet.bind {p : Program σ α} (hp : p.Quiet) {f : α → Program σ β} (hf : ∀ a, (f a).Quiet) :
    (p >>= f).Quiet := by
  induction hp with
  | done a => exact hf a
  | call c next _ ih => exact .call c _ ih
  | sleep d next _ ih => exact .sleep d _ ih

theorem quiet_request (c : Call) : (request c : Program σ c.Reply).Quiet := .call c _ .done

/-- The state plays no part in the run of a quiet program. -/
theorem Quiet.runOn_eq {p : Program σ α} (hp : p.Quiet) (port : Port τ) (s s' : σ) (t : τ) :
    p.runOn port s t = ((p.runOn port s' t).1, s, (p.runOn port s' t).2.2) := by
  induction hp generalizing t with
  | done a => rfl
  | call c next _ ih => exact ih _ _
  | sleep d next _ ih => exact ih t

theorem Quiet.state_runOn {p : Program σ α} (hp : p.Quiet) (port : Port τ) (s : σ) (t : τ) :
    (p.runOn port s t).2.1 = s := by
  rw [hp.runOn_eq port s s t]

end Program

/-! ## Listings, plans and moves are quiet -/

theorem Remote.quiet_list (path : String) (policy : RetryPolicy) :
    (Remote.list path policy : Program σ _).Quiet := by
  have hfrom : ∀ (left : Nat) (attempt : UInt32),
      (Remote.listFrom path policy attempt left : Program σ _).Quiet := by
    intro left
    induction left with
    | zero => exact fun _ => .call _ _ .done
    | succ left ih =>
      intro attempt
      refine .call _ _ fun r => ?_
      cases r with
      | ok listing => exact .done _
      | error f =>
        show Program.Quiet (if f.isRetryable then _ else _)
        split
        · exact .sleep _ _ (ih _)
        · exact .done _
  exact hfrom _ _

theorem MovePlan.quiet_prepare (policy : RetryPolicy) (sources : List String)
    (destination : String) : (MovePlan.prepare policy sources destination : Program σ _).Quiet :=
  (Remote.quiet_list destination policy).bind fun r => by cases r <;> exact .done _

theorem Trash.quiet_ensure (c : Config) : (Trash.ensure c : Program σ _).Quiet :=
  (Program.quiet_request _).bind fun r => by cases r <;> exact .done _

theorem Trash.quiet_prepareTrash (c : Config) (policy : RetryPolicy) (sources : List String) :
    (Trash.prepareTrash c policy sources : Program σ _).Quiet :=
  (Trash.quiet_ensure c).bind fun r => by
    cases r with
    | ok _ => exact MovePlan.quiet_prepare _ _ _
    | error f => exact .done _

theorem BatchOutcome.quiet_run (moves : List MoveRequest) (o : BatchOutcome) :
    (o.run moves : Program σ _).Quiet := by
  induction moves generalizing o with
  | nil => exact .done _
  | cons m moves ih => exact (Program.quiet_request _).bind fun r => ih _

theorem BatchOutcome.quiet_ofPlan (plan : MovePlan) :
    (BatchOutcome.ofPlan plan : Program σ _).Quiet :=
  (BatchOutcome.quiet_run _ _).bind fun _ => .done _

end CloudDrive
