import CloudDrive.Proofs.Crowd

/-!
# What a batch asks, and what it reports

A batch is run on a port that answers as it likes. What a program hears on such a run (`heardOn`)
tells which calls it has made and for how long it has waited.

* `run_tries`: the moves are tried one after another, each once, whatever becomes of those before.
* `foldl_add`: what the replies add up to.
* `accounts_ofPlan`: the report of a plan.
-/

namespace CloudDrive

open Remote (Call Failure)

variable {σ τ : Type}

/-! ## Moves that were tried -/

/-- A move that was asked for, and what was answered. -/
abbrev Tried := MoveRequest × Except Failure Unit

namespace Tried

/-- The call that was made, and its reply. -/
def exchange (x : Tried) : Exchange := .reply (.move x.1.source x.1.destination) x.2

/-- Was the move accepted? -/
def isAccepted (x : Tried) : Bool := x.2.isOk

/-- What is reported of a move that was refused. -/
def failure? : Tried → Option MoveFailure
  | (_, .ok _) => none
  | (m, .error f) => some ⟨m.source, f.reason⟩

section
variable (m : MoveRequest) (u : Unit) (f : Failure)

@[simp] theorem isAccepted_ok : isAccepted (m, .ok u) = true := rfl

@[simp] theorem isAccepted_error : isAccepted (m, .error f) = false := rfl

@[simp] theorem failure?_ok : failure? (m, .ok u) = none := rfl

@[simp] theorem failure?_error : failure? (m, .error f) = some ⟨m.source, f.reason⟩ := rfl

end

/-- A move was accepted, or there is something to report. -/
theorem countP_add_length (tried : List Tried) :
    tried.countP isAccepted + (tried.filterMap failure?).length = tried.length := by
  induction tried with
  | nil => rfl
  | cons x tried ih =>
    obtain ⟨m, f | u⟩ := x
    · simp only [List.countP_cons, List.filterMap_cons, isAccepted_error, failure?_error,
        Bool.false_eq_true, if_false, List.length_cons]
      omega
    · simp only [List.countP_cons, List.filterMap_cons, isAccepted_ok, failure?_ok, if_true,
        List.length_cons]
      omega

end Tried

namespace BatchOutcome

/-- **What the replies add up to**: the accepted moves are counted, and the refused ones reported in
their order. -/
theorem foldl_add (tried : List Tried) (o : BatchOutcome) :
    tried.foldl (fun o x => o.add x.1 x.2) o =
      { o with
        successCount := o.successCount + tried.countP Tried.isAccepted
        failures := o.failures ++ tried.filterMap Tried.failure? } := by
  induction tried generalizing o with
  | nil => simp
  | cons x tried ih =>
    obtain ⟨m, f | u⟩ := x
    · rw [List.foldl_cons, ih]
      simp [add]
    · rw [List.foldl_cons, ih]
      simp [add, List.countP_cons, List.filterMap_cons, Nat.add_assoc, Nat.add_comm 1]

section
variable (port : Port τ)

/-- **The moves are tried one after another**, each once: nothing else is asked, no time is let
pass, and what was answered before makes no difference. -/
theorem run_tries (moves : List MoveRequest) (o : BatchOutcome) (s : σ) (t : τ) :
    ∃ tried : List Tried, tried.map Prod.fst = moves ∧
      (o.run moves).heardOn port s t = tried.map Tried.exchange ∧
      ((o.run moves).runOn port s t).1 = tried.foldl (fun o x => o.add x.1 x.2) o := by
  induction moves generalizing o t with
  | nil => exact ⟨[], rfl, rfl, rfl⟩
  | cons m moves ih =>
    let c : Call := .move m.source m.destination
    obtain ⟨tried, hmoves, hheard, hrun⟩ := ih (o.add m (port.answer t c).1) (port.answer t c).2
    refine ⟨(m, (port.answer t c).1) :: tried, congrArg (List.cons m) hmoves, ?_, hrun⟩
    rw [run, Program.heardOn_request_bind, hheard]
    rfl

/-- **The report of a plan.** Whatever the port answers, each move of the plan is asked for exactly
once, in order, and nothing else is. The failures are the refused moves in order, each with the
reason that was given; accepted and refused moves add up to those of the plan; and the skipped ones
are its conflicts. -/
theorem accounts_ofPlan (plan : MovePlan) (s : σ) (t : τ) :
    ∃ tried : List Tried, tried.map Prod.fst = plan.moves ∧
      (ofPlan plan).heardOn port s t = tried.map Tried.exchange ∧
      let o := ((ofPlan plan).runOn port s t).1
      o.successCount = tried.countP Tried.isAccepted ∧
      o.failures = tried.filterMap Tried.failure? ∧
      o.successCount + o.failures.length = o.total ∧ o.total = plan.moves.length ∧
      o.conflicts = plan.conflicts.length := by
  obtain ⟨tried, hmoves, hheard, hrun⟩ :=
    run_tries port plan.moves { total := plan.moves.length } s t
  have hlength : tried.length = plan.moves.length := by rw [← hmoves, List.length_map]
  have ho : ((ofPlan plan).runOn port s t).1 =
      { successCount := tried.countP Tried.isAccepted
        failures := tried.filterMap Tried.failure?
        total := plan.moves.length
        conflicts := plan.conflicts.length } := by
    rw [ofPlan, Program.runOn_bind, ofMoves, hrun, foldl_add]
    simp
  refine ⟨tried, hmoves, ?_, ?_⟩
  · rw [ofPlan, Program.heardOn_bind, ofMoves, hheard]
    exact List.append_nil _
  · rw [ho]
    exact ⟨rfl, rfl, (Tried.countP_add_length tried).trans hlength, rfl, rfl⟩

end

end BatchOutcome

end CloudDrive
