import CloudDrive.Proofs.Session.Duty
import CloudDrive.Proofs.Session.Narrowing
import CloudDrive.Proofs.Session.Reports

/-!
# A batch on its way

The runs of a task, its entry in the ledger and the commands on their way are followed turn by turn
(`Batch.Tracks`), while other commands come in between and the store changes in any way.

* `Tracks.resume_open`, `Tracks.resume_closed`, `Tracks.resume_other`: a command goes on, according
to what it has to do with the task.
* `Tracks.run`: one turn. * `Tracks.run_of_success`: one turn when the task has succeeded.
* `Tracks.failed`, `Tracks.lists_refused`: what the task says in the end.
* `Tracks.move_refused`: what a run is about to move, all the runs before it were refused.
-/

namespace CloudDrive

namespace Session

variable {τ : Type}

/-! ## Commands on their way -/

namespace Batch

variable (b : Batch)

/-- The command on its way has nothing to do with the task; or it runs it, and keeps to the course of
the batch. -/
inductive Employed (open? : Option Nat) (runs : Nat → Option TaskRun) (errand : Errand) : Prop
  | other {k : Standing} (hrun : runs errand.number = none) (hk : k.debt? ≠ some b.task)
      (hheeds : ∀ s, errand.rest.Heeds checkedRules Cleared k s)
  | run {run : TaskRun} {items : List String} {reported : Bool}
      (hrun : runs errand.number = some run)
      (hlabel : errand.label.run? = some (b.task, run.operation))
      (hop : run.operation = b.kind.operation items)
      (hopen : open? = some errand.number ↔ reported = false)
      (hpursues : ∀ s, errand.rest.Pursues (batchCourse b.task b.kind (b.paths items))
        (fun k _ => k.reported = true) ⟨run.attempts, reported⟩ s)

/-- The runs of the task so far, the ledger and the commands on their way are as they should be. -/
structure Tracks (open? : Option Nat) (runs : Nat → Option TaskRun) (w : Crew τ) : Prop where
  narrows : b.Narrows runs
  books : b.Books open? runs w.state.ledger
  employed : ∀ errand ∈ w.jobs, b.Employed open? runs errand
  begun : ∀ n, w.begun ≤ n → runs n = none
  newest : ∀ m, open? = some m → ∀ n > m, runs n = none

end Batch

section
variable {id : TaskId} {k k' : Standing} {s s' : Session}

/-- A change that neither ends nor begins a run of the task leaves it alone. -/
theorem Standing.Leads.spares (h : k.Leads s s' k') (hlt : id.number < s.ledger.nextId)
    (hk : k.debt? ≠ some id) (hk' : k'.debt? ≠ some id) : s.ledger.Spares id s'.ledger := by
  have hsame : s'.ledger = s.ledger → s.ledger.Spares id s'.ledger :=
    fun heq => heq ▸ Ledger.Spares.refl id s.ledger
  cases h with
  | silent _ hs => exact hsame hs.1
  | loads hs => exact hsame hs.1
  | speaks hs => exact hsame hs
  | begins other hfree hb =>
    obtain ⟨-, operation, hstart | hretry⟩ := hb
    · have hspares := Ledger.spares_start hlt operation.description (some operation) s.clock
      rwa [hstart] at hspares
    · have hspares := Ledger.spares_beginRetry (l := s.ledger) fun heq : other = id =>
        hk' (congrArg some heq)
      rwa [hretry] at hspares
  | reports other report hr =>
    rw [hr.1]
    exact Ledger.spares_report (fun heq => hk (congrArg some heq)) _ _

/-- After its check, a command begins no run of a task of the past. -/
theorem Standing.Proceeds.spares (h : k.Proceeds s s' k') (hlt : id.number < s.ledger.nextId)
    (hk : k.debt? ≠ some id) : k'.debt? ≠ some id ∧ s.ledger.Spares id s'.ledger := by
  have hk' : k'.debt? ≠ some id := by
    cases h with
    | silent _ _ => exact hk
    | speaks _ => exact hk
    | starts operation _ _ =>
      intro heq
      exact Nat.ne_of_gt hlt (congrArg TaskId.number (Option.some.inj heq))
    | reports _ _ _ => nofun
  exact ⟨hk', h.leads.spares hlt hk hk'⟩

end

namespace Batch

section
variable {b : Batch} {open? : Option Nat} {runs : Nat → Option TaskRun} {w : Crew τ}
  (service : Service τ) {errand : Errand}

theorem Tracks.append (h : b.Tracks open? runs w) {state : Session}
    (hbooks : b.Books open? runs state.ledger) (he : b.Employed open? runs errand) (remote : τ) :
    b.Tracks open? runs { w with state, remote, jobs := w.jobs ++ [errand] } :=
  ⟨h.narrows, hbooks, fun other ho => (List.mem_append.1 ho).elim (h.employed other)
    fun ho => List.mem_singleton.1 ho ▸ he, h.begun, h.newest⟩

variable (errand)

theorem Tracks.resume_other (h : b.Tracks open? runs w) (hrun : runs errand.number = none)
    {k : Standing} (hk : k.debt? ≠ some b.task)
    (hheeds : errand.rest.Heeds checkedRules Cleared k w.state) :
    b.Tracks open? runs (w.resume service errand).2 ∧
      w.state.ledger.Spares b.task (w.resume service errand).2.state.ledger := by
  obtain ⟨k', ⟨hk', hspares⟩, -, hwaits⟩ := hheeds.settle
    (P := fun k s => k.debt? ≠ some b.task ∧ w.state.ledger.Spares b.task s.ledger)
    (fun k s s' k' hp ⟨hk, hs⟩ =>
      have hnext := hp.spares (Nat.lt_of_lt_of_le h.books.lt_nextId hs.nextId_le) hk
      ⟨hnext.1, hs.trans hnext.2⟩) ⟨hk, .refl _ _⟩
  obtain ⟨rest, state, hsettle, ⟨a, -, hresume⟩ | ⟨hnone, hresume⟩⟩ :=
    w.resume_cases service errand
  · rw [hresume]
    rw [hsettle] at hspares
    exact ⟨⟨h.narrows, h.books.spares hspares, h.employed, h.begun, h.newest⟩, hspares⟩
  · rw [hresume]
    rw [hsettle] at hspares hwaits
    have he : b.Employed open? runs { errand with rest } := .other hrun hk' (hwaits hnone).2
    exact ⟨h.append (h.books.spares hspares) he _, hspares⟩

variable {run : TaskRun} {items : List String} (hrun : runs errand.number = some run)
  (hlabel : errand.label.run? = some (b.task, run.operation))
  (hop : run.operation = b.kind.operation items)
include hrun hlabel hop

theorem Tracks.resume_closed (h : b.Tracks open? runs w) (hopen : open? ≠ some errand.number)
    (hp : errand.rest.Pursues (batchCourse b.task b.kind (b.paths items))
      (fun k _ => k.reported = true) ⟨run.attempts, true⟩ w.state) :
    b.Tracks open? runs (w.resume service errand).2 ∧
      (w.resume service errand).2.state.ledger = w.state.ledger := by
  obtain ⟨k', ⟨rfl, hledger⟩, -, hwaits⟩ := hp.settle
    (P := fun k s => k = ⟨run.attempts, true⟩ ∧ s.ledger = w.state.ledger)
    (fun k s s' k' hallows ⟨hk, hs⟩ => by
      obtain ⟨hsilent, rfl⟩ | ⟨hreported, -⟩ := hallows
      · exact ⟨hk, hsilent.1.trans hs⟩
      · rw [hk] at hreported
        cases hreported) ⟨rfl, rfl⟩
  obtain ⟨rest, state, hsettle, ⟨a, -, hresume⟩ | ⟨hnone, hresume⟩⟩ :=
    w.resume_cases service errand
  · rw [hresume]
    rw [hsettle] at hledger
    exact ⟨⟨h.narrows, hledger ▸ h.books, h.employed, h.begun, h.newest⟩, hledger⟩
  · rw [hresume]
    rw [hsettle] at hledger hwaits
    have he : b.Employed open? runs { errand with rest } :=
      .run hrun hlabel hop (iff_of_false hopen Bool.noConfusion) (hwaits hnone).2
    exact ⟨h.append (hledger ▸ h.books) he _, hledger⟩

/-- **The open run** goes on, and may report. -/
theorem Tracks.resume_open (h : b.Tracks (some errand.number) runs w) (hb : b.Named)
    (hothers : ∀ other ∈ w.jobs, other.number ≠ errand.number)
    (hp : errand.rest.Pursues (batchCourse b.task b.kind (b.paths items))
      (fun k _ => k.reported = true) ⟨run.attempts, false⟩ w.state) :
    ∃ open?, b.Tracks open? runs (w.resume service errand).2 := by
  obtain ⟨items', hr⟩ := h.narrows _ _ hrun
  have hnewest := h.newest _ rfl
  obtain ⟨k', ⟨hattempts, hbooks⟩, -, hwaits⟩ := hp.settle
    (P := fun k s => k.attempts = run.attempts ∧
      b.Books (if k.reported then none else some errand.number) runs s.ledger)
    (fun k s s' k' hallows ⟨hk, hs⟩ => by
      obtain ⟨hsilent, rfl⟩ | ⟨hreported, rfl, report, hreport, hverdict⟩ := hallows
      · exact ⟨hk, hsilent.1.symm ▸ hs⟩
      · rw [hreported] at hs
        rw [hk] at hverdict
        refine ⟨hk, ?_⟩
        rw [hreport.1]
        exact hs.report hrun _ hb hnewest hr hverdict) ⟨rfl, h.books⟩
  obtain ⟨attempts, reported⟩ := k'
  obtain rfl : attempts = run.attempts := hattempts
  -- the other runs have reported before
  have hemployed : ∀ other ∈ w.jobs,
      b.Employed (if reported then none else some errand.number) runs other := by
    intro other ho
    cases h.employed other ho with
    | other hrun hk hheeds => exact .other hrun hk hheeds
    | @run run' items'' reported' hrun' hlabel' hop' hopen' hpursues' =>
      have hne : errand.number ≠ other.number := (hothers other ho).symm
      have hreported : reported' ≠ false := fun heq => hne (Option.some.inj (hopen'.2 heq))
      refine .run hrun' hlabel' hop' (iff_of_false (fun heq => ?_) hreported) hpursues'
      split at heq
      · cases heq
      · exact hne (Option.some.inj heq)
  have hnewest' : ∀ m, (if reported then none else some errand.number) = some m → ∀ n > m,
      runs n = none := by
    intro m hm
    split at hm
    · cases hm
    · exact Option.some.inj hm ▸ hnewest
  obtain ⟨rest, state, hsettle, ⟨a, -, hresume⟩ | ⟨hnone, hresume⟩⟩ :=
    w.resume_cases service errand
  · rw [hresume]
    rw [hsettle] at hbooks
    exact ⟨_, h.narrows, hbooks, hemployed, h.begun, hnewest'⟩
  · rw [hresume]
    rw [hsettle] at hbooks hwaits
    refine ⟨if reported then none else some errand.number, h.narrows, hbooks, fun other ho => ?_,
      h.begun, hnewest'⟩
    rcases List.mem_append.1 ho with ho | ho
    · exact hemployed other ho
    · rw [List.mem_singleton.1 ho]
      refine .run hrun hlabel hop ?_ (hwaits hnone).2
      cases reported <;> simp

end

end Batch

/-! ## Turns -/

/-- What was attempted is what the program has waited for. -/
theorem pending?_of_attempt? {σ α : Type} {p rest : Program σ α} {service : Service τ} {t t' : τ}
    {x : Exchange} (hx : p.hear service t = some (x, rest, t')) {a : Attempt}
    (ha : x.attempt? = some a) :
    p.pending? = some (.move a.move.source a.move.destination) := by
  cases p with
  | call c next =>
    cases hx
    cases c with
    | move source destination =>
      cases hr : (service.answer t (.move source destination)).1 <;> rw [hr] at ha <;> cases ha <;>
        rfl
    | _ => cases ha
  | sleep d next =>
    cases hx
    cases ha
  | _ => cases hx

theorem Start.operations_of_run? {start : Start} {id : TaskId} {operation : Operation}
    (h : start.run? = some (id, operation)) : start.operations = [operation] := by
  unfold Start.run? at h
  unfold Start.operations
  split at h
  · next hr => rw [hr]; cases h; rfl
  · next hr => rw [hr]; cases h; rfl
  · cases h

theorem BatchKind.destination_of_issues {kind : BatchKind} {c : Config} {items : List String}
    {source destination : String} (h : (kind.operation items).Issues c (.move source destination)) :
    destination = Path.join (kind.target c) (Path.name source) := by
  cases kind <;> exact h.2

namespace Batch

section
variable {b : Batch} {open? : Option Nat} {runs : Nat → Option TaskRun} {w : Crew τ}

theorem target_of_serves {errand : Errand} (hw : w.Under (duty b.config)) (hmem : errand ∈ w.jobs)
    {operation : Operation} (hlabel : errand.label.run? = some (b.task, operation))
    {items : List String} (hop : operation = b.kind.operation items) {source destination : String}
    (hpending : errand.rest.pending? = some (.move source destination)) :
    destination = Path.join (b.kind.target b.config) (Path.name source) := by
  obtain ⟨_, _, hserves⟩ := hw.did errand hmem
  obtain ⟨path, hlist⟩ | ⟨operation', ho, -, hissues⟩ := hserves _ hpending
  · cases hlist
  · rw [Start.operations_of_run? hlabel, List.mem_singleton] at ho
    rw [ho, hop] at hissues
    exact BatchKind.destination_of_issues hissues

theorem Employed.update {errand : Errand} (h : b.Employed open? runs errand) {m : Nat}
    (hne : errand.number ≠ m) (run : Option TaskRun) :
    b.Employed open? (Function.update runs m run) errand := by
  have heq : Function.update runs m run errand.number = runs errand.number :=
    Function.update_of_ne hne _ _
  cases h with
  | other hrun hk hheeds => exact .other (heq.trans hrun) hk hheeds
  | run hrun hlabel hop hopen hpursues =>
    exact .run (heq.trans hrun) hlabel hop hopen hpursues

theorem exists_of_heard? {service : Service τ} {number : Nat} {x : Exchange}
    (h : heard? service w number = some x) :
    ∃ errand ∈ w.jobs, errand.number = number ∧ w.job? number = some errand ∧
      ∃ rest remote, errand.rest.hear service w.remote = some (x, rest, remote) := by
  obtain ⟨errand, hjob, hx⟩ := Option.bind_eq_some_iff.1 h
  obtain ⟨⟨x', rest, remote⟩, hheard, rfl⟩ := Option.map_eq_some_iff.1 hx
  obtain ⟨hmem, hnumber⟩ := Crowd.mem_of_job? hjob
  exact ⟨errand, hmem, hnumber, hjob, rest, remote, hheard⟩

theorem go_of_heard?_eq_none {service : Service τ} {number : Nat}
    (h : heard? service w number = none) : (w.go service number).2 = w := by
  rcases w.go_cases service number with hgo | ⟨errand, x, rest, remote, hjob, hx, -⟩
  · rw [hgo]
  · simp [heard?, hjob, hx] at h

theorem Tracks.leave (h : b.Tracks open? runs w) (remote : τ) (number : Nat) :
    b.Tracks open? runs { w with remote, jobs := w.without number } :=
  ⟨h.narrows, h.books, fun other ho => h.employed other (w.without_subset _ ho), h.begun, h.newest⟩

theorem Tracks.go_closed (h : b.Tracks open? runs w) (service : Service τ) {number : Nat}
    (hclosed : open? ≠ some number) :
    (Turn.go number).runs service b.task w runs = runs ∧
      b.Tracks open? runs (w.go service number).2 ∧
      w.state.ledger.Spares b.task (w.go service number).2.state.ledger := by
  cases hheard : heard? service w number with
  | none =>
    rw [go_of_heard?_eq_none hheard]
    exact ⟨by simp only [Turn.runs, hheard], h, .refl _ _⟩
  | some x =>
    obtain ⟨errand, hmem, rfl, hjob, rest, remote, hx⟩ := exists_of_heard? hheard
    have hleft := h.leave remote errand.number
    rw [Crowd.go_of_hear hjob hx]
    simp only [Turn.runs, hheard]
    cases h.employed errand hmem with
    | other hrun hk hheeds =>
      rw [hrun, Option.map_none, Function.update_eq_self_iff.2 hrun.symm]
      exact ⟨rfl, hleft.resume_other service { errand with heard := some x, rest } hrun hk
        ((hheeds w.state).hear hx w.state)⟩
    | @run run items reported hrun hlabel hop hopen hpursues =>
      obtain rfl : reported = true := by
        cases reported
        · exact absurd (hopen.2 rfl) hclosed
        · rfl
      -- a run that has reported attempts nothing
      have hnone : x.attempt? = none := by
        cases ha : x.attempt? with
        | none => rfl
        | some a =>
          have hasks := (hpursues w.state).asks (pending?_of_attempt? hx ha)
          cases (hasks _ _ rfl).1
      have hsame : run.hear x = run := by simp [TaskRun.hear, hnone]
      have hp := (hpursues w.state).hear hx w.state
      rw [hears_of_none hnone] at hp
      rw [hrun, Option.map_some, hsame, Function.update_eq_self_iff.2 hrun.symm]
      obtain ⟨htracks, hledger⟩ := hleft.resume_closed service
        { errand with heard := some x, rest } hrun hlabel hop hclosed hp
      exact ⟨rfl, htracks, hledger ▸ .refl _ _⟩

theorem Tracks.go_open (h : b.Tracks (some errand.number) runs w) (hb : b.Named)
    (hw : w.Under (duty b.config)) (hn : w.Numbered) (service : Service τ)
    (hmem : errand ∈ w.jobs) (hjob : w.job? errand.number = some errand) {x : Exchange}
    {rest : Program Session (Except SessionError Answer)} {remote : τ}
    (hx : errand.rest.hear service w.remote = some (x, rest, remote)) {run : TaskRun}
    {items : List String} (hrun : runs errand.number = some run)
    (hlabel : errand.label.run? = some (b.task, run.operation))
    (hop : run.operation = b.kind.operation items)
    (hpursues : ∀ s, errand.rest.Pursues (batchCourse b.task b.kind (b.paths items))
      (fun k _ => k.reported = true) ⟨run.attempts, false⟩ s) :
    ∃ open?, b.Tracks open? (Function.update runs errand.number (some (run.hear x)))
      (w.go service errand.number).2 := by
  have hleft := h.leave remote errand.number
  have hnewest := h.newest _ rfl
  have hothers : ∀ other ∈ w.without errand.number, other.number ≠ errand.number :=
    fun other ho => hn.ne_of_mem_without ho
  have horder : (Attempt.sources (run.hear x).attempts).Sublist
      (MovePlan.distinct (b.paths items)) := by
    cases ha : x.attempt? with
    | none =>
      obtain ⟨items', hr⟩ := h.narrows _ _ hrun
      obtain rfl := b.kind.operation_injective (hr.operation.symm.trans hop)
      have hsame : run.hear x = run := by simp [TaskRun.hear, ha]
      rw [hsame]
      exact hr.order
    | some a =>
      have hasks := (hpursues w.state).asks (pending?_of_attempt? hx ha)
      have hmore := (hasks _ _ rfl).2
      simpa [TaskRun.hear, ha, Attempt.sources] using hmore
  have htarget : ∀ a ∈ x.attempt?,
      a.move = .intoDirectory a.move.source (b.kind.target b.config) := by
    intro a ha
    have hd := target_of_serves hw hmem hlabel hop (pending?_of_attempt? hx ha)
    rw [MoveRequest.intoDirectory, ← hd]
  have hupdated : b.Tracks (some errand.number)
      (Function.update runs errand.number (some (run.hear x)))
      { w with remote, jobs := w.without errand.number } := by
    refine ⟨h.narrows.hear hnewest hrun hop horder htarget, h.books.update _,
      fun other ho => (hleft.employed other ho).update (hothers other ho) _, fun n hge => ?_,
      fun m hm n hlt => ?_⟩
    · refine (Function.update_of_ne (fun heq => ?_) _ _).trans (h.begun n hge)
      have hnone := h.begun n hge
      rw [heq, hrun] at hnone
      cases hnone
    · obtain rfl := Option.some.inj hm
      exact (Function.update_of_ne (Nat.ne_of_gt hlt) _ _).trans (hnewest n hlt)
  rw [Crowd.go_of_hear hjob hx]
  exact hupdated.resume_open service _ (Function.update_self _ _ _) hlabel hop hb hothers
    ((hpursues w.state).hear hx w.state)

/-- **A command has heard something** and goes on. -/
theorem Tracks.go (h : b.Tracks open? runs w) (hb : b.Named) (hw : w.Under (duty b.config))
    (hn : w.Numbered) (service : Service τ) (number : Nat) :
    ∃ open?, b.Tracks open? ((Turn.go number).runs service b.task w runs)
      (w.go service number).2 := by
  by_cases hopen : open? = some number
  · cases hheard : heard? service w number with
    | none =>
      rw [go_of_heard?_eq_none hheard]
      exact ⟨open?, by simpa only [Turn.runs, hheard] using h⟩
    | some x =>
      obtain ⟨errand, hmem, rfl, hjob, rest, remote, hx⟩ := exists_of_heard? hheard
      simp only [Turn.runs, hheard]
      cases h.employed errand hmem with
      | other hrun hk hheeds =>
        rw [hrun, Option.map_none, Function.update_eq_self_iff.2 hrun.symm,
          Crowd.go_of_hear hjob hx]
        exact ⟨open?, ((h.leave remote _).resume_other service
          { errand with heard := some x, rest } hrun hk ((hheeds w.state).hear hx w.state)).1⟩
      | @run run items reported hrun hlabel hop hopen' hpursues =>
        obtain rfl := hopen'.1 hopen
        rw [hrun, Option.map_some]
        exact (hopen ▸ h).go_open hb hw hn service hmem hjob hx hrun hlabel hop hpursues
  · obtain ⟨hruns, htracks, -⟩ := h.go_closed service hopen
    rw [hruns]
    exact ⟨open?, htracks⟩

end

end Batch

/-- The work of a command, once it is checked. -/
def checkedProgram : Except SessionError Request → Program Session (Except SessionError Answer)
  | .error e => .done (.error e)
  | .ok request => request.program

theorem run_ask (service : Service τ) (w : Crew τ) (command : Command) :
    (Turn.ask command).run service w =
      Crowd.resume service
        { w with state := (accept command w.state).2, begun := w.begun + 1 }
        ⟨w.begun, ⟨command, w.state⟩, none, checkedProgram (accept command w.state).1⟩ := by
  have hprogram : command.program = modifyGet (accept command) >>= checkedProgram := rfl
  simp only [Turn.run, Crowd.begin, hprogram]
  rfl

/-- Only a retry runs a task again, and it has taken the task up then. -/
theorem beginRetry_of_accept {command : Command} {s : Session} {id : TaskId} {operation : Operation}
    (h : (accept command s).1 = .ok (.rerun id operation)) :
    s.ledger.beginRetry id = (some operation, (accept command s).2.ledger) := by
  have hruling := ruling_accept command s
  generalize accept command s = checked at h hruling ⊢
  cases hruling with
  | retried id operation hb =>
    cases h
    exact Prod.ext hb rfl
  | _ => cases h

namespace Batch

section
variable {b : Batch} {open? : Option Nat} {runs : Nat → Option TaskRun} {w : Crew τ}

theorem pursues_work {items : List String} {s : Session} (hs : s.config = b.config)
    (answer : Except SessionError Answer) :
    (work b.task (b.kind.operation items) >>= fun _ => pure answer).Pursues
      (batchCourse b.task b.kind (b.paths items)) (fun k _ => k.reported = true) {} s := by
  have hwork : work b.task (b.kind.operation items) = workBatch b.task items b.kind := by
    cases b.kind <;> rfl
  rw [hwork, paths, ← hs]
  exact (pursues_workBatch b.task items b.kind s).bind fun _ _ _ hk => hk

/-- A new task has a new number, so that what runs the task again is a retry. -/
theorem Tracks.rerun_of_run? (h : b.Tracks open? runs w) {command : Command}
    {operation : Operation} (hrun : Start.run? ⟨command, w.state⟩ = some (b.task, operation)) :
    (accept command w.state).1 = .ok (.rerun b.task operation) := by
  unfold Start.run? at hrun
  split at hrun
  · have hlt := h.books.lt_nextId
    rw [← (Prod.mk.inj (Option.some.inj hrun)).1] at hlt
    exact absurd hlt (Nat.lt_irrefl _)
  · next id operation' hr =>
    obtain ⟨rfl, rfl⟩ := Prod.mk.inj (Option.some.inj hrun)
    exact hr
  · cases hrun

theorem Tracks.ask_other (h : b.Tracks open? runs w) (service : Service τ) {command : Command}
    (hother : ∀ operation, Start.run? ⟨command, w.state⟩ ≠ some (b.task, operation)) :
    (Turn.ask command).runs service b.task w runs = runs ∧
      b.Tracks open? runs ((Turn.ask command).run service w).2 ∧
      w.state.ledger.Spares b.task ((Turn.ask command).run service w).2.state.ledger := by
  have hruns : (Turn.ask command).runs service b.task w runs = runs := by
    simp only [Turn.runs]
    split
    · next other operation hrun =>
      refine if_neg fun heq => hother operation ?_
      rw [hrun, heq]
    · rfl
  have hgoes : ∀ {s : Session} {k : Standing} {p : Program Session (Except SessionError Answer)},
      w.state.ledger.Spares b.task s.ledger → k.debt? ≠ some b.task →
      p.Heeds checkedRules Cleared k s →
      let w' := (Crowd.resume service { w with state := s, begun := w.begun + 1 }
        ⟨w.begun, ⟨command, w.state⟩, none, p⟩).2
      b.Tracks open? runs w' ∧ w.state.ledger.Spares b.task w'.state.ledger := by
    intro s k p hspares hk hp
    have hstate : b.Tracks open? runs { w with state := s, begun := w.begun + 1 } :=
      ⟨h.narrows, h.books.spares hspares, h.employed,
        fun n hn => h.begun n (Nat.le_of_succ_le hn), h.newest⟩
    have hnew : runs w.begun = none := h.begun _ (Nat.le_refl _)
    exact (hstate.resume_other service ⟨w.begun, _, _, p⟩ hnew hk hp).imp_right hspares.trans
  refine ⟨hruns, ?_⟩
  rw [run_ask]
  cases hr : (accept command w.state).1 with
  | error e =>
    have hspares : w.state.ledger.Spares b.task (accept command w.state).2.ledger := by
      rw [(silent_accept_error hr).1]
      exact .refl _ _
    have hcleared : (checkedProgram (.error e)).Heeds checkedRules Cleared .fresh
        (accept command w.state).2 := cleared_of_ne rfl (by simp)
    exact hgoes (k := .fresh) hspares nofun hcleared
  | ok request =>
    -- the check may take up another task, and leaves this one alone
    have hdebt : request.standing.debt? ≠ some b.task := by
      intro hdebt
      cases request with
      | rerun id operation =>
        refine hother operation ?_
        rw [← Option.some.inj hdebt]
        simp only [Start.run?, hr]
      | _ => cases hdebt
    have hspares := (leads_accept hr).spares h.books.lt_nextId nofun hdebt
    exact hgoes hspares hdebt (heeds_checked request _)

theorem Tracks.begin (hb : b.Named) (hnarrows : b.Narrows runs) {state : Session}
    (hbooks : b.Books (some w.begun) runs state.ledger) (hconfig : state.config = b.config)
    (hemployed : ∀ errand ∈ w.jobs, b.Employed none runs errand) (hn : w.Numbered)
    (hbegun : ∀ n, w.begun ≤ n → runs n = none) {items : List String}
    (hitems : items.Sublist b.sources)
    (hleft : ∀ n run, runs n = some run → run.attempts ≠ [] →
      b.paths items ⊆ Attempt.left run.attempts) (service : Service τ) {label : Start}
    (hlabel : label.run? = some (b.task, b.kind.operation items))
    (answer : Except SessionError Answer) :
    ∃ open?, b.Tracks open?
      (Function.update runs w.begun (some ⟨b.kind.operation items, []⟩))
      (Crowd.resume service { w with state, begun := w.begun + 1 }
        ⟨w.begun, label, none,
          work b.task (b.kind.operation items) >>= fun _ => pure answer⟩).2 := by
  have hne : ∀ n, w.begun + 1 ≤ n → n ≠ w.begun := fun n hn => Nat.ne_of_gt hn
  have htracks : b.Tracks (some w.begun)
      (Function.update runs w.begun (some ⟨b.kind.operation items, []⟩))
      { w with state, begun := w.begun + 1 } := by
    refine ⟨hnarrows.begin hbegun hitems hleft, hbooks.update _, fun errand he => ?_,
      fun n hn => ?_, fun m hm n hlt => ?_⟩
    · have hnumber := Nat.ne_of_lt (hn.lt_begun errand he)
      refine Employed.update ?_ hnumber _
      cases hemployed errand he with
      | other hrun hk hheeds => exact .other hrun hk hheeds
      | @run run items' reported hrun hlabel' hop hopen hpursues =>
        refine .run hrun hlabel' hop (iff_of_false (fun heq => ?_) fun heq => ?_) hpursues
        · exact hnumber (Option.some.inj heq).symm
        · cases hopen.2 heq
    · exact (Function.update_of_ne (hne n hn) _ _).trans (hbegun n (Nat.le_of_succ_le hn))
    · obtain rfl := Option.some.inj hm
      exact (Function.update_of_ne (hne n hlt) _ _).trans (hbegun n (Nat.le_of_lt hlt))
  have hothers : ∀ other ∈ w.jobs, other.number ≠ w.begun := fun other ho =>
    Nat.ne_of_lt (hn.lt_begun other ho)
  have hrun : Function.update runs w.begun (some ⟨b.kind.operation items, []⟩) w.begun =
      some ⟨b.kind.operation items, []⟩ := Function.update_self _ _ _
  exact htracks.resume_open service ⟨w.begun, label, none, _⟩ hrun hlabel rfl hb hothers
    (pursues_work hconfig answer)

/-- **A command is asked.** -/
theorem Tracks.ask (h : b.Tracks open? runs w) (hb : b.Named) (hw : w.Under (duty b.config))
    (hn : w.Numbered) (service : Service τ) (command : Command) :
    ∃ open?, b.Tracks open? ((Turn.ask command).runs service b.task w runs)
      ((Turn.ask command).run service w).2 := by
  by_cases hrun : ∃ operation, Start.run? ⟨command, w.state⟩ = some (b.task, operation)
  · obtain ⟨operation, hrun⟩ := hrun
    have hr := h.rerun_of_run? hrun
    have hretry := beginRetry_of_accept hr
    -- while a run is open the task cannot be taken up
    have hnone : open? = none := by
      by_contra hopen
      obtain ⟨task, ht, hid, -, hretryable⟩ :=
        Ledger.exists_of_any_get? (Ledger.any_isRetryable_of_beginRetry hretry)
      simp [Task.isRetryable, h.books.running hopen task ht hid] at hretryable
    subst hnone
    obtain ⟨items, rfl, hitems, hleft, hbooks⟩ :=
      h.books.beginRetry (h.begun _ (Nat.le_refl _)) hretry
    have hconfig : (accept command w.state).2.config = b.config :=
      (accept_keeps command w.state).1.trans hw.holds.config
    have hruns : (Turn.ask command).runs service b.task w runs =
        Function.update runs w.begun (some ⟨b.kind.operation items, []⟩) := by
      simp only [Turn.runs, hrun, if_pos]
    rw [hruns, run_ask, hr]
    exact Tracks.begin hb h.narrows hbooks hconfig h.employed hn h.begun hitems hleft service hrun
      (.ok (.retried true))
  · push Not at hrun
    obtain ⟨hruns, htracks, -⟩ := h.ask_other service hrun
    rw [hruns]
    exact ⟨open?, htracks⟩

theorem Tracks.act (h : b.Tracks open? runs w) (event : Event) :
    b.Tracks open? runs { w with state := (w.state.handle event).2 } ∧
      w.state.ledger.Spares b.task (w.state.handle event).2.ledger := by
  have hspares : w.state.ledger.Spares b.task (w.state.handle event).2.ledger :=
    ⟨Nat.le_of_eq (nextId_handle event w.state).symm,
      fun task ht _ => (handle_keeps w.state event).2.2 ht⟩
  exact ⟨⟨h.narrows, h.books.spares hspares, h.employed, h.begun, h.newest⟩, hspares⟩

/-- **A task that has succeeded** is run no more. -/
theorem Tracks.run_of_success (h : b.Tracks none runs w)
    (hdone : ∀ task ∈ w.state.ledger.tasks, task.id = b.task → task.status = .success)
    (service : Service τ) (turn : Turn τ) :
    turn.runs service b.task w runs = runs ∧ b.Tracks none runs (turn.run service w).2 ∧
      ∀ task ∈ (turn.run service w).2.state.ledger.tasks, task.id = b.task →
        task.status = .success := by
  have hkept : ∀ {w' : Crew τ}, turn.runs service b.task w runs = runs ∧ b.Tracks none runs w' ∧
      w.state.ledger.Spares b.task w'.state.ledger →
      turn.runs service b.task w runs = runs ∧ b.Tracks none runs w' ∧
        ∀ task ∈ w'.state.ledger.tasks, task.id = b.task → task.status = .success := by
    rintro w' ⟨hruns, htracks, hspares⟩
    exact ⟨hruns, htracks, fun task ht hid => hdone task (hspares.mem task ht hid) hid⟩
  cases turn with
  | ask command =>
    refine hkept (h.ask_other service fun operation hrun => ?_)
    -- a retry would need a task that has failed
    have hretry := beginRetry_of_accept (h.rerun_of_run? hrun)
    obtain ⟨task, ht, hid, -, hretryable⟩ :=
      Ledger.exists_of_any_get? (Ledger.any_isRetryable_of_beginRetry hretry)
    simp [Task.isRetryable, hdone task ht hid] at hretryable
  | go number => exact hkept (h.go_closed service (Option.some_ne_none number).symm)
  | act event => exact hkept ⟨rfl, h.act event⟩
  | tick now => exact ⟨rfl, ⟨h.narrows, h.books, h.employed, h.begun, h.newest⟩, hdone⟩
  | outside change => exact ⟨rfl, ⟨h.narrows, h.books, h.employed, h.begun, h.newest⟩, hdone⟩

/-- **One turn.** -/
theorem Tracks.run (h : b.Tracks open? runs w) (hb : b.Named) (hw : w.Under (duty b.config))
    (hn : w.Numbered) (service : Service τ) (turn : Turn τ) :
    ∃ open?, b.Tracks open? (turn.runs service b.task w runs) (turn.run service w).2 := by
  cases turn with
  | ask command => exact h.ask hb hw hn service command
  | go number => exact h.go hb hw hn service number
  | act event => exact ⟨open?, (h.act event).1⟩
  | tick now => exact ⟨open?, h.narrows, h.books, h.employed, h.begun, h.newest⟩
  | outside change => exact ⟨open?, h.narrows, h.books, h.employed, h.begun, h.newest⟩

/-- If the last run was refused something, the task has failed when it has ended. -/
theorem Tracks.failed (h : b.Tracks open? runs w) {task : Task} (ht : task ∈ w.state.ledger.tasks)
    (hid : task.id = b.task) (hstatus : task.status ≠ .running) {n : Nat} {run : TaskRun}
    (hrun : runs n = some run) (hlast : ∀ m > n, runs m = none)
    (hleft : Attempt.left run.attempts ≠ []) : task.status = .failed := by
  obtain ⟨items, hremains⟩ := h.books.remains task ht hid
  refine hremains.failed ?_ n run hrun hlast hleft
  by_contra hopen
  exact hstatus (h.books.running hopen task ht hid)

/-- A task that has failed lists what the last run was refused that has attempted anything. -/
theorem Tracks.lists_refused (h : b.Tracks open? runs w) {task : Task}
    (ht : task ∈ w.state.ledger.tasks) (hid : task.id = b.task) (hfailed : task.status = .failed)
    {n : Nat} {run : TaskRun} (hrun : runs n = some run) (hne : run.attempts ≠ [])
    (hlast : ∀ m > n, ∀ later, runs m = some later → later.attempts = []) :
    ∃ items, task.retry = some (b.kind.operation items) ∧ items.Sublist b.sources ∧
      b.paths items = Attempt.left run.attempts := by
  obtain ⟨items, hremains⟩ := h.books.remains task ht hid
  have hclosed : open? = none := by
    by_contra hopen
    rw [h.books.running hopen task ht hid] at hfailed
    cases hfailed
  subst hclosed
  refine ⟨items, hremains.retry, hremains.sublist, ?_⟩
  exact hremains.exact (by rw [hfailed]; nofun) n run hrun nofun hne
    fun m hm later hlater => .inr (hlast m hm later hlater)

/-- **What a run is about to move** was refused in every run before it that attempted anything, and
accepted in none. -/
theorem Tracks.move_refused (h : b.Tracks open? runs w) (hw : w.Under (duty b.config))
    {errand : Errand} (hmem : errand ∈ w.jobs) {run : TaskRun}
    (hrun : runs errand.number = some run) {source destination : String}
    (hpending : errand.rest.pending? = some (.move source destination)) {n : Nat}
    (hn : n < errand.number) {earlier : TaskRun} (hearlier : runs n = some earlier)
    (hne : earlier.attempts ≠ []) :
    ⟨source, destination⟩ ∈ Attempt.refused earlier.attempts ∧
      ⟨source, destination⟩ ∉ Attempt.accepted earlier.attempts := by
  cases h.employed errand hmem with
  | other hnone =>
    rw [hrun] at hnone
    cases hnone
  | @run run' items reported hrun' hlabel hop hopen hpursues =>
    obtain ⟨items', hr⟩ := h.narrows _ _ hrun'
    obtain rfl := b.kind.operation_injective (hr.operation.symm.trans hop)
    obtain ⟨-, hsublist⟩ := (hpursues w.state).asks hpending _ _ rfl
    have hsource : source ∈ b.paths items' := (MovePlan.distinct_sublist _).subset
      (hsublist.subset (List.mem_append_right _ List.mem_cons_self))
    obtain ⟨m, hm, rfl⟩ := List.mem_map.1 (hr.refused n hn earlier hearlier hne hsource)
    -- both runs move into the same directory
    obtain ⟨earlierItems, hrearlier⟩ := h.narrows n earlier hearlier
    obtain ⟨a, ha, ham⟩ := List.mem_map.1 hm
    have htarget : m = .intoDirectory m.source (b.kind.target b.config) :=
      ham ▸ hrearlier.target a (List.mem_filter.1 ha).1
    have hmove : m = ⟨m.source, destination⟩ :=
      htarget.trans (congrArg (MoveRequest.mk m.source)
        (target_of_serves hw hmem hlabel hop hpending).symm)
    rw [← hmove]
    exact ⟨hm, Attempt.not_mem_accepted hrearlier.nodup_sources hm⟩

end

end Batch

end Session

end CloudDrive
