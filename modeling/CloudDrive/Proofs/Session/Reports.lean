import CloudDrive.Proofs.Session.Changes
import CloudDrive.Proofs.Session.Held
import CloudDrive.Proofs.Session.Slips
import CloudDrive.Proofs.Session.Turns

/-!
# The reports of tasks

A run of a task is a part of a command: it begins when the task is put into the ledger or taken up
again, and owes a report until it has made one (`Owes`). Runs overlap, tasks are dismissed,
forgotten and run again; still the running tasks are exactly those of the runs that owe a report, as
far as the ledger holds them (`Settled`).

* `standing_eq`: a program owes at most one report, and none after it has reported.
* `settled_run`: one turn keeps the ledger in balance.
* `running_iff_owes`: so it is in every run, whatever the calls are answered and in whatever order.
-/

namespace CloudDrive

/-- The program, which waits, owes the report of a task: it makes exactly one, whatever it hears and
whatever happens to the session meanwhile. -/
def Program.Owes (p : Program Session (Except SessionError Session.Answer)) (id : TaskId) : Prop :=
  ∀ s, p.Heeds Session.taskRules Session.Cleared (.owing id) s

namespace Session

variable {τ : Type}

/-! ## At most one report is owed -/

/-- No notice is shown, and the ledger holds one running task. -/
structure Probes (id : TaskId) (s : Session) : Prop where
  notice : s.notice = none
  tasks : s.ledger.tasks = [Task.start id "" none default]

theorem exists_probes (id : TaskId) : ∃ s, Probes id s :=
  ⟨{ (default : Session) with
      notice := none
      ledger := { (default : Ledger) with tasks := [Task.start id "" none default] } },
    rfl, rfl⟩

section
variable {id : TaskId} {s s' : Session}

theorem Probes.silent (h : Probes id s) (hs : Silent s s') : Probes id s' :=
  ⟨hs.2.trans h.notice, (congrArg Ledger.tasks hs.1).trans h.tasks⟩

theorem Reports.ne_notice {report : Report} (h : Reports id report s s') (hs : s.notice = none) :
    s'.notice ≠ s.notice := by
  obtain ⟨-, message, severity, hnotice, -⟩ := h
  rw [hnotice, hs]
  exact Option.some_ne_none _

/-- A report shows in the ledger if the task is running. -/
theorem Probes.ne_ledger (h : Probes id s) {report : Report} (hr : Reports id report s s') :
    s'.ledger ≠ s.ledger := by
  intro heq
  have hstatus : (s.ledger.report id s.clock report).tasks.map (·.status) ≠ [.running] := by
    unfold Ledger.report Ledger.complete Ledger.fail Ledger.setSummary Ledger.setRetry
    split <;> simp [Ledger.change, Ledger.get?, h.tasks, Task.start, Task.finish, Task.isTerminal]
  rw [← hr.1, heq, h.tasks] at hstatus
  exact hstatus rfl

theorem Probes.ledger_of_ne (h : Probes id s) {other : TaskId} (hne : other ≠ id)
    {report : Report} (hr : Reports other report s s') : s'.ledger = s.ledger := by
  rw [hr.1]
  refine Ledger.report_eq_self ?_ _ _
  simp [Ledger.get?, h.tasks, Task.start, hne.symm]

/-- **What a program owes** is fixed by what it does: one that owes a report has no other standing.
The induction is on the program; whenever it waits, the session may become one in which the first
report of the task shows. -/
theorem standing_eq {p : Program Session (Except SessionError Answer)} {k : Standing}
    (h : Probes id s) (howing : p.Heeds taskRules Cleared (.owing id) s)
    (hk : p.Heeds taskRules Cleared k s) : k = .owing id := by
  induction p generalizing k s with
  | done a => cases howing.1
  | get next ih => exact ih s h howing hk
  | put s' next ih =>
    obtain ⟨k₁, hleads, howing⟩ := howing
    obtain ⟨k₂, hleads', hk⟩ := hk
    cases hleads with
    | silent _ hs =>
      cases hleads' with
      | silent _ _ => exact ih (h.silent hs) howing hk
      | loads _ => cases ih (h.silent hs) howing hk
      | speaks _ => cases ih (h.silent hs) howing hk
      | begins other hfree hb =>
        obtain ⟨-, operation, hstart | hretry⟩ := hb
        · -- a new task has a new number
          have hnext : s'.ledger.nextId = s.ledger.nextId + 1 :=
            congrArg (fun r => r.2.nextId) hstart.symm
          rw [hs.1] at hnext
          exact absurd hnext.symm (Nat.succ_ne_self _)
        · -- the one task has not failed
          obtain ⟨task, htask, -, -, hretryable⟩ :=
            Ledger.exists_of_any_get? (Ledger.any_isRetryable_of_beginRetry hretry)
          rw [h.tasks, List.mem_singleton] at htask
          subst htask
          cases hretryable
      | reports other report hr => exact absurd hs.2 (hr.ne_notice h.notice)
    | begins _ hfree _ => cases hfree
    | reports _ report hr =>
      cases hleads' with
      | silent _ hs => exact absurd hs.2 (hr.ne_notice h.notice)
      | loads hs => exact absurd hs.2 (hr.ne_notice h.notice)
      | speaks hs => exact absurd hs (h.ne_ledger hr)
      | begins other hfree hb => exact absurd hb.1 (hr.ne_notice h.notice)
      | reports other report' hr' =>
        by_cases hne : other = id
        · rw [hne]
        · exact absurd (h.ledger_of_ne hne hr') (h.ne_ledger hr)
  | call c next ih =>
    obtain ⟨s, hs⟩ := exists_probes id
    exact ih (.error ⟨.network, ""⟩) hs (howing.2 _ s) (hk.2 _ s)
  | sleep d next ih =>
    obtain ⟨s, hs⟩ := exists_probes id
    exact ih hs (howing.2 s) (hk.2 s)

end

/-! ## The books are in balance -/

/-- The ledger is in balance with the run of one command and those of the others, none of which is
for the same task. -/
structure Accounts (others : TaskId → Prop) (k : Standing) (s : Session) : Prop where
  balanced : s.ledger.Balanced fun id => others id ∨ k.debt? = some id
  apart : ∀ id, k.debt? = some id → ¬ others id

section
variable {others : TaskId → Prop} {k k' : Standing} {s s' : Session}

/-- A command that owes nothing leaves the accounts to the others. -/
theorem accounts_iff_of_debt? (hk : k.debt? = none) :
    Accounts others k s ↔ s.ledger.Balanced others := by
  have hothers : ∀ id, others id ↔ others id ∨ k.debt? = some id := by
    intro id
    simp [hk]
  constructor
  · exact fun h => h.balanced.congr hothers
  · refine fun h => ⟨h.congr fun id => (hothers id).symm, fun id hid => ?_⟩
    rw [hk] at hid
    cases hid

/-- **Every change** of a command keeps the ledger in balance. -/
theorem Accounts.leads (h : Accounts others k s) (hleads : k.Leads s s' k') :
    Accounts others k' s' := by
  have hsame : ∀ {s' : Session}, s'.ledger = s.ledger → Accounts others k s' :=
    fun heq => ⟨heq.symm ▸ h.balanced, h.apart⟩
  cases hleads with
  | silent _ hs => exact hsame hs.1
  | loads hs => exact (accounts_iff_of_debt? rfl).2 ((accounts_iff_of_debt? rfl).1 (hsame hs.1))
  | speaks hs => exact hsame hs
  | begins id hfree hb =>
    have hbalanced := (accounts_iff_of_debt? (Standing.debt?_of_isFree hfree)).1 h
    have hbegun : s'.ledger.Balanced (fun other => others other ∨ other = id) ∧ ¬ others id := by
      obtain ⟨-, operation, hstart | hretry⟩ := hb
      · have hnew := hbalanced.start operation.description (some operation) s.clock
        rwa [hstart] at hnew
      · exact hbalanced.beginRetry hretry
    exact ⟨hbegun.1.congr fun other => by simp [Standing.debt?, eq_comm],
      fun other ho => Option.some.inj ho ▸ hbegun.2⟩
  | reports id report hr =>
    refine (accounts_iff_of_debt? rfl).2 ?_
    rw [hr.1]
    exact (h.balanced.congr fun other => by simp [Standing.debt?, eq_comm]).report (h.apart id rfl)
      s.clock report

end

/-- Every command on its way keeps to the rules, and the running tasks of the ledger are those whose
report one of them, and only one, owes. -/
structure Settled (w : Crew τ) : Prop where
  heeds : ∀ job ∈ w.jobs, ∃ k, taskRules.waits k ∧ ∀ s, job.rest.Heeds taskRules Cleared k s
  balanced : w.state.ledger.Balanced fun id => ∃ job ∈ w.jobs, job.rest.Owes id
  unique : ∀ job ∈ w.jobs, ∀ other ∈ w.jobs, ∀ id, job.rest.Owes id → other.rest.Owes id →
    job = other

theorem owes_iff {p : Program Session (Except SessionError Answer)} {k : Standing}
    (h : ∀ s, p.Heeds taskRules Cleared k s) (id : TaskId) :
    p.Owes id ↔ k.debt? = some id := by
  constructor
  · intro howes
    obtain ⟨s, hs⟩ := exists_probes id
    rw [standing_eq hs (howes s) (h s)]
    rfl
  · intro hk
    cases k with
    | owing other => exact Option.some.inj hk ▸ h
    | _ => cases hk

section
variable {w : Crew τ}

/-- A command goes on: whatever it does until it waits again or ends, the books stay in balance. -/
theorem settled_resume (service : Service τ) {job : Errand} {k : Standing}
    (hjobs : ∀ job ∈ w.jobs, ∃ k, taskRules.waits k ∧ ∀ s, job.rest.Heeds taskRules Cleared k s)
    (hunique : ∀ job ∈ w.jobs, ∀ other ∈ w.jobs, ∀ id, job.rest.Owes id → other.rest.Owes id →
      job = other)
    (hk : job.rest.Heeds taskRules Cleared k w.state)
    (haccounts : Accounts (fun id => ∃ job ∈ w.jobs, job.rest.Owes id) k w.state) :
    Settled (w.resume service job).2 := by
  obtain ⟨k', haccounts, hends, hwaits⟩ := hk.settle (fun _ _ _ _ hl ha => ha.leads hl) haccounts
  obtain ⟨rest, state, hsettle, ⟨a, ha, hresume⟩ | ⟨hnone, hresume⟩⟩ := w.resume_cases service job
  · rw [hsettle] at haccounts hends
    rw [hresume]
    exact ⟨hjobs, (accounts_iff_of_debt? (hends a ha).1).1 haccounts, hunique⟩
  · rw [hsettle] at haccounts hwaits
    rw [hresume]
    have howes := owes_iff (hwaits hnone).2
    have hapart : ∀ other ∈ w.jobs, ∀ id, other.rest.Owes id → ¬ rest.Owes id :=
      fun other ho id hid hrest => haccounts.apart id ((howes id).1 hrest) ⟨other, ho, hid⟩
    refine ⟨fun other ho => ?_, haccounts.balanced.congr fun id => ?_, fun one h1 two h2 id => ?_⟩
    · rcases List.mem_append.1 ho with ho | ho
      · exact hjobs other ho
      · exact List.mem_singleton.1 ho ▸ ⟨k', hwaits hnone⟩
    · simp [or_and_right, exists_or, howes id]
    · intro howes1 howes2
      rcases List.mem_append.1 h1 with h1 | h1 <;> rcases List.mem_append.1 h2 with h2 | h2
      · exact hunique one h1 two h2 id howes1 howes2
      · rw [List.mem_singleton.1 h2] at howes2
        exact absurd howes2 (hapart one h1 id howes1)
      · rw [List.mem_singleton.1 h1] at howes1
        exact absurd howes1 (hapart two h2 id howes2)
      · rw [List.mem_singleton.1 h1, List.mem_singleton.1 h2]

theorem settled_of (c : Config) (now : Instant) (t : τ) : Settled (Crew.of (start c now) t) := by
  have hjobs : (Crew.of (start c now) t).jobs = [] := rfl
  refine ⟨by simp [hjobs], ?_, by simp [hjobs]⟩
  exact (Ledger.balanced_nil rfl).congr fun id => by simp [hjobs]

theorem settled_begin (h : Settled w) (service : Service τ) (command : Command) :
    Settled ((Turn.ask command).run service w).2 :=
  settled_resume (w := { w with begun := w.begun + 1 }) service h.heeds h.unique
    (heeds_program command w.state) ((accounts_iff_of_debt? rfl).2 h.balanced)

theorem settled_go (h : Settled w) (hn : w.Numbered) (service : Service τ) (number : Nat) :
    Settled ((Turn.go number).run service w).2 := by
  simp only [Turn.run]
  rcases w.go_cases service number with hgo | ⟨job, x, rest, remote, hjob, hx, hgo⟩
  · rwa [hgo]
  · rw [hgo]
    obtain ⟨hmem, hnumber⟩ := Crowd.mem_of_job? hjob
    obtain ⟨k, -, hk⟩ := h.heeds job hmem
    have hsub := w.without_subset number
    refine settled_resume (w := { w with remote, jobs := w.without number }) service
      (fun other ho => h.heeds other (hsub ho))
      (fun one h1 two h2 => h.unique one (hsub h1) two (hsub h2))
      ((hk w.state).hear hx w.state) ⟨h.balanced.congr fun id => ?_, fun id hid => ?_⟩
    · -- the command itself is one of those on their way
      simp only [hn.mem_jobs_iff hjob, or_and_right, exists_or, exists_eq_left, owes_iff hk id]
    · intro hothers
      obtain ⟨other, ho, howes⟩ := hothers
      refine hn.ne_of_mem_without ho (hnumber ▸ congrArg Job.number ?_)
      exact h.unique other (hsub ho) job hmem id howes ((owes_iff hk id).2 hid)

theorem nextId_handle (event : Event) (s : Session) :
    (s.handle event).2.ledger.nextId = s.ledger.nextId := by
  cases he : event.isReset with
  | false => exact (handle_eq s he).2.1
  | true =>
    cases event with
    | reset => rfl
    | _ => cases he

/-- **One turn** keeps the ledger in balance. -/
theorem settled_run (h : Settled w) (hn : w.Numbered) (service : Service τ) (turn : Turn τ) :
    Settled (turn.run service w).2 := by
  cases turn with
  | ask command => exact settled_begin h service command
  | go number => exact settled_go h hn service number
  | act event =>
    exact ⟨h.heeds,
      h.balanced.mono (handle_keeps w.state event).2.2 (nextId_handle event w.state), h.unique⟩
  | tick now => exact ⟨h.heeds, h.balanced, h.unique⟩
  | outside change => exact ⟨h.heeds, h.balanced, h.unique⟩

theorem settled_runTurns (h : Settled w) (hn : w.Numbered) (service : Service τ)
    (turns : List (Turn τ)) : Settled (runTurns service w turns) := by
  induction turns generalizing w with
  | nil => exact h
  | cons turn turns ih => exact ih (settled_run h hn service turn) (numbered_run service hn turn)

/-- **A retry that is refused** was so at once: no call was made, and the ledger is as it was. -/
theorem declined_run (h : Settled w) (service : Service τ) {turn : Turn τ} {errand : Errand}
    (hended : (turn.run service w).1 = some errand)
    (ha : errand.rest = .done (.ok (.retried false))) :
    (∃ command, turn = .ask command) ∧ errand.heard = none ∧
      (turn.run service w).2.remote = w.remote ∧
      (turn.run service w).2.state.ledger = w.state.ledger := by
  cases turn with
  | ask command =>
    obtain ⟨k, hledger, hends, -⟩ := (heeds_program command w.state).settle
      (P := fun k s => k = .fresh → s.ledger = w.state.ledger)
      (fun k s s' k' hl hs hk => by
        subst hk
        obtain ⟨hk, hsilent⟩ := hl.of_fresh
        exact hsilent.1.trans (hs hk)) fun _ => rfl
    simp only [Turn.run, Crowd.begin] at hended ⊢
    obtain ⟨rest, state, hsettle, ⟨a, hrest, hresume⟩ | ⟨-, hresume⟩⟩ :=
      Crowd.resume_cases service { w with begun := w.begun + 1 }
        ⟨w.begun, ⟨command, w.state⟩, none, command.program⟩
    · rw [hresume] at hended ⊢
      cases hended
      rw [hsettle] at hledger hends
      exact ⟨⟨command, rfl⟩, rfl, rfl, hledger ((hends _ ha).2 rfl)⟩
    · rw [hresume] at hended
      cases hended
  | go number =>
    simp only [Turn.run] at hended
    rcases w.go_cases service number with hgo | ⟨job, x, rest, remote, hjob, hx, hgo⟩
    · rw [hgo] at hended
      cases hended
    · -- a command that has waited has begun something
      obtain ⟨k, hwaits, hk⟩ := h.heeds job (Crowd.mem_of_job? hjob).1
      obtain ⟨k', hne, hends, -⟩ := ((hk w.state).hear hx w.state).settle
        (P := fun k _ => taskRules.waits k)
        (fun _ _ _ _ hl hne hk => hne (Standing.Leads.of_fresh (hk ▸ hl)).1) hwaits
      rw [hgo] at hended
      obtain ⟨rest', state, hsettle, ⟨a, hrest, hresume⟩ | ⟨-, hresume⟩⟩ :=
        Crowd.resume_cases service { w with remote, jobs := w.without number }
          { job with heard := some x, rest }
      · rw [hresume] at hended
        cases hended
        rw [hsettle] at hends
        exact absurd ((hends _ ha).2 rfl) hne
      · rw [hresume] at hended
        cases hended
  | _ => cases hended

end

/-- **Running means in flight.** Whatever the calls are answered, and in whatever order: each running
task of the ledger is one whose report exactly one command on its way owes, and no command owes the
report of any other. Each command keeps to the rules, by which it reports once, by one notice, for
each run that it begins, and leaves the ledger alone then; its standing says what it owes. A retry
that is refused makes no call and leaves the ledger alone. -/
theorem running_iff_owes (service : Service τ) (c : Config) (now : Instant) (t : τ)
    (turns : List (Turn τ)) :
    let w := runTurns service (.of (start c now) t) turns
    (∀ task ∈ w.state.ledger.tasks,
      (task.status = .running → ∃! job, job ∈ w.jobs ∧ job.rest.Owes task.id) ∧
        (task.status ≠ .running → ∀ job ∈ w.jobs, ¬ job.rest.Owes task.id)) ∧
    (∀ job ∈ w.jobs, ∃ k, (∀ s, job.rest.Heeds taskRules Cleared k s) ∧
      ∀ id, job.rest.Owes id ↔ k = .owing id) ∧
    (∀ (command : Command) s, command.program.Heeds taskRules Cleared .fresh s) ∧
    ∀ (turn : Turn τ) (errand : Errand), (turn.run service w).1 = some errand →
      errand.rest = .done (.ok (.retried false)) →
      (∃ command, turn = .ask command) ∧ errand.heard = none ∧
        (turn.run service w).2.remote = w.remote ∧
        (turn.run service w).2.state.ledger = w.state.ledger := by
  have hw := settled_runTurns (settled_of c now t) (numbered_of _ t) service turns
  refine ⟨fun task ht => ⟨fun hrunning => ?_, fun hnot job hjob howes => ?_⟩,
    fun job hjob => ?_, heeds_program, fun turn errand => declined_run hw service⟩
  · obtain ⟨job, hjob, howes⟩ := (hw.balanced.running_iff task ht).1 hrunning
    exact ⟨job, ⟨hjob, howes⟩, fun other ho => hw.unique other ho.1 job hjob _ ho.2 howes⟩
  · exact hnot ((hw.balanced.running_iff task ht).2 ⟨job, hjob, howes⟩)
  · obtain ⟨k, -, hk⟩ := hw.heeds job hjob
    refine ⟨k, hk, fun id => (owes_iff hk id).trans ⟨fun hdebt => ?_, fun heq => heq ▸ rfl⟩⟩
    cases k with
    | owing other => exact congrArg _ (Option.some.inj hdebt)
    | _ => cases hdebt

/-- A session that has asked for a directory to be created, and waits for the answer. -/
def pendingCreation : Crew Store :=
  runTurns .ofStore (.of (start {} default) fileStore) [.ask (.createDirectory "b")]

/-- The task of the creation is running, and one command owes its report. -/
theorem running_iff_owes_pendingCreation :
    ∃ task ∈ pendingCreation.state.ledger.tasks, task.status = .running ∧
      ∃! job, job ∈ pendingCreation.jobs ∧ job.rest.Owes task.id := by
  have hrunning : ∃ task ∈ pendingCreation.state.ledger.tasks, task.status = .running := by
    decide
  obtain ⟨task, ht, hrunning⟩ := hrunning
  exact ⟨task, ht, hrunning,
    ((running_iff_owes .ofStore {} default fileStore _).1 task ht).1 hrunning⟩

end Session

end CloudDrive
