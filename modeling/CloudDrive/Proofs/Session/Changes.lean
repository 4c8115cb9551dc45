import CloudDrive.Proofs.Ledger
import CloudDrive.Proofs.Rules
import CloudDrive.Proofs.Session.Accepted
import CloudDrive.Proofs.Session.Batch

/-!
# The changes that commands make

Every change that a command makes to its session is of one of a few kinds (`Standing.Leads`): it
leaves ledger and notice alone, it begins the run of a task, or it reports what the run has come to.
The kinds follow one another as the standing of the command says, whatever the calls are answered
and whatever happens to the session in between.

* `heeds_work`: the work for a task that owes its report makes it once, and touches nothing but
  selection, focus, cache, ledger and notice (`SameView`).
* `heeds_checked`: what a command does after its check (`Standing.Proceeds`).
* `heeds_program`: every command.
-/

namespace CloudDrive

open Remote (Failure)

namespace Session

/-! ## Kinds of change -/

/-- Neither ledger nor notice changes. -/
def Silent (s s' : Session) : Prop := s'.ledger = s.ledger ∧ s'.notice = s.notice

/-- The run of a task begins: of a new one, or of one that has failed and is run again. -/
def Begins (id : TaskId) (s s' : Session) : Prop :=
  s'.notice = s.notice ∧ ∃ operation : Operation,
    s.ledger.start operation.description (some operation) s.clock = (id, s'.ledger) ∨
    s.ledger.beginRetry id = (some operation, s'.ledger)

/-- The run of a task reports, to the ledger and by a notice, which is an error exactly if the
report is a failure. -/
def Reports (id : TaskId) (report : Report) (s s' : Session) : Prop :=
  s'.ledger = s.ledger.report id s.clock report ∧
    ∃ message severity, s'.notice = some ⟨message, severity, s.clock⟩ ∧
      (severity = .error ↔ report.isFailure = true)

/-- What a command has done for tasks so far. -/
inductive Standing where
  /-- It has begun no run, and may still begin one. -/
  | fresh
  /-- It loads a directory, and begins no run. -/
  | loading
  /-- It has begun the run of a task, which has not reported. -/
  | owing (id : TaskId)
  /-- Every run that it has begun has reported. -/
  | settled
  deriving DecidableEq

namespace Standing

/-- The task whose run has not reported. -/
def debt? : Standing → Option TaskId
  | .owing id => some id
  | _ => none

/-- May a run begin? -/
def isFree : Standing → Bool
  | .fresh | .settled => true
  | _ => false

/-- The changes that a command of this standing may make, and its standing then. -/
inductive Leads : Standing → Session → Session → Standing → Prop
  | silent (k : Standing) {s s' : Session} (h : Silent s s') : Leads k s s' k
  | loads {s s' : Session} (h : Silent s s') : Leads fresh s s' loading
  /-- A load may show a notice that belongs to no task. -/
  | speaks {s s' : Session} (h : s'.ledger = s.ledger) : Leads loading s s' loading
  | begins {k : Standing} (id : TaskId) {s s' : Session} (hk : k.isFree = true)
      (h : Begins id s s') : Leads k s s' (owing id)
  | reports (id : TaskId) (report : Report) {s s' : Session} (h : Reports id report s s') :
      Leads (owing id) s s' settled

/-- The changes that a command of this standing may make after its check. It takes up no run that was
begun before: only the check of a retry does that. -/
inductive Proceeds : Standing → Session → Session → Standing → Prop
  | silent (k : Standing) {s s' : Session} (h : Silent s s') : Proceeds k s s' k
  | speaks {s s' : Session} (h : s'.ledger = s.ledger) : Proceeds loading s s' loading
  | starts {k : Standing} (operation : Operation) (s : Session) (hk : k.isFree = true) :
      Proceeds k s (s.beginTask operation).2 (owing (s.beginTask operation).1)
  | reports (id : TaskId) (report : Report) {s s' : Session} (h : Reports id report s s') :
      Proceeds (owing id) s s' settled

theorem Proceeds.leads {k k' : Standing} {s s' : Session} (h : k.Proceeds s s' k') :
    k.Leads s s' k' := by
  cases h with
  | silent _ hs => exact .silent k hs
  | speaks hs => exact .speaks hs
  | starts operation _ hk => exact .begins _ hk ⟨rfl, operation, .inl rfl⟩
  | reports id report hr => exact .reports id report hr

/-- A command that has begun nothing has changed nothing. -/
theorem Leads.of_fresh {k : Standing} {s s' : Session} (h : Leads k s s' fresh) :
    k = fresh ∧ Silent s s' := by
  cases h with
  | silent _ hs => exact ⟨rfl, hs⟩

theorem debt?_of_isFree {k : Standing} (h : k.isFree = true) : k.debt? = none := by
  cases k with
  | owing id => cases h
  | _ => rfl

end Standing

/-- A command may make the changes of its standing, and waits only for a run or a load. -/
def taskRules : Rules Session Standing := ⟨Standing.Leads, (· ≠ .fresh)⟩

/-- The same rules for what a command does after its check. -/
def checkedRules : Rules Session Standing := ⟨Standing.Proceeds, (· ≠ .fresh)⟩

/-- A command may end once nothing is owed. That a task was not run again it says only if it has
begun nothing. -/
def Cleared (k : Standing) (a : Except SessionError Answer) : Prop :=
  k.debt? = none ∧ (a = .ok (.retried false) → k = .fresh)

theorem cleared_of_ne {k : Standing} {a : Except SessionError Answer} (hk : k.debt? = none)
    (ha : a ≠ .ok (.retried false)) : Cleared k a := ⟨hk, fun h => absurd h ha⟩

/-- The same directory is shown in the same way; only selection, focus, cache, ledger and notice may
differ. -/
def SameView (s s' : Session) : Prop :=
  s' = { s with
    selection := s'.selection
    focused := s'.focused
    cache := s'.cache
    ledger := s'.ledger
    notice := s'.notice }

/-- The changes that work may make. -/
def Works (k : Standing) (s s' : Session) (k' : Standing) : Prop :=
  SameView s s' ∧ k.Proceeds s s' k'

/-- Work may make its changes, and waits only for a run. -/
def workRules : Rules Session Standing := ⟨Works, (· ≠ .fresh)⟩

section
variable {s s' : Session}

theorem works_silent {k : Standing} (hview : SameView s s') (hl : s'.ledger = s.ledger)
    (hn : s'.notice = s.notice) : Works k s s' k := ⟨hview, .silent k ⟨hl, hn⟩⟩

theorem reports_success {id : TaskId} (summary : Option String) {message : String}
    {severity : Severity} (hl : s'.ledger = s.ledger.complete id summary s.clock)
    (hn : s'.notice = some ⟨message, severity, s.clock⟩) (hs : severity ≠ .error) :
    Reports id (.success summary) s s' :=
  ⟨hl, message, severity, hn, iff_of_false hs nofun⟩

theorem reports_failure {id : TaskId} (reason : String) (rest : Option (String × Operation))
    {message : String} (hl : s'.ledger = s.ledger.report id s.clock (.failure reason rest))
    (hn : s'.notice = some ⟨message, .error, s.clock⟩) : Reports id (.failure reason rest) s s' :=
  ⟨hl, message, .error, hn, iff_of_true rfl rfl⟩

theorem works_reports {id : TaskId} {report : Report} (hview : SameView s s')
    (h : Reports id report s s') : Works (.owing id) s s' .settled := ⟨hview, .reports id report h⟩

end

section
variable (k : Standing) (s : Session)

theorem works_prune : Works k s s.prune k := works_silent rfl rfl rfl

theorem works_beginPatch (patch : Cache.Patch) : Works k s (s.beginPatch patch).2 k :=
  works_silent rfl rfl rfl

theorem works_commit (snapshot : Cache.Snapshot) : Works k s (s.commit snapshot).2 k :=
  works_silent rfl rfl rfl

theorem works_refetched (r : Except Failure Listing) : Works k s (refetched r s) k := by
  cases r <;> exact works_silent rfl rfl rfl

end

section
variable (id : TaskId) (label : String) (snapshot : Cache.Snapshot) (s : Session)

theorem reports_fail (reason : String) :
    Reports id (.failure reason none) s (fail id label reason s) := reports_failure _ _ rfl rfl

theorem works_fail (reason : String) : Works (.owing id) s (fail id label reason s) .settled :=
  works_reports rfl (reports_fail id label s reason)

theorem works_succeed : Works (.owing id) s (succeed id label s) .settled :=
  works_reports rfl (reports_success none rfl rfl nofun)

theorem reports_allSkipped (plan : MovePlan) :
    ∃ summary, Reports id (.success summary) s (allSkipped id label plan s) :=
  ⟨_, reports_success _ rfl rfl nofun⟩

theorem works_allSkipped (plan : MovePlan) :
    Works (.owing id) s (allSkipped id label plan s) .settled := by
  obtain ⟨_, h⟩ := reports_allSkipped id label s plan
  exact works_reports rfl h

theorem reports_batchDone (outcome : BatchOutcome) :
    ∃ summary, Reports id (.success summary) s (batchDone id label outcome snapshot s).2 := by
  refine ⟨_, reports_success _ rfl rfl fun hseverity => ?_⟩
  split at hseverity <;> cases hseverity

theorem works_batchDone (outcome : BatchOutcome) :
    Works (.owing id) s (batchDone id label outcome snapshot s).2 .settled := by
  obtain ⟨_, h⟩ := reports_batchDone id label snapshot s outcome
  exact works_reports rfl h

theorem reports_batchRefused (kind : BatchKind) (outcome : BatchOutcome) :
    Reports id
      (.failure outcome.failureMessage (some (outcome.summary, kind.retry outcome.failedSources)))
      s (batchRefused id label kind outcome snapshot s) :=
  reports_failure _ _ rfl rfl

theorem works_batchRefused (kind : BatchKind) (outcome : BatchOutcome) :
    Works (.owing id) s (batchRefused id label kind outcome snapshot s) .settled :=
  works_reports rfl (reports_batchRefused id label snapshot s kind outcome)

theorem works_deleteDone (report : Remote.DeleteReport) :
    Works (.owing id) s (deleteDone id report snapshot s).2 .settled :=
  works_reports rfl (reports_success _ rfl rfl nofun)

theorem works_deleteRefused (report : Remote.DeleteReport) :
    Works (.owing id) s (deleteRefused id label report snapshot s) .settled :=
  works_reports rfl (reports_failure _ (some (_, _)) rfl rfl)

theorem works_deleteFailed (reason : String) :
    Works (.owing id) s (fail id label reason (s.rollback snapshot).prune) .settled :=
  works_reports rfl (reports_failure reason none rfl rfl)

theorem works_renameRefused (reason : String) :
    Works (.owing id) s (fail id label reason (s.rollback snapshot)) .settled :=
  works_reports rfl (reports_failure reason none rfl rfl)

end

/-! ## Work -/

theorem waits_owing (id : TaskId) : workRules.waits (.owing id) := nofun

theorem waits_settled : workRules.waits .settled := nofun

theorem waits_loading : checkedRules.waits .loading := nofun

theorem heeds_reconcile (keys : List String) (s : Session) :
    (reconcile keys).Heeds workRules (fun k _ => k = .settled) .settled s := by
  have hrefetch : ∀ s, (refetch keys).Heeds workRules (fun k _ => k = .settled) .settled s := by
    induction keys with
    | nil => exact fun s => rfl
    | cons key keys ih =>
      unfold refetch
      refine Program.heeds_get_bind fun s s' => ?_
      show Program.Heeds workRules _ (if s.cache.contains key then _ else _) _ s'
      split
      · unfold fetch
        rw [bind_assoc]
        refine Program.heeds_get_bind (fun s s' => ?_) s'
        refine (Remote.quiet_list key s.config.readRetry).heeds_bind waits_settled
          (fun r s => ?_) s'
        exact (Program.heeds_modify (works_refetched _ · r) s).bind_at fun _ => ih
      · exact ih s'
  exact (hrefetch s).bind_at fun _ => Program.heeds_modify (works_prune _)

section
variable (id : TaskId)

/-- **A batch** reports once. -/
theorem heeds_workBatch (sources : List String) (kind : BatchKind) (s : Session) :
    (workBatch id sources kind).Heeds workRules (fun k _ => k = .settled) (.owing id) s := by
  unfold workBatch
  refine Program.heeds_get_bind (fun s s' => ?_) s
  refine (quiet_prepare kind s.config sources).heeds_bind (waits_owing id) (fun r s' => ?_) s'
  cases r with
  | error f => exact Program.heeds_modify (works_fail id _ · f.reason) s'
  | ok plan =>
    show Program.Heeds workRules _ (if plan.isEmpty then _ else _) _ s'
    split
    · exact Program.heeds_modify (works_allSkipped id _ · plan) s'
    · refine Program.heeds_modifyGet_bind (works_beginPatch _ · _) (fun snapshot s => ?_) s'
      refine (BatchOutcome.quiet_ofPlan plan).heeds_bind (waits_owing id) (fun outcome s => ?_) s
      show Program.Heeds workRules _ (if outcome.isSuccess then _ else _) _ s
      split
      · exact Program.heeds_modifyGet_bind (works_batchDone id _ snapshot · outcome)
          heeds_reconcile s
      · refine (Program.heeds_modify (works_batchRefused id _ snapshot · kind outcome) s).bind_at
          fun _ s => ?_
        split
        · exact heeds_reconcile _ s
        · exact rfl

/-- **A deletion** reports once. -/
theorem heeds_workDelete (paths : List String) (s : Session) :
    (workDelete id paths).Heeds workRules (fun k _ => k = .settled) (.owing id) s := by
  unfold workDelete
  refine Program.heeds_get_bind (fun s s' => ?_) s
  refine Program.heeds_modifyGet_bind (works_beginPatch _ · _) (fun snapshot s => ?_) s'
  refine (Program.quiet_request _).heeds_bind (waits_owing id) (fun r s => ?_) s
  cases r with
  | error f => exact Program.heeds_modify (works_deleteFailed id _ snapshot · f.reason) s
  | ok report =>
    show Program.Heeds workRules _ (if report.isComplete then _ else _) _ s
    split
    · exact Program.heeds_modifyGet_bind (works_deleteDone id snapshot · report)
        heeds_reconcile s
    · refine (Program.heeds_modify (works_deleteRefused id _ snapshot · report) s).bind_at
        fun _ s => ?_
      split
      · exact Program.heeds_modify (works_prune _) s
      · exact heeds_reconcile _ s

theorem heeds_workInsert (call : Remote.Call) (directory : String) (s : Session) :
    (workInsert id call directory).Heeds workRules (fun k _ => k = .settled) (.owing id) s := by
  unfold workInsert
  refine Program.heeds_get_bind (fun s s' => ?_) s
  refine (Program.quiet_request _).heeds_bind (waits_owing id) (fun r s => ?_) s'
  cases r with
  | ok _ =>
    exact (Program.heeds_modify (works_succeed id _) s).bind_at fun _ => heeds_reconcile _
  | error f => exact Program.heeds_modify (works_fail id _ · f.reason) s

theorem heeds_workRename (path newName : String) (s : Session) :
    (workRename id path newName).Heeds workRules (fun k _ => k = .settled) (.owing id) s := by
  unfold workRename
  refine Program.heeds_get_bind (fun s s' => ?_) s
  refine Program.heeds_modifyGet_bind (works_beginPatch _ · _) (fun snapshot s => ?_) s'
  refine (Program.quiet_request _).heeds_bind (waits_owing id) (fun r s => ?_) s
  cases r with
  | ok _ =>
    refine Program.heeds_modifyGet_bind (works_commit _ · snapshot) (fun keys s => ?_) s
    exact (Program.heeds_modify (works_succeed id _) s).bind_at fun _ => heeds_reconcile _
  | error f => exact Program.heeds_modify (works_renameRefused id _ snapshot · f.reason) s

/-- **The work for a task** reports once. -/
theorem heeds_work (operation : Operation) (s : Session) :
    (work id operation).Heeds workRules (fun k _ => k = .settled) (.owing id) s := by
  cases operation with
  | moveEntries sources destination => exact heeds_workBatch id sources (.directory destination) s
  | moveToTrash sources => exact heeds_workBatch id sources .trash s
  | restoreFromTrash names => exact heeds_workBatch id names .restore s
  | deleteEntries paths => exact heeds_workDelete id paths s
  | createDirectory parent name =>
    rw [work_createDirectory]
    exact heeds_workInsert id _ parent s
  | rename path newName => exact heeds_workRename id path newName s
  | upload file directory =>
    rw [work_upload]
    exact heeds_workInsert id _ directory s

end

/-! ## Commands -/

theorem heeds_perform (operation : Operation) {k : Standing} (hk : k.isFree = true) (s : Session) :
    (perform operation).Heeds workRules (fun k _ => k = .settled) k s := by
  refine ⟨.owing (s.beginTask operation).1, ⟨rfl, .starts operation s hk⟩, ?_⟩
  exact (heeds_work _ operation _).bind fun _ _ _ hk => hk

theorem heeds_performAll (operations : List Operation) {k : Standing} (hk : k.isFree = true)
    (s : Session) : (performAll operations).Heeds workRules (fun k _ => k.debt? = none) k s := by
  induction operations generalizing k s with
  | nil => exact Standing.debt?_of_isFree hk
  | cons operation operations ih =>
    exact (heeds_perform operation hk s).bind_at fun id s => (ih rfl s).bind fun _ _ _ hk => hk

/-- The standing of a command after its check. -/
def Request.standing : Request → Standing
  | .load _ => .loading
  | .rerun id _ => .owing id
  | _ => .fresh

/-- **What a command does after its check**, unless it loads a directory. -/
theorem heeds_request {request : Request} (hload : ∀ path, request ≠ .load path) (s : Session) :
    request.program.Heeds workRules Cleared request.standing s := by
  cases request with
  | load path => exact absurd rfl (hload path)
  | perform operation =>
    exact (heeds_perform operation rfl s).bind_at fun _ _ => cleared_of_ne rfl (by simp)
  | performAll operations =>
    exact (heeds_performAll operations rfl s).bind fun _ _ _ hk => cleared_of_ne hk (by simp)
  | rerun id operation =>
    exact (heeds_work id operation s).bind_at fun _ _ => cleared_of_ne rfl (by simp)
  | nothing answer => exact ⟨rfl, fun _ => rfl⟩

theorem silent_loaded (generation : Nat) (listing : Listing) (s : Session) :
    Silent s (loaded generation listing s) := by
  unfold loaded
  simp only
  split <;> exact ⟨rfl, rfl⟩

theorem ledger_loadFailed (generation : Nat) (path : String) (f : Failure) (s : Session) :
    (loadFailed generation path f s).ledger = s.ledger := by
  unfold loadFailed
  split <;> rfl

theorem heeds_load (path : String) (s : Session) :
    (Request.load path).program.Heeds checkedRules Cleared .loading s := by
  have hbegins : ∀ s : Session, Standing.Proceeds .loading s s.beginLoad.2 .loading :=
    fun _ => .silent _ ⟨rfl, rfl⟩
  simp only [Request.program, load, fetch, bind_assoc]
  refine Program.heeds_modifyGet_bind hbegins (fun generation s => ?_) s
  refine Program.heeds_get_bind (fun s s' => ?_) s
  refine (Remote.quiet_list path s.config.readRetry).heeds_bind waits_loading (fun r s => ?_) s'
  cases r with
  | ok listing =>
    exact ⟨.loading, .silent _ (silent_loaded generation listing s),
      cleared_of_ne rfl (by simp [Except.map])⟩
  | error f =>
    exact ⟨.loading, .speaks (ledger_loadFailed generation path f s),
      cleared_of_ne rfl (by simp [Except.map])⟩

/-- **What a command does after its check.** -/
theorem heeds_checked (request : Request) (s : Session) :
    request.program.Heeds checkedRules Cleared request.standing s := by
  cases request with
  | load path => exact heeds_load path s
  | _ =>
    exact (heeds_request (fun _ => Request.noConfusion) s).mono (fun _ _ _ _ h => h.2)
      (fun _ h => h) fun _ _ h => h

/-- The check of a command begins a run exactly if it is the retry of a task. -/
theorem leads_accept {command : Command} {s : Session} {request : Request}
    (h : (accept command s).1 = .ok request) :
    Standing.Leads .fresh s (accept command s).2 request.standing := by
  have hruling := ruling_accept command s
  generalize accept command s = checked at h hruling ⊢
  cases hruling with
  | refused => cases h
  | dropRefused => cases h
  | visit =>
    cases h
    exact .loads ⟨rfl, rfl⟩
  | refresh =>
    cases h
    exact .loads ⟨rfl, rfl⟩
  | notRetried id _ hb =>
    cases h
    exact .silent _ ⟨Ledger.eq_of_beginRetry (Prod.ext hb rfl), rfl⟩
  | retried id operation hb =>
    cases h
    exact .begins id rfl ⟨rfl, operation, .inr (Prod.ext hb rfl)⟩
  | _ =>
    cases h
    exact .silent _ ⟨rfl, rfl⟩

theorem silent_accept_error {command : Command} {s : Session} {e : SessionError}
    (h : (accept command s).1 = .error e) : Silent s (accept command s).2 := by
  have hruling := ruling_accept command s
  generalize accept command s = checked at h hruling ⊢
  cases hruling with
  | refused => exact ⟨rfl, rfl⟩
  | dropRefused => exact ⟨rfl, rfl⟩
  | _ => cases h

/-- **Every command** reports once for each run that it begins, and changes ledger and notice only
so; a load may show a notice. -/
theorem heeds_program (command : Command) (s : Session) :
    command.program.Heeds taskRules Cleared .fresh s := by
  unfold Command.program
  cases hr : (accept command s).1 with
  | error e =>
    refine Program.heeds_modifyGet_bind_at (.silent _ (silent_accept_error hr)) ?_
    rw [hr]
    exact cleared_of_ne rfl (by simp)
  | ok request =>
    refine Program.heeds_modifyGet_bind_at (leads_accept hr) ?_
    rw [hr]
    exact (heeds_checked request _).mono (fun _ _ _ _ h => h.leads) (fun _ h => h) fun _ _ h => h

end Session

end CloudDrive
