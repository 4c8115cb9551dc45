import CloudDrive.Proofs.Course
import CloudDrive.Proofs.Session.Changes
import CloudDrive.Proofs.Session.Sound

/-!
# The moves of a batch, one after another

A batch attempts the moves of its plan in the order of its request, and reports when the last one is
answered (`batchCourse`). The report says what became of them (`Verdict`).

* `pursues_workBatch`: so it is whatever the calls are answered and whatever else happens.
-/

namespace CloudDrive

open Remote (Call Failure)

/-! ## Attempts -/

/-- A move that was asked for, and whether it was accepted. -/
structure Attempt where
  move : MoveRequest
  isAccepted : Bool
  deriving DecidableEq

namespace Attempt

/-- The sources of the moves that were attempted, in order. -/
def sources (attempts : List Attempt) : List String := attempts.map (·.move.source)

/-- The moves that were accepted, in order. -/
def accepted (attempts : List Attempt) : List MoveRequest :=
  (attempts.filter (·.isAccepted)).map (·.move)

/-- The moves that were refused, in order. -/
def refused (attempts : List Attempt) : List MoveRequest :=
  (attempts.filter (! ·.isAccepted)).map (·.move)

/-- What is still to be moved, in order. -/
def left (attempts : List Attempt) : List String := (refused attempts).map (·.source)

variable {attempts : List Attempt}

theorem left_sublist (attempts : List Attempt) : (left attempts).Sublist (sources attempts) := by
  unfold left refused sources
  rw [List.map_map]
  exact List.filter_sublist.map _

theorem left_eq_nil : left attempts = [] ↔ refused attempts = [] := List.map_eq_nil_iff

/-- If no source comes twice, no move was both accepted and refused. -/
theorem not_mem_accepted (h : (sources attempts).Nodup) {m : MoveRequest}
    (hm : m ∈ refused attempts) : m ∉ accepted attempts := by
  intro hm'
  simp only [refused, accepted, List.mem_map, List.mem_filter] at hm hm'
  obtain ⟨a, ⟨ha, hno⟩, rfl⟩ := hm
  obtain ⟨b, ⟨hb, hyes⟩, hab⟩ := hm'
  have heq : b = a := List.inj_on_of_nodup_map h hb ha (congrArg MoveRequest.source hab)
  rw [heq] at hyes
  simp [hyes] at hno

end Attempt

/-- The move that was answered, if it was one. -/
def Exchange.attempt? : Exchange → Option Attempt
  | .reply (.move source destination) (.ok _) => some ⟨⟨source, destination⟩, true⟩
  | .reply (.move source destination) (.error _) => some ⟨⟨source, destination⟩, false⟩
  | _ => none

namespace Session

/-! ## The course of a batch -/

/-- How far a batch has come. -/
structure Progress where
  attempts : List Attempt := []
  reported : Bool := false

/-- What a batch may report after these attempts: success if no move was refused; failure as a whole
if it has attempted none; and else a failure that lists what is still to be moved. -/
def Verdict (kind : BatchKind) (attempts : List Attempt) : Report → Prop
  | .success _ => Attempt.left attempts = []
  | .failure _ none => attempts = []
  | .failure _ (some (_, retry)) =>
    Attempt.left attempts ≠ [] ∧ retry = kind.retry (Attempt.left attempts)

/-- A batch attempts moves of some paths, in their order and none of one name twice; and it reports
once, when it attempts no more. -/
def batchCourse (id : TaskId) (kind : BatchKind) (paths : List String) :
    Course Session Progress where
  allows k s s' k' := Silent s s' ∧ k' = k ∨
    k.reported = false ∧ k' = { k with reported := true } ∧
      ∃ report, Reports id report s s' ∧ Verdict kind k.attempts report
  waits k call? := ∀ source destination, call? = some (.move source destination) →
    k.reported = false ∧ (Attempt.sources k.attempts ++ [source]).Sublist (MovePlan.distinct paths)
  hears k x := { k with attempts := k.attempts ++ x.attempt?.toList }

section
variable {id : TaskId} {kind : BatchKind} {paths : List String} {k : Progress} {s s' : Session}

theorem allows_silent (h : Silent s s') : (batchCourse id kind paths).allows k s s' k :=
  .inl ⟨h, rfl⟩

theorem allows_report (hk : k.reported = false) {report : Report} (h : Reports id report s s')
    (hv : Verdict kind k.attempts report) :
    (batchCourse id kind paths).allows k s s' { k with reported := true } :=
  .inr ⟨hk, rfl, report, h, hv⟩

theorem hears_of_none {x : Exchange} (hx : x.attempt? = none) :
    (batchCourse id kind paths).hears k x = k := by
  simp [batchCourse, hx]

theorem pursues_listing {path : String} {policy : RetryPolicy} :
    (Remote.list path policy : Program Session _).Pursues (batchCourse id kind paths)
      (fun k' _ => k' = k) k s :=
  Program.pursues_list (fun _ _ h => by cases h) (fun _ _ h => by cases h)
    (fun _ => hears_of_none rfl) fun _ => hears_of_none rfl

theorem pursues_reconcile (keys : List String) {ends : Progress → Unit → Prop} (hk : ends k ()) :
    (reconcile keys).Pursues (batchCourse id kind paths) ends k s := by
  have hrefetch : ∀ s, (refetch keys).Pursues (batchCourse id kind paths) (fun k' _ => k' = k)
      k s := by
    induction keys with
    | nil => exact fun s => rfl
    | cons key keys ih =>
      intro s
      show Program.Pursues (batchCourse id kind paths) _
        (if s.cache.contains key then _ else _) k s
      split
      · unfold fetch
        rw [bind_assoc]
        refine Program.pursues_get_bind (Program.Pursues.bind pursues_listing fun _ r s hk => ?_)
        subst hk
        refine Program.pursues_modify_bind (allows_silent ?_) (ih _)
        cases r <;> exact ⟨rfl, rfl⟩
      · exact ih s
  exact (hrefetch s).bind fun _ _ _ h => Program.pursues_modify (allows_silent ⟨rfl, rfl⟩) (h ▸ hk)

/-- A plan is made by listings, and perhaps the creation of the trash; it moves what the batch
names, in order. -/
theorem pursues_prepare (c : Config) (sources : List String) :
    (kind.prepare c sources).Pursues (batchCourse id kind (kind.paths c sources))
      (fun k' r => k' = k ∧ ∀ plan, r = .ok plan →
        plan.sources.Sublist (MovePlan.distinct (kind.paths c sources))) k s := by
  have hplan : ∀ (policy : RetryPolicy) (destination : String) (s : Session),
      (MovePlan.prepare policy (kind.paths c sources) destination : Program Session _).Pursues
        (batchCourse id kind (kind.paths c sources)) (fun k' r => k' = k ∧ ∀ plan, r = .ok plan →
          plan.sources.Sublist (MovePlan.distinct (kind.paths c sources))) k s := by
    intro policy destination s
    refine Program.Pursues.bind pursues_listing fun _ r s hk => ?_
    cases r with
    | ok listing =>
      refine ⟨hk, ?_⟩
      rintro _ ⟨⟩
      exact MovePlan.sources_ofSources_sublist _ _
    | error f => exact ⟨hk, by rintro _ ⟨⟩⟩
  cases kind with
  | directory destination => exact hplan _ _ s
  | restore => exact hplan _ _ s
  | trash =>
    refine ⟨fun _ _ h => (by cases h), fun r s => ?_⟩
    rw [hears_of_none (by cases r <;> rfl)]
    cases r with
    | ok _ => exact hplan _ _ s
    | error f =>
      show Program.Pursues _ _
        (Program.bind (.done (if f.isAlreadyExists then Except.ok () else .error f)) _) k s
      split
      · exact hplan _ _ s
      · exact ⟨rfl, by rintro _ ⟨⟩⟩

/-- The moves of a plan are attempted one after another, and the outcome lists those that were
refused. -/
theorem pursues_run {moves : List MoveRequest} {o : BatchOutcome} (hk : k.reported = false)
    (hmoves : (Attempt.sources k.attempts ++ moves.map (·.source)).Sublist
      (MovePlan.distinct paths)) (ho : o.failedSources = Attempt.left k.attempts) :
    (o.run moves).Pursues (batchCourse id kind paths)
      (fun k' o' => k'.reported = false ∧ o'.failedSources = Attempt.left k'.attempts) k s := by
  induction moves generalizing o k s with
  | nil => exact ⟨hk, ho⟩
  | cons m moves ih =>
    rw [List.map_cons, ← List.singleton_append, ← List.append_assoc] at hmoves
    refine ⟨?_, fun r s => ?_⟩
    · rintro _ _ ⟨⟩
      exact ⟨hk, (List.sublist_append_left _ _).trans hmoves⟩
    · cases r with
      | ok _ =>
        refine ih hk ?_ ?_
        · simpa [batchCourse, Exchange.attempt?, Attempt.sources] using hmoves
        · simpa [batchCourse, Exchange.attempt?, Attempt.left, Attempt.refused,
            BatchOutcome.failedSources, BatchOutcome.add] using ho
      | error f =>
        refine ih hk ?_ ?_
        · simpa [batchCourse, Exchange.attempt?, Attempt.sources] using hmoves
        · simpa [batchCourse, Exchange.attempt?, Attempt.left, Attempt.refused,
            BatchOutcome.failedSources, BatchOutcome.add] using ho

theorem pursues_ofPlan {plan : MovePlan} (h : plan.sources.Sublist (MovePlan.distinct paths)) :
    (BatchOutcome.ofPlan plan).Pursues (batchCourse id kind paths)
      (fun k' o => k'.reported = false ∧ o.failedSources = Attempt.left k'.attempts) {} s :=
  (pursues_run (k := {}) rfl h rfl).bind fun _ _ _ ho => ho

end

/-- **A batch** keeps to its course until it has reported. -/
theorem pursues_workBatch (id : TaskId) (sources : List String) (kind : BatchKind) (s : Session) :
    (workBatch id sources kind).Pursues (batchCourse id kind (kind.paths s.config sources))
      (fun k _ => k.reported = true) {} s := by
  unfold workBatch
  refine Program.pursues_get_bind ((pursues_prepare s.config sources).bind fun _ r s' hr => ?_)
  obtain ⟨rfl, hplan⟩ := hr
  cases r with
  | error f => exact Program.pursues_modify (allows_report rfl (reports_fail _ _ _ _) rfl) rfl
  | ok plan =>
    show Program.Pursues _ _ (if plan.isEmpty then _ else _) _ s'
    split
    · obtain ⟨_, hreport⟩ := reports_allSkipped id (s.taskLabel id) s' plan
      exact Program.pursues_modify (allows_report rfl hreport rfl) rfl
    · refine Program.pursues_modifyGet_bind (allows_silent ⟨rfl, rfl⟩) ?_
      generalize s'.beginPatch plan.toPatch = patched
      refine Program.Pursues.bind (pursues_ofPlan (hplan plan rfl)) fun k o s'' ⟨hk, ho⟩ => ?_
      have hsuccess : o.isSuccess = true ↔ Attempt.left k.attempts = [] := by
        rw [← ho, BatchOutcome.isSuccess, List.isEmpty_iff]
        exact List.map_eq_nil_iff.symm
      show Program.Pursues _ _ (if o.isSuccess then _ else _) _ s''
      split
      · next hs =>
        obtain ⟨_, hreport⟩ := reports_batchDone id (s.taskLabel id) patched.1 s'' o
        exact Program.pursues_modifyGet_bind (allows_report hk hreport (hsuccess.1 hs))
          (pursues_reconcile _ rfl)
      · next hs =>
        have hreport := reports_batchRefused id (s.taskLabel id) patched.1 s'' kind o
        refine Program.pursues_modify_bind
          (allows_report hk hreport ⟨fun h => hs (hsuccess.2 h), congrArg kind.retry ho⟩) ?_
        split
        · exact pursues_reconcile _ rfl
        · exact rfl

end Session

end CloudDrive
