import CloudDrive.Proofs.Ledger.Order
import Mathlib.Data.List.Induction
import Mathlib.Data.List.Nodup

/-!
# The life of a task

* `mem_run_cases`: a task of the ledger after a change has just been started, or has become what it
  is (`Becomes`) from one that was there.
* `consistent_runAll`: finish time and error are those of the status (`Task.Consistent`).
* `success_stays`, `failure_stays`: a success is final, and a failure lasts until a retry.
* `life_cycle`: all of this for any run from an empty ledger, and which changes are refused.
-/

namespace CloudDrive

/-- Finish time and error are those of the status. -/
structure Task.Consistent (t : Task) : Prop where
  running : t.status = .running → t.finishedAt = none ∧ t.error = none
  success : t.status = .success → t.finishedAt.isSome = true ∧ t.error = none
  failed : t.status = .failed → t.finishedAt.isSome = true ∧ t.error.isSome = true

namespace Ledger

/-! ## What becomes of a task -/

/-- What a change may make of a task that stays in the ledger. -/
inductive Becomes (task : Task) : Change → Task → Prop where
  | same (x : Change) : Becomes task x task
  | completed (summary : Option String) (now : Instant) (h : task.status = .running) :
      Becomes task (.complete task.id summary now) { task.finish .success now with summary }
  | failed (message : String) (now : Instant) (h : task.status = .running) :
      Becomes task (.fail task.id message now)
        { task.finish .failed now with error := some message }
  | summarized (summary : String) :
      Becomes task (.setSummary task.id summary) { task with summary := some summary }
  | described (retry : Option Operation) :
      Becomes task (.setRetry task.id retry) { task with retry }
  | restarted (operation : Operation) (h : task.status = .failed)
      (hretry : task.retry = some operation) : Becomes task (.beginRetry task.id) task.restart

section
variable {task task' : Task} {x : Change} (h : Becomes task x task')
include h

theorem Becomes.id_eq : task'.id = task.id := by
  cases h <;> rfl

theorem Becomes.consistent (ht : task.Consistent) : task'.Consistent := by
  cases h with
  | same => exact ht
  | completed _ _ hrunning => exact ⟨nofun, fun _ => ⟨rfl, (ht.running hrunning).2⟩, nofun⟩
  | failed => exact ⟨nofun, nofun, fun _ => ⟨rfl, rfl⟩⟩
  | summarized => exact ⟨ht.running, ht.success, ht.failed⟩
  | described => exact ⟨ht.running, ht.success, ht.failed⟩
  | restarted => exact ⟨fun _ => ⟨rfl, rfl⟩, nofun, nofun⟩

theorem Becomes.of_success (ht : task.status = .success) :
    task'.status = .success ∧ task'.finishedAt = task.finishedAt ∧ task'.error = task.error := by
  cases h with
  | same => exact ⟨ht, rfl, rfl⟩
  | completed _ _ hrunning =>
    rw [ht] at hrunning
    cases hrunning
  | failed _ _ hrunning =>
    rw [ht] at hrunning
    cases hrunning
  | summarized => exact ⟨ht, rfl, rfl⟩
  | described => exact ⟨ht, rfl, rfl⟩
  | restarted _ hfailed =>
    rw [ht] at hfailed
    cases hfailed

theorem Becomes.of_failed (ht : task.status = .failed) (hne : task'.status ≠ .failed) :
    x = .beginRetry task.id ∧ task'.status = .running ∧
      ∃ operation, task.retry = some operation := by
  cases h with
  | same => exact absurd ht hne
  | completed _ _ hrunning =>
    rw [ht] at hrunning
    cases hrunning
  | failed => exact absurd rfl hne
  | summarized => exact absurd ht hne
  | described => exact absurd ht hne
  | restarted operation _ hretry => exact ⟨rfl, rfl, operation, hretry⟩

end

/-! ## What a change makes of a ledger -/

theorem not_isTerminal {task : Task} : (! task.isTerminal) = true ↔ task.status = .running := by
  simp [Task.isTerminal]

theorem isRetryable_iff {task : Task} :
    task.isRetryable = true ↔
      task.status = .failed ∧ ∃ operation, task.retry = some operation := by
  simp [Task.isRetryable, Option.isSome_iff_exists]

theorem any_not_isTerminal {task? : Option Task} (h : ∀ task ∈ task?, task.status ≠ .running) :
    task?.any (! ·.isTerminal) = false := by
  cases task? with
  | none => rfl
  | some task => exact Bool.eq_false_iff.2 fun ht => h task rfl (not_isTerminal.1 ht)

theorem any_isRetryable {task? : Option Task}
    (h : ∀ task ∈ task?, task.status = .failed → task.retry = none) :
    task?.any (·.isRetryable) = false := by
  cases task? with
  | none => rfl
  | some task =>
    refine Bool.eq_false_iff.2 fun ht => ?_
    obtain ⟨hf, operation, hretry⟩ := isRetryable_iff.1 ht
    rw [h task rfl hf] at hretry
    cases hretry

theorem eq_of_mem {l : Ledger} (hn : l.ids.Nodup) {task other : Task} (ht : task ∈ l.tasks)
    (ho : other ∈ l.tasks) (h : task.id = other.id) : task = other :=
  List.inj_on_of_nodup_map hn ht ho h

theorem get?_of_mem {l : Ledger} (hn : l.ids.Nodup) {task : Task} (ht : task ∈ l.tasks) :
    l.get? task.id = some task := by
  obtain ⟨found, hfound⟩ : ∃ found, l.get? task.id = some found :=
    Option.isSome_iff_exists.1 (by simpa [get?] using ⟨task, ht, rfl⟩)
  obtain ⟨hmem, hid⟩ := mem_of_get? hfound
  rw [hfound, eq_of_mem hn hmem ht hid]

theorem fst_beginRetry {l : Ledger} (hn : l.ids.Nodup) {task : Task} (ht : task ∈ l.tasks)
    (hf : task.status = .failed) {operation : Operation} (hretry : task.retry = some operation) :
    (l.beginRetry task.id).1 = some operation := by
  have hretryable : task.isRetryable = true := isRetryable_iff.2 ⟨hf, operation, hretry⟩
  unfold beginRetry
  rw [get?_of_mem hn ht, Option.filter_some, if_pos hretryable]
  exact hretry

theorem mem_change {l : Ledger} (hn : l.ids.Nodup) {id : TaskId} {test : Task → Bool}
    {f : Task → Task} {task' : Task} (h : task' ∈ (l.change id test f).tasks) :
    task' ∈ l.tasks ∨ ∃ task ∈ l.tasks, task.id = id ∧ test task = true ∧ task' = f task := by
  cases hany : (l.get? id).any test with
  | false =>
    rw [change_eq_self hany] at h
    exact .inl h
  | true =>
    rw [tasks_change hany] at h
    obtain ⟨old, hold, rfl⟩ := List.mem_map.1 h
    split
    · next hid =>
      obtain ⟨task, ht, hid', -, htest⟩ := exists_of_any_get? hany
      obtain rfl := eq_of_mem hn hold ht (hid.trans hid'.symm)
      exact .inr ⟨old, hold, hid, htest, rfl⟩
    · exact .inl hold

/-- **The tasks after a change**: one that it has started, and what has become of those before. -/
theorem mem_run_cases {l : Ledger} (hn : l.ids.Nodup) {x : Change} {task' : Task}
    (h : task' ∈ (l.run x).tasks) :
    (∃ label retry now, task' = Task.start ⟨l.nextId⟩ label retry now) ∨
      ∃ task ∈ l.tasks, Becomes task x task' := by
  have same : task' ∈ l.tasks → ∃ task ∈ l.tasks, Becomes task x task' := fun ht =>
    ⟨task', ht, .same x⟩
  cases x with
  | start label retry now =>
    rcases List.mem_cons.1 (List.mem_of_mem_take h) with rfl | ht
    · exact .inl ⟨label, retry, now, rfl⟩
    · exact .inr (same ht)
  | complete id summary now =>
    rcases mem_change hn h with ht | ⟨task, ht, rfl, htest, rfl⟩
    · exact .inr (same ht)
    · exact .inr ⟨task, ht, .completed summary now (not_isTerminal.1 htest)⟩
  | fail id message now =>
    rcases mem_change hn h with ht | ⟨task, ht, rfl, htest, rfl⟩
    · exact .inr (same ht)
    · exact .inr ⟨task, ht, .failed message now (not_isTerminal.1 htest)⟩
  | setSummary id summary =>
    rcases mem_change hn h with ht | ⟨task, ht, rfl, -, rfl⟩
    · exact .inr (same ht)
    · exact .inr ⟨task, ht, .summarized summary⟩
  | setRetry id retry =>
    rcases mem_change hn h with ht | ⟨task, ht, rfl, -, rfl⟩
    · exact .inr (same ht)
    · exact .inr ⟨task, ht, .described retry⟩
  | beginRetry id =>
    rcases mem_change hn h with ht | ⟨task, ht, rfl, htest, rfl⟩
    · exact .inr (same ht)
    · obtain ⟨hfailed, operation, hretry⟩ := isRetryable_iff.1 htest
      exact .inr ⟨task, ht, .restarted operation hfailed hretry⟩
  | dismiss id =>
    refine .inr (same ?_)
    change task' ∈ (l.dismiss id).2.tasks at h
    unfold dismiss at h
    split at h
    · exact (List.mem_filter.1 h).1
    · exact h
  | clearFinished =>
    refine .inr (same ?_)
    change task' ∈ l.clearFinished.2.tasks at h
    unfold clearFinished at h
    simp only at h
    split at h
    · exact (List.mem_filter.1 h).1
    · exact h
  | clear => cases h

/-! ## Any run -/

theorem consistent_runAll (limit : Nat) (changes : List Change) :
    ∀ task ∈ ((withLimit limit).runAll changes).tasks, task.Consistent := by
  induction changes using List.reverseRecOn with
  | nil => exact fun task ht => absurd ht List.not_mem_nil
  | append_singleton changes x ih =>
    intro task' h
    rw [runAll_append] at h
    rcases mem_run_cases (nodup_ids limit changes) h with ⟨label, retry, now, rfl⟩ | ⟨task, ht, hb⟩
    · exact ⟨fun _ => ⟨rfl, rfl⟩, nofun, nofun⟩
    · exact hb.consistent (ih task ht)

/-- A success stays one as long as the ledger holds the task: no other task gets its identity. -/
theorem success_stays {limit : Nat} {before : List Change} {task : Task}
    (ht : task ∈ ((withLimit limit).runAll before).tasks) (hs : task.status = .success)
    (later : List Change) {task' : Task}
    (ht' : task' ∈ ((withLimit limit).runAll (before ++ later)).tasks) (hid : task'.id = task.id) :
    task'.status = .success ∧ task'.finishedAt = task.finishedAt ∧ task'.error = task.error := by
  induction later using List.reverseRecOn generalizing task' with
  | nil =>
    rw [List.append_nil] at ht'
    rw [eq_of_mem (nodup_ids limit before) ht' ht hid]
    exact ⟨hs, rfl, rfl⟩
  | append_singleton later x ih =>
    rw [← List.append_assoc, runAll_append] at ht'
    rcases mem_run_cases (nodup_ids limit (before ++ later)) ht' with
      ⟨label, retry, now, rfl⟩ | ⟨old, hold, hb⟩
    · -- the number of a new task is larger than all that were given before
      have hlt := lt_nextId ht
      have hnumber : ((withLimit limit).runAll (before ++ later)).nextId = task.id.number :=
        congrArg TaskId.number hid
      rw [runAll_append, nextId_runAll] at hnumber
      omega
    · obtain ⟨hs', hfinish, herror⟩ := ih hold (hb.id_eq.symm.trans hid)
      obtain ⟨hs'', hfinish', herror'⟩ := hb.of_success hs'
      exact ⟨hs'', hfinish'.trans hfinish, herror'.trans herror⟩

/-- A failure stays one until a retry begins, which returns what the task is to run. -/
theorem failure_stays {limit : Nat} {before : List Change} {task : Task}
    (ht : task ∈ ((withLimit limit).runAll before).tasks) (hf : task.status = .failed) {x : Change}
    {task' : Task} (ht' : task' ∈ (((withLimit limit).runAll before).run x).tasks)
    (hid : task'.id = task.id) (hne : task'.status ≠ .failed) :
    x = .beginRetry task.id ∧ task'.status = .running ∧ ∃ operation, task.retry = some operation ∧
      (((withLimit limit).runAll before).beginRetry task.id).1 = some operation := by
  have hn := nodup_ids limit before
  rcases mem_run_cases hn ht' with ⟨label, retry, now, rfl⟩ | ⟨old, hold, hb⟩
  · exact absurd (congrArg TaskId.number hid) (Nat.ne_of_gt (lt_nextId ht))
  · obtain rfl := eq_of_mem hn hold ht (hb.id_eq.symm.trans hid)
    obtain ⟨hx, hrunning, operation, hretry⟩ := hb.of_failed hf hne
    exact ⟨hx, hrunning, operation, hretry, fst_beginRetry hn ht hf hretry⟩

/-- **The life of a task in any run.** A task that is running has neither a finish time nor an
error, a success has a finish time and no error, and a failure has both. As long as the ledger holds
a success, it stays one with the same finish time and without an error. A failure changes its status
only when a retry begins, which returns what the task is to run. A report of a task that is missing
or not running leaves the ledger as it is, and so does a retry of one that is missing, has not
failed or has nothing to run. -/
theorem life_cycle (limit : Nat) (before : List Change) :
    let l := (withLimit limit).runAll before
    (∀ task ∈ l.tasks,
        (task.status = .running → task.finishedAt = none ∧ task.error = none) ∧
        (task.status = .success → task.finishedAt.isSome = true ∧ task.error = none) ∧
        (task.status = .failed → task.finishedAt.isSome = true ∧ task.error.isSome = true)) ∧
      (∀ task ∈ l.tasks, task.status = .success → ∀ later, ∀ task' ∈ (l.runAll later).tasks,
        task'.id = task.id →
          task'.status = .success ∧ task'.finishedAt = task.finishedAt ∧ task'.error = none) ∧
      (∀ task ∈ l.tasks, task.status = .failed → ∀ x, ∀ task' ∈ (l.run x).tasks,
        task'.id = task.id → task'.status ≠ .failed →
          x = .beginRetry task.id ∧ task'.status = .running ∧
            ∃ operation, task.retry = some operation ∧
              (l.beginRetry task.id).1 = some operation) ∧
      ∀ id, ((∀ task ∈ l.get? id, task.status ≠ .running) →
          (∀ summary now, l.complete id summary now = l) ∧
            ∀ message now, l.fail id message now = l) ∧
        ((∀ task ∈ l.get? id, task.status = .failed → task.retry = none) →
          l.beginRetry id = (none, l)) := by
  intro l
  have hconsistent := consistent_runAll limit before
  refine ⟨fun task ht => ?_, fun task ht hs later task' ht' hid => ?_,
    fun task ht hf x task' ht' hid hne => failure_stays ht hf ht' hid hne,
    fun id => ⟨fun hrunning => ?_, fun hfailed => ?_⟩⟩
  · have hc := hconsistent task ht
    exact ⟨hc.running, hc.success, hc.failed⟩
  · have ht'' : task' ∈ ((withLimit limit).runAll (before ++ later)).tasks := by
      rwa [runAll_append]
    obtain ⟨hs', hfinish, herror⟩ := success_stays ht hs later ht'' hid
    exact ⟨hs', hfinish, herror.trans ((hconsistent task ht).success hs).2⟩
  · have hany := any_not_isTerminal hrunning
    exact ⟨fun summary now => change_eq_self hany, fun message now => change_eq_self hany⟩
  · exact beginRetry_eq (any_isRetryable hfailed)

end Ledger

end CloudDrive
