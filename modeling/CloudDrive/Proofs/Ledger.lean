import CloudDrive.Ledger

/-!
# Which tasks are running, and what retries would run

A ledger is in balance with the runs that have not reported (`Ledger.Balanced`) if exactly the tasks
of those runs are running, as far as the ledger still holds them.

* `exists_of_mem_report`: what a report makes of a task.
* `spares_start` and its kin: what happens to one task leaves the others alone.
* `Balanced.start`, `Balanced.beginRetry`: a run begins for a task that no other run is for.
* `Balanced.report`: the report of a run ends it.
* `Retries`: a property of what retries would run, with one lemma for each change that keeps it.
-/

namespace CloudDrive

/-- What the run of a task has come to. -/
inductive Report where
  | success (summary : Option String)
  /-- It has failed; if only in part, with what it came to in words and what a retry would run. -/
  | failure (reason : String) (rest : Option (String × Operation))
  deriving DecidableEq, Inhabited

/-- Has the run failed? -/
def Report.isFailure : Report → Bool
  | .success _ => false
  | .failure _ _ => true

/-- A task when its run has reported. -/
def Task.reported (task : Task) (now : Instant) : Report → Task
  | .success summary => { task.finish .success now with summary }
  | .failure reason none => { task.finish .failed now with error := some reason }
  | .failure reason (some (summary, retry)) =>
    { task.finish .failed now with
      error := some reason
      summary := some summary
      retry := some retry }

namespace Ledger

/-- The ledger after a report of a task. -/
def report (l : Ledger) (id : TaskId) (now : Instant) : Report → Ledger
  | .success summary => l.complete id summary now
  | .failure reason none => l.fail id reason now
  | .failure reason (some (summary, retry)) =>
    ((l.fail id reason now).setSummary id summary).setRetry id (some retry)

/-! ## Single changes -/

section
variable {l : Ledger} {id : TaskId} {test : Task → Bool} {f : Task → Task}

theorem change_eq_self (h : (l.get? id).any test = false) : l.change id test f = l := by
  unfold change
  rw [h]
  rfl

theorem tasks_change (h : (l.get? id).any test = true) :
    (l.change id test f).tasks = l.tasks.map fun t => if t.id = id then f t else t := by
  unfold change
  rw [if_pos h]
  rfl

@[simp] theorem nextId_change : (l.change id test f).nextId = l.nextId := by
  unfold change
  split <;> rfl

theorem mem_of_get? {task : Task} (h : l.get? id = some task) : task ∈ l.tasks ∧ task.id = id :=
  ⟨List.mem_of_find?_eq_some h, by simpa using List.find?_some h⟩

/-- Nothing is reported of a task that the ledger does not hold. -/
theorem report_eq_self (h : l.get? id = none) (now : Instant) (report : Report) :
    l.report id now report = l := by
  have hchange : ∀ test f, l.change id test f = l := fun test f => change_eq_self (by rw [h]; rfl)
  unfold Ledger.report complete fail
  split
  · exact hchange _ _
  · exact hchange _ _
  · rw [hchange]
    unfold setSummary setRetry
    rw [hchange, hchange]

@[simp] theorem nextId_report (now : Instant) (report : Report) :
    (l.report id now report).nextId = l.nextId := by
  unfold Ledger.report complete fail setSummary setRetry
  split <;> simp

theorem exists_of_any_get? (h : (l.get? id).any test = true) :
    ∃ task ∈ l.tasks, task.id = id ∧ l.get? id = some task ∧ test task = true := by
  cases hfound : l.get? id with
  | none =>
    rw [hfound] at h
    cases h
  | some task =>
    rw [hfound] at h
    obtain ⟨hmem, hid⟩ := mem_of_get? hfound
    exact ⟨task, hmem, hid, rfl, h⟩

/-- The tasks of the identity after a change, if all of them pass its test. -/
theorem exists_of_mem_change {task : Task} (ht : task ∈ (l.change id test f).tasks)
    (hid : task.id = id) (htest : ∀ task ∈ l.tasks, task.id = id → test task = true) :
    ∃ old ∈ l.tasks, old.id = id ∧ task = f old := by
  cases hany : (l.get? id).any test with
  | true =>
    rw [tasks_change hany] at ht
    obtain ⟨old, hold, rfl⟩ := List.mem_map.1 ht
    by_cases heq : old.id = id
    · exact ⟨old, hold, heq, if_pos heq⟩
    · rw [if_neg heq] at hid
      exact absurd hid heq
  | false =>
    rw [change_eq_self hany] at ht
    obtain ⟨first, hfirst⟩ : ∃ first, l.get? id = some first :=
      Option.isSome_iff_exists.1 (by simpa [get?] using ⟨task, ht, hid⟩)
    obtain ⟨hmem, hfirstId⟩ := mem_of_get? hfirst
    rw [hfirst, Option.any_some, htest first hmem hfirstId] at hany
    cases hany

theorem mem_of_mem_change {task : Task} (ht : task ∈ (l.change id test f).tasks)
    (hne : task.id ≠ id) (hf : ∀ task, (f task).id = task.id) : task ∈ l.tasks := by
  cases hany : (l.get? id).any test with
  | true =>
    rw [tasks_change hany] at ht
    obtain ⟨old, hold, rfl⟩ := List.mem_map.1 ht
    by_cases heq : old.id = id
    · rw [if_pos heq, hf] at hne
      exact absurd heq hne
    · rwa [if_neg heq]
  | false => rwa [change_eq_self hany] at ht

theorem mem_of_mem_report {now : Instant} {report : Report} {task : Task}
    (ht : task ∈ (l.report id now report).tasks) (hne : task.id ≠ id) : task ∈ l.tasks := by
  unfold Ledger.report at ht
  split at ht
  · exact mem_of_mem_change ht hne fun _ => rfl
  · exact mem_of_mem_change ht hne fun _ => rfl
  · have hsummary := mem_of_mem_change ht hne fun _ => rfl
    have hfail := mem_of_mem_change hsummary hne fun _ => rfl
    exact mem_of_mem_change hfail hne fun _ => rfl

/-- What a report makes of a task that was running. -/
theorem exists_of_mem_report {now : Instant} {report : Report}
    (hrunning : ∀ task ∈ l.tasks, task.id = id → task.status = .running) {task : Task}
    (ht : task ∈ (l.report id now report).tasks) (hid : task.id = id) :
    ∃ old ∈ l.tasks, old.id = id ∧ task = old.reported now report := by
  have htest : ∀ task ∈ l.tasks, task.id = id → (! task.isTerminal) = true :=
    fun task ht hid => by simp [Task.isTerminal, hrunning task ht hid]
  unfold Ledger.report at ht
  split at ht
  · exact exists_of_mem_change ht hid htest
  · exact exists_of_mem_change ht hid htest
  · obtain ⟨_, hs, hsid, rfl⟩ := exists_of_mem_change ht hid fun _ _ _ => rfl
    obtain ⟨_, hf, hfid, rfl⟩ := exists_of_mem_change hs hsid fun _ _ _ => rfl
    obtain ⟨old, hold, holdid, rfl⟩ := exists_of_mem_change hf hfid htest
    exact ⟨old, hold, holdid, rfl⟩

theorem any_isRetryable_of_beginRetry {operation : Operation} {l' : Ledger}
    (h : l.beginRetry id = (some operation, l')) : (l.get? id).any (·.isRetryable) = true := by
  cases hany : (l.get? id).any (·.isRetryable) with
  | true => rfl
  | false =>
    rw [beginRetry_eq hany] at h
    cases h

theorem eq_of_beginRetry {l' : Ledger} (h : l.beginRetry id = (none, l')) : l' = l := by
  cases hany : (l.get? id).any (·.isRetryable) with
  | false =>
    rw [beginRetry_eq hany] at h
    exact (congrArg Prod.snd h).symm
  | true =>
    obtain ⟨task, -, -, htask, hretryable⟩ := exists_of_any_get? hany
    obtain ⟨operation, hretry⟩ := Option.isSome_iff_exists.1 (Bool.and_eq_true_iff.1 hretryable).2
    have hnone : ((l.get? id).filter (·.isRetryable)).bind (·.retry) = none := congrArg Prod.fst h
    simp [htask, hretryable, hretry] at hnone

end

/-! ## What is left alone -/

/-- Whatever has happened, the task of an identity is as it was, unless it was taken out. -/
structure Spares (id : TaskId) (l l' : Ledger) : Prop where
  nextId_le : l.nextId ≤ l'.nextId
  mem : ∀ task ∈ l'.tasks, task.id = id → task ∈ l.tasks

section
variable {id other : TaskId} {l l' l'' : Ledger}

theorem Spares.refl (id : TaskId) (l : Ledger) : l.Spares id l := ⟨Nat.le_refl _, fun _ ht _ => ht⟩

theorem Spares.trans (h : l.Spares id l') (h' : l'.Spares id l'') : l.Spares id l'' :=
  ⟨Nat.le_trans h.nextId_le h'.nextId_le, fun task ht hid => h.mem task (h'.mem task ht hid) hid⟩

theorem spares_start (hlt : id.number < l.nextId) (label : String) (retry : Option Operation)
    (now : Instant) : l.Spares id (l.start label retry now).2 := by
  refine ⟨Nat.le_succ _, fun task ht hid => ?_⟩
  rcases List.mem_cons.1 (List.mem_of_mem_take ht) with rfl | ht
  · exact absurd (congrArg TaskId.number hid) (Nat.ne_of_gt hlt)
  · exact ht

theorem spares_report (hne : other ≠ id) (now : Instant) (report : Report) :
    l.Spares id (l.report other now report) :=
  ⟨Nat.le_of_eq (nextId_report now report).symm, fun _ ht hid =>
    mem_of_mem_report ht fun heq => hne (heq.symm.trans hid)⟩

theorem spares_beginRetry (hne : other ≠ id) : l.Spares id (l.beginRetry other).2 :=
  ⟨Nat.le_of_eq nextId_change.symm, fun _ ht hid =>
    mem_of_mem_change ht (fun heq => hne (heq.symm.trans hid)) fun _ => rfl⟩

end

/-! ## Balance -/

/-- Exactly the tasks that are owed a report are running. Neither a task nor a run has a number that
is still to be given out. -/
structure Balanced (l : Ledger) (owed : TaskId → Prop) : Prop where
  lt_nextId : ∀ task ∈ l.tasks, task.id.number < l.nextId
  owed_lt : ∀ id, owed id → id.number < l.nextId
  running_iff : ∀ task ∈ l.tasks, task.status = .running ↔ owed task.id

section
variable {l : Ledger} {owed : TaskId → Prop}

theorem balanced_nil (h : l.tasks = []) : l.Balanced fun _ => False :=
  ⟨by simp [h], fun _ => False.elim, by simp [h]⟩

theorem Balanced.congr {owed' : TaskId → Prop} (h : l.Balanced owed)
    (howed : ∀ id, owed' id ↔ owed id) : l.Balanced owed' :=
  (funext fun id => propext (howed id) : owed' = owed) ▸ h

theorem Balanced.mono {l' : Ledger} (h : l.Balanced owed) (htasks : l'.tasks ⊆ l.tasks)
    (hnext : l'.nextId = l.nextId) : l'.Balanced owed :=
  ⟨fun task ht => hnext ▸ h.lt_nextId task (htasks ht), fun id hid => hnext ▸ h.owed_lt id hid,
    fun task ht => h.running_iff task (htasks ht)⟩

/-- **A new task** is one that nobody owes a report. -/
theorem Balanced.start (h : l.Balanced owed) (label : String) (retry : Option Operation)
    (now : Instant) :
    (l.start label retry now).2.Balanced (fun id => owed id ∨ id = (l.start label retry now).1) ∧
      ¬ owed (l.start label retry now).1 := by
  have hnew : ¬ owed ⟨l.nextId⟩ := fun howed => Nat.lt_irrefl _ (h.owed_lt _ howed)
  have hmem : ∀ task ∈ (l.start label retry now).2.tasks,
      task = Task.start ⟨l.nextId⟩ label retry now ∨ task ∈ l.tasks :=
    fun task ht => List.mem_cons.1 (List.mem_of_mem_take ht)
  refine ⟨⟨fun task ht => ?_, fun id hid => ?_, fun task ht => ?_⟩, hnew⟩
  · rcases hmem task ht with rfl | ht
    · exact Nat.lt_succ_self _
    · exact Nat.lt_succ_of_lt (h.lt_nextId task ht)
  · rcases hid with hid | rfl
    · exact Nat.lt_succ_of_lt (h.owed_lt id hid)
    · exact Nat.lt_succ_self _
  · rcases hmem task ht with rfl | ht
    · exact iff_of_true rfl (.inr rfl)
    · have hne : task.id ≠ ⟨l.nextId⟩ := by
        intro heq
        have hlt := h.lt_nextId task ht
        rw [heq] at hlt
        exact Nat.lt_irrefl _ hlt
      exact (h.running_iff task ht).trans (or_iff_left hne).symm

variable {id : TaskId}

/-- A change of tasks that may change whether those of one identity are running. -/
theorem Balanced.change {owed' : TaskId → Prop} (h : l.Balanced owed) {test : Task → Bool}
    {f : Task → Task} (hid : ∀ task, (f task).id = task.id)
    (hlt : ∀ id, owed' id → id.number < l.nextId) (howed : ∀ other ≠ id, owed' other ↔ owed other)
    (htest : (l.get? id).any test = true → ∀ task ∈ l.tasks, task.id = id →
      ((f task).status = .running ↔ owed' id))
    (hnot : (l.get? id).any test = false → ∀ task ∈ l.tasks, task.id = id →
      (owed' id ↔ owed id)) : (l.change id test f).Balanced owed' := by
  cases hany : (l.get? id).any test with
  | false =>
    rw [change_eq_self hany]
    refine ⟨h.lt_nextId, hlt, fun task ht => (h.running_iff task ht).trans ?_⟩
    by_cases hid : task.id = id
    · rw [hid]
      exact (hnot hany task ht hid).symm
    · exact (howed _ hid).symm
  | true =>
    refine ⟨fun task ht => ?_, fun id hid => ?_, fun task ht => ?_⟩
    · rw [tasks_change hany] at ht
      obtain ⟨old, hold, rfl⟩ := List.mem_map.1 ht
      rw [nextId_change]
      split
      · rw [hid]
        exact h.lt_nextId old hold
      · exact h.lt_nextId old hold
    · rw [nextId_change]
      exact hlt id hid
    · rw [tasks_change hany] at ht
      obtain ⟨old, hold, rfl⟩ := List.mem_map.1 ht
      split
      · next heq =>
        rw [hid, heq]
        exact htest hany old hold heq
      · next hne => exact (h.running_iff old hold).trans (howed _ hne).symm

theorem Balanced.change_same (h : l.Balanced owed) {test : Task → Bool} {f : Task → Task}
    (hid : ∀ task, (f task).id = task.id) (hstatus : ∀ task, (f task).status = task.status) :
    (l.change id test f).Balanced owed := by
  refine h.change hid h.owed_lt (fun _ _ => Iff.rfl) (fun _ task ht heq => ?_)
    fun _ _ _ _ => Iff.rfl
  rw [hstatus, ← heq]
  exact h.running_iff task ht

/-- **A retry** begins for a task that nobody owes a report. -/
theorem Balanced.beginRetry (h : l.Balanced owed) {operation : Operation} {l' : Ledger}
    (hb : l.beginRetry id = (some operation, l')) :
    l'.Balanced (fun other => owed other ∨ other = id) ∧ ¬ owed id := by
  have hany := any_isRetryable_of_beginRetry hb
  obtain ⟨task, hmem, rfl, -, hretryable⟩ := exists_of_any_get? hany
  have hfailed : task.status = .failed := by
    simpa using (Bool.and_eq_true_iff.1 hretryable).1
  have hnot : ¬ owed task.id := by
    rw [← h.running_iff task hmem, hfailed]
    intro hrunning
    cases hrunning
  have hl : l' = l.change task.id (·.isRetryable) (·.restart) := (congrArg Prod.snd hb).symm
  rw [hl]
  refine ⟨h.change (fun _ => rfl) (fun other ho => ?_) (fun other hne => or_iff_left hne)
    (fun _ _ _ _ => iff_of_true rfl (.inr rfl)) (fun hfalse => ?_), hnot⟩
  · rcases ho with ho | rfl
    · exact h.owed_lt other ho
    · exact h.lt_nextId task hmem
  · rw [hany] at hfalse
    cases hfalse

/-- **A report** ends the one run that owes it. -/
theorem Balanced.report (h : l.Balanced fun other => owed other ∨ other = id) (hnot : ¬ owed id)
    (now : Instant) (report : Report) : (l.report id now report).Balanced owed := by
  -- the run is of a running task, which ends
  have hends : ∀ f : Task → Task, (∀ task, (f task).id = task.id) →
      (∀ task, (f task).status ≠ .running) →
      (l.change id (! ·.isTerminal) f).Balanced owed := by
    intro f hid hstatus
    refine h.change hid (fun other ho => h.owed_lt other (.inl ho))
      (fun other hne => (or_iff_left hne).symm)
      (fun _ task _ _ => iff_of_false (hstatus task) hnot) fun hany task ht heq => ?_
    obtain ⟨first, hfirst⟩ : ∃ first, l.get? id = some first :=
      Option.isSome_iff_exists.1 (by simpa [get?] using ⟨task, ht, heq⟩)
    obtain ⟨hmem, hfirstId⟩ := mem_of_get? hfirst
    have hrunning := (h.running_iff first hmem).2 (.inr hfirstId)
    simp [hfirst, Task.isTerminal, hrunning] at hany
  have hfail : ∀ reason, (l.fail id reason now).Balanced owed :=
    fun reason => hends _ (fun _ => rfl) fun _ h => by cases h
  unfold Ledger.report
  split
  · exact hends _ (fun _ => rfl) fun _ h => by cases h
  · exact hfail _
  · refine ((hfail _).change_same ?_ ?_).change_same ?_ ?_ <;> exact fun _ => rfl

end

/-! ## Retries -/

/-- What retries would run has a property. -/
def Retries (P : Operation → Prop) (l : Ledger) : Prop :=
  ∀ task ∈ l.tasks, ∀ operation ∈ task.retry, P operation

section
variable {P : Operation → Prop} {l : Ledger} (h : l.Retries P)
include h

theorem Retries.start {operation : Operation} (hp : P operation) (label : String)
    (now : Instant) : (l.start label (some operation) now).2.Retries P := by
  intro task htask o ho
  rcases List.mem_cons.1 (List.mem_of_mem_take htask) with rfl | htask
  · cases ho
    exact hp
  · exact h task htask o ho

theorem Retries.change {id : TaskId} {test : Task → Bool} {f : Task → Task}
    (hf : ∀ task, ∀ o ∈ (f task).retry, o ∈ task.retry ∨ P o) :
    (l.change id test f).Retries P := by
  unfold Ledger.change
  split
  · intro task htask o ho
    obtain ⟨x, hx, rfl⟩ := List.mem_map.1 htask
    split at ho
    · exact (hf x o ho).elim (h x hx o) fun hp => hp
    · exact h x hx o ho
  · exact h

theorem Retries.complete (id : TaskId) (summary : Option String) (now : Instant) :
    (l.complete id summary now).Retries P := h.change fun _ _ => .inl

theorem Retries.fail (id : TaskId) (message : String) (now : Instant) :
    (l.fail id message now).Retries P := h.change fun _ _ => .inl

theorem Retries.setSummary (id : TaskId) (summary : String) :
    (l.setSummary id summary).Retries P := h.change fun _ _ => .inl

theorem Retries.setRetry {operation : Operation} (hp : P operation) (id : TaskId) :
    (l.setRetry id (some operation)).Retries P :=
  h.change fun _ o ho => .inr (by cases ho; exact hp)

theorem Retries.beginRetry (id : TaskId) :
    (l.beginRetry id).2.Retries P ∧ ∀ operation ∈ (l.beginRetry id).1, P operation := by
  refine ⟨h.change fun _ _ => .inl, fun o ho => ?_⟩
  simp only [Ledger.beginRetry, Option.mem_def, Option.bind_eq_some_iff,
    Option.filter_eq_some_iff] at ho
  obtain ⟨task, ⟨htask, -⟩, ho⟩ := ho
  exact h task (List.mem_of_find?_eq_some htask) o ho

end

end Ledger

end CloudDrive
