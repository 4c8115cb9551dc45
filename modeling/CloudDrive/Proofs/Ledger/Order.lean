import CloudDrive.Proofs.Ledger

/-!
# The order of a ledger

The changes that a ledger offers (`Change`), one after another (`runAll`).

* `run_cases`: what one change does.
* `ids_run`, `ids_runAll`: what a ledger holds was given its identity as a new task, and the order
  is kept: from front to back the identities are some of those given, the latest first.
* `numbers_givenAll`: the numbers given are consecutive.
* `Kept`: the length is bounded, and the last publication is up to date.
* `newest_first`: all of this for any run from an empty ledger, and what a new task puts out.
-/

namespace CloudDrive.Ledger

/-! ## Changes -/

/-- A change of a ledger. -/
inductive Change where
  | start (label : String) (retry : Option Operation) (now : Instant)
  | complete (id : TaskId) (summary : Option String) (now : Instant)
  | fail (id : TaskId) (message : String) (now : Instant)
  | setSummary (id : TaskId) (summary : String)
  | setRetry (id : TaskId) (retry : Option Operation)
  | beginRetry (id : TaskId)
  | dismiss (id : TaskId)
  | clearFinished
  | clear

/-- The ledger after a change. -/
def run (l : Ledger) : Change → Ledger
  | .start label retry now => (l.start label retry now).2
  | .complete id summary now => l.complete id summary now
  | .fail id message now => l.fail id message now
  | .setSummary id summary => l.setSummary id summary
  | .setRetry id retry => l.setRetry id retry
  | .beginRetry id => (l.beginRetry id).2
  | .dismiss id => (l.dismiss id).2
  | .clearFinished => l.clearFinished.2
  | .clear => l.clear

/-- The ledger after changes, one after another. -/
def runAll (l : Ledger) (changes : List Change) : Ledger := changes.foldl run l

/-- The identity that a change gives to a new task. -/
def given (l : Ledger) : Change → List TaskId
  | .start label retry now => [(l.start label retry now).1]
  | _ => []

/-- The identities that changes give, the first one first. -/
def givenAll (l : Ledger) : List Change → List TaskId
  | [] => []
  | x :: changes => l.given x ++ (l.run x).givenAll changes

theorem runAll_cons (l : Ledger) (x : Change) (changes : List Change) :
    l.runAll (x :: changes) = (l.run x).runAll changes := rfl

theorem runAll_append (l : Ledger) (changes later : List Change) :
    l.runAll (changes ++ later) = (l.runAll changes).runAll later := List.foldl_append

/-! ## One change -/

/-- The identities of the tasks, from front to back. -/
def ids (l : Ledger) : List TaskId := l.tasks.map (·.id)

/-- A ledger with other tasks is published, and these have some of the identities, in order. -/
def Trims (l l' : Ledger) : Prop :=
  ∃ tasks : List Task, l' = publish { l with tasks } ∧ (tasks.map (·.id)).Sublist l.ids

theorem trims_filter (l : Ledger) (p : Task → Bool) :
    Trims l (publish { l with tasks := l.tasks.filter p }) :=
  ⟨_, rfl, List.filter_sublist.map _⟩

theorem change_cases (l : Ledger) (id : TaskId) (test : Task → Bool) {f : Task → Task}
    (hf : ∀ task, (f task).id = task.id) :
    l.change id test f = l ∨ Trims l (l.change id test f) := by
  unfold change
  split
  · refine .inr ⟨_, rfl, ?_⟩
    have hids : (l.tasks.map fun task => if task.id = id then f task else task).map (·.id) =
        l.ids := by
      rw [List.map_map]
      refine List.map_congr_left fun task _ => ?_
      show (if task.id = id then f task else task).id = task.id
      split
      · exact hf task
      · rfl
    exact hids ▸ List.Sublist.refl _
  · exact .inl rfl

/-- **What a change does**: it starts a task, or leaves the ledger alone, or publishes tasks of the
same identities, less some of them. -/
theorem run_cases (l : Ledger) (x : Change) :
    (∃ label retry now, x = .start label retry now) ∨
      l.given x = [] ∧ (l.run x = l ∨ Trims l (l.run x)) := by
  cases x with
  | start label retry now => exact .inl ⟨label, retry, now, rfl⟩
  | complete id summary now => exact .inr ⟨rfl, change_cases l id _ fun _ => rfl⟩
  | fail id message now => exact .inr ⟨rfl, change_cases l id _ fun _ => rfl⟩
  | setSummary id summary => exact .inr ⟨rfl, change_cases l id _ fun _ => rfl⟩
  | setRetry id retry => exact .inr ⟨rfl, change_cases l id _ fun _ => rfl⟩
  | beginRetry id => exact .inr ⟨rfl, change_cases l id _ fun _ => rfl⟩
  | dismiss id =>
    refine .inr ⟨rfl, ?_⟩
    show (l.dismiss id).2 = l ∨ Trims l (l.dismiss id).2
    unfold dismiss
    split
    · exact .inr (trims_filter l _)
    · exact .inl rfl
  | clearFinished =>
    refine .inr ⟨rfl, ?_⟩
    show l.clearFinished.2 = l ∨ Trims l l.clearFinished.2
    unfold clearFinished
    simp only
    split
    · exact .inr (trims_filter l _)
    · exact .inl rfl
  | clear => exact .inr ⟨rfl, .inr ⟨[], rfl, List.nil_sublist _⟩⟩

/-! ## Identities -/

theorem ids_start (l : Ledger) (label : String) (retry : Option Operation) (now : Instant) :
    (l.start label retry now).2.ids = ((⟨l.nextId⟩ : TaskId) :: l.ids).take l.limit :=
  List.map_take

/-- **One change** only puts a new identity in front and takes some out. -/
theorem ids_run (l : Ledger) (x : Change) : (l.run x).ids.Sublist (l.given x ++ l.ids) := by
  rcases run_cases l x with ⟨label, retry, now, rfl⟩ | ⟨hgiven, hrun | ⟨tasks, hrun, hsub⟩⟩
  · show (l.start label retry now).2.ids.Sublist _
    rw [ids_start]
    exact List.take_sublist _ _
  · rw [hgiven, hrun]
    exact List.Sublist.refl _
  · rw [hgiven, hrun]
    exact hsub

/-- No change gives more than one identity. -/
theorem reverse_given (l : Ledger) (x : Change) : (l.given x).reverse = l.given x := by
  cases x <;> rfl

/-- **Any changes**: what the ledger held stands behind what was given since. -/
theorem ids_runAll (l : Ledger) (changes : List Change) :
    (l.runAll changes).ids.Sublist ((l.givenAll changes).reverse ++ l.ids) := by
  induction changes generalizing l with
  | nil => exact List.Sublist.refl _
  | cons x changes ih =>
    have hrest := (ih (l.run x)).trans ((ids_run l x).append_left _)
    rwa [← List.append_assoc, ← reverse_given l x, ← List.reverse_append] at hrest

/-! ## Numbers -/

theorem nextId_run (l : Ledger) (x : Change) :
    (l.run x).nextId = l.nextId + (l.given x).length := by
  rcases run_cases l x with ⟨label, retry, now, rfl⟩ | ⟨hgiven, hrun | ⟨tasks, hrun, -⟩⟩
  · rfl
  · rw [hgiven, hrun]
    rfl
  · rw [hgiven, hrun]
    rfl

theorem nextId_runAll (l : Ledger) (changes : List Change) :
    (l.runAll changes).nextId = l.nextId + (l.givenAll changes).length := by
  induction changes generalizing l with
  | nil => rfl
  | cons x changes ih =>
    rw [runAll_cons, ih, nextId_run, givenAll, List.length_append, Nat.add_assoc]

theorem number_given (l : Ledger) (x : Change) :
    (l.given x).map (·.number) = List.range' l.nextId (l.given x).length := by
  cases x <;> rfl

theorem numbers_givenAll (l : Ledger) (changes : List Change) :
    (l.givenAll changes).map (·.number) =
      List.range' l.nextId (l.givenAll changes).length := by
  induction changes generalizing l with
  | nil => rfl
  | cons x changes ih =>
    rw [givenAll, List.map_append, number_given, ih, nextId_run, List.length_append,
      List.range'_append_1]

theorem pairwise_ids (limit : Nat) (changes : List Change) :
    ((withLimit limit).runAll changes).ids.Pairwise fun newer older =>
      older.number < newer.number := by
  have hgiven : ((withLimit limit).givenAll changes).Pairwise fun a b => a.number < b.number := by
    rw [← List.pairwise_map (f := TaskId.number) (R := (· < ·)), numbers_givenAll]
    exact List.pairwise_lt_range'
  have hsub := ids_runAll (withLimit limit) changes
  rw [show (withLimit limit).ids = [] from rfl, List.append_nil] at hsub
  exact (List.pairwise_reverse.2 hgiven).sublist hsub

theorem nodup_ids (limit : Nat) (changes : List Change) :
    ((withLimit limit).runAll changes).ids.Nodup :=
  (pairwise_ids limit changes).imp fun h heq => by
    rw [heq] at h
    exact Nat.lt_irrefl _ h

/-- Every task of a run was given its identity by it. -/
theorem mem_givenAll {limit : Nat} {changes : List Change} {task : Task}
    (h : task ∈ ((withLimit limit).runAll changes).tasks) :
    task.id ∈ (withLimit limit).givenAll changes := by
  have hmem := (ids_runAll (withLimit limit) changes).subset (List.mem_map_of_mem h)
  simpa [show (withLimit limit).ids = [] from rfl] using hmem

theorem lt_nextId {limit : Nat} {changes : List Change} {task : Task}
    (h : task ∈ ((withLimit limit).runAll changes).tasks) :
    task.id.number < ((withLimit limit).runAll changes).nextId := by
  have hmem : task.id.number ∈ ((withLimit limit).givenAll changes).map (·.number) :=
    List.mem_map_of_mem (mem_givenAll h)
  rw [numbers_givenAll] at hmem
  rw [nextId_runAll]
  exact (List.mem_range'_1.1 hmem).2

/-! ## Length and publication -/

/-- The ledger keeps its limit, and its last publication is up to date. -/
structure Kept (limit : Nat) (l : Ledger) : Prop where
  limit_eq : l.limit = limit
  length_le : l.tasks.length ≤ limit
  published : l.published = l.tasks

theorem kept_withLimit (limit : Nat) : (withLimit limit).Kept (max limit 1) :=
  ⟨rfl, Nat.zero_le _, rfl⟩

section
variable {limit : Nat} {l : Ledger} (h : l.Kept limit)
include h

theorem Kept.run (x : Change) : (l.run x).Kept limit := by
  rcases run_cases l x with ⟨label, retry, now, rfl⟩ | ⟨-, hrun | ⟨tasks, hrun, hsub⟩⟩
  · refine ⟨h.limit_eq, ?_, rfl⟩
    show (List.take l.limit _).length ≤ limit
    rw [h.limit_eq]
    exact List.length_take_le _ _
  · rwa [hrun]
  · rw [hrun]
    have hlength := hsub.length_le
    rw [List.length_map, ids, List.length_map] at hlength
    exact ⟨h.limit_eq, Nat.le_trans hlength h.length_le, rfl⟩

theorem Kept.runAll (changes : List Change) : (l.runAll changes).Kept limit := by
  induction changes generalizing l with
  | nil => exact h
  | cons x changes ih => exact ih (h.run x)

/-- **A new task** comes first, and those that no longer fit go from the back. -/
theorem Kept.start (hpos : 0 < limit) (label : String) (retry : Option Operation) (now : Instant) :
    ∃ kept evicted, l.tasks = kept ++ evicted ∧
      (l.start label retry now).2.tasks =
        Task.start (l.start label retry now).1 label retry now :: kept ∧
      (l.start label retry now).2.tasks.length = min (l.tasks.length + 1) limit := by
  obtain ⟨n, rfl⟩ : ∃ n, limit = n + 1 := ⟨limit - 1, by omega⟩
  have htasks : (l.start label retry now).2.tasks =
      Task.start (l.start label retry now).1 label retry now :: l.tasks.take n := by
    show List.take l.limit _ = _
    rw [h.limit_eq]
    rfl
  refine ⟨l.tasks.take n, l.tasks.drop n, (List.take_append_drop n l.tasks).symm, htasks, ?_⟩
  rw [htasks, List.length_cons, List.length_take]
  omega

end

/-! ## Any run -/

/-- **A ledger in any run**, whatever is changed and in whatever order. The tasks stand newest
first, under numbers below the next one. The numbers given in the run are 1, 2, 3 and so on, so none
is given twice, and each task has one of them. There are never more tasks than the limit allows, and
what was published last are the tasks. A new task comes first; it puts out tasks only when there is
no room, and then those of the smallest numbers. -/
theorem newest_first (limit : Nat) (changes : List Change) :
    let l := (withLimit limit).runAll changes
    let given := (withLimit limit).givenAll changes
    l.tasks.Pairwise (fun newer older => older.id.number < newer.id.number) ∧
      (∀ task ∈ l.tasks, task.id.number < l.nextId ∧ task.id ∈ given) ∧
      given.map (·.number) = List.range' 1 given.length ∧ l.nextId = given.length + 1 ∧
      l.tasks.length ≤ max limit 1 ∧ l.published = l.tasks ∧
      ∀ label retry now,
        let started := l.start label retry now
        ∃ kept evicted, l.tasks = kept ++ evicted ∧
          started.2.tasks = Task.start started.1 label retry now :: kept ∧
          (∀ gone ∈ evicted, ∀ task ∈ started.2.tasks, gone.id.number < task.id.number) ∧
          started.2.tasks.length = min (l.tasks.length + 1) (max limit 1) := by
  intro l given
  have hkept := (kept_withLimit limit).runAll changes
  have hsorted : l.tasks.Pairwise fun newer older => older.id.number < newer.id.number :=
    List.pairwise_map.1 (pairwise_ids limit changes)
  refine ⟨hsorted, fun task ht => ⟨lt_nextId ht, mem_givenAll ht⟩, numbers_givenAll _ changes, ?_,
    hkept.length_le, hkept.published, fun label retry now => ?_⟩
  · exact (nextId_runAll _ changes).trans (Nat.add_comm _ _)
  · obtain ⟨kept, evicted, hsplit, htasks, hlength⟩ :=
      hkept.start (Nat.lt_of_lt_of_le Nat.one_pos (Nat.le_max_right _ _)) label retry now
    refine ⟨kept, evicted, hsplit, htasks, fun gone hgone task htask => ?_, hlength⟩
    have hgone' : gone ∈ l.tasks := hsplit ▸ List.mem_append_right kept hgone
    rw [htasks] at htask
    rcases List.mem_cons.1 htask with rfl | htask
    · exact lt_nextId hgone'
    · rw [hsplit] at hsorted
      exact (List.pairwise_append.1 hsorted).2.2 task htask gone hgone

end CloudDrive.Ledger
