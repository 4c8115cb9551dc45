import CloudDrive.Proofs.Path.Spelling
import CloudDrive.Proofs.Session.Plan
import CloudDrive.Proofs.Session.TaskRuns
import Mathlib.Logic.Function.Basic

/-!
# What is left of a batch

A task that carries out a batch may be run again and again. Each run is of some of the items of the
run before, those that were refused, and so it attempts no move that was accepted or skipped before
(`Batch.Repeats`). The ledger says between the runs what is left (`Batch.Remains`, `Batch.Books`).

* `Narrows.hear`, `Narrows.begin`: what is attempted, and a new run.
* `Books.start`, `Books.beginRetry`, `Books.report`: the ledger when a task begins, when a retry
takes up what is left, and when a run has ended.
-/

namespace CloudDrive

open Path (IsComponent)

namespace Session

variable {τ : Type}

/-- The batch that a task was started for. -/
structure Batch where
  config : Config
  task : TaskId
  kind : BatchKind
  sources : List String

theorem BatchKind.operation_injective (kind : BatchKind) {items items' : List String}
    (h : kind.operation items = kind.operation items') : items = items' := by
  cases kind <;> cases h <;> rfl

namespace Batch

variable (b : Batch)

/-- The paths of some items. -/
def paths (items : List String) : List String := b.kind.paths b.config items

/-- The items of a restoration are names of entries. -/
def Named : Prop := b.kind = .restore → ∀ n ∈ b.sources, IsComponent n

theorem exists_retry (hb : b.Named) {items left : List String} (hitems : items.Sublist b.sources)
    (hleft : left.Sublist (b.paths items)) :
    ∃ items', items'.Sublist items ∧ b.kind.retry left = b.kind.operation items' ∧
      b.paths items' = left := by
  obtain ⟨c, id, kind, sources⟩ := b
  cases kind with
  | restore =>
    obtain ⟨items', hsub, rfl⟩ := List.sublist_map_iff.1 hleft
    refine ⟨items', hsub, congrArg Operation.restoreFromTrash ?_, rfl⟩
    -- the name of what lies in the trash under a name is that name
    rw [List.map_map]
    refine (List.map_congr_left fun n hn => ?_).trans (List.map_id _)
    exact Path.name_join_of_isComponent _ (hb rfl n (hitems.subset (hsub.subset hn)))
  | _ => exact ⟨left, hleft, rfl, rfl⟩

/-! ## Runs -/

/-- The run of this number is of these items, and they were refused by all the runs before; it has
attempted some of them, in order. -/
structure Repeats (runs : Nat → Option TaskRun) (number : Nat) (run : TaskRun)
    (items : List String) : Prop where
  operation : run.operation = b.kind.operation items
  sublist : items.Sublist b.sources
  order : (Attempt.sources run.attempts).Sublist (MovePlan.distinct (b.paths items))
  target : ∀ a ∈ run.attempts, a.move = .intoDirectory a.move.source (b.kind.target b.config)
  refused : ∀ m < number, ∀ earlier, runs m = some earlier → earlier.attempts ≠ [] →
    b.paths items ⊆ Attempt.left earlier.attempts

/-- Of several items with one name a run attempts one. -/
theorem Repeats.nodup_sources {b : Batch} {runs : Nat → Option TaskRun} {number : Nat}
    {run : TaskRun} {items : List String} (h : b.Repeats runs number run items) :
    (Attempt.sources run.attempts).Nodup := by
  have hdistinct : (MovePlan.distinct (b.paths items)).Pairwise fun p q =>
      (Path.name q == Path.name p) = false := pairwise_eraseDupsBy _ _
  refine List.Nodup.sublist h.order (hdistinct.imp fun {p q} hne heq => ?_)
  simp [heq] at hne

/-- Every run is of some of the items that were left before. -/
def Narrows (runs : Nat → Option TaskRun) : Prop :=
  ∀ n run, runs n = some run → ∃ items, b.Repeats runs n run items

section
variable {b} {runs : Nat → Option TaskRun} {m : Nat}

theorem Narrows.hear (h : b.Narrows runs) (hnewest : ∀ n > m, runs n = none) {run : TaskRun}
    (hrun : runs m = some run) {items : List String} (hop : run.operation = b.kind.operation items)
    {x : Exchange}
    (horder : (Attempt.sources (run.hear x).attempts).Sublist (MovePlan.distinct (b.paths items)))
    (htarget : ∀ a ∈ x.attempt?, a.move = .intoDirectory a.move.source (b.kind.target b.config)) :
    b.Narrows (Function.update runs m (some (run.hear x))) := by
  intro n run' hrun'
  -- a run is compared with older ones only, and these are as they were
  have hold : ∀ k < n, Function.update runs m (some (run.hear x)) k = runs k := by
    intro k hk
    refine Function.update_of_ne (fun hkm => ?_) _ _
    subst hkm
    rw [Function.update_of_ne (Nat.ne_of_gt hk), hnewest n hk] at hrun'
    cases hrun'
  by_cases hn : n = m
  · subst hn
    obtain ⟨items', hr⟩ := h n run hrun
    obtain rfl := b.kind.operation_injective (hr.operation.symm.trans hop)
    rw [Function.update_self] at hrun'
    obtain rfl := Option.some.inj hrun'
    refine ⟨items', hop, hr.sublist, horder, fun a ha => ?_, fun k hk => ?_⟩
    · rcases List.mem_append.1 ha with ha | ha
      · exact hr.target a ha
      · exact htarget a (Option.mem_toList.1 ha)
    · rw [hold k hk]
      exact hr.refused k hk
  · rw [Function.update_of_ne hn] at hrun'
    obtain ⟨items', hr⟩ := h n run' hrun'
    refine ⟨items', hr.operation, hr.sublist, hr.order, hr.target, fun k hk => ?_⟩
    rw [hold k hk]
    exact hr.refused k hk

/-- A new run of some of the items that all the runs before were refused. -/
theorem Narrows.begin (h : b.Narrows runs) (hnew : ∀ n ≥ m, runs n = none) {items : List String}
    (hitems : items.Sublist b.sources)
    (hleft : ∀ n run, runs n = some run → run.attempts ≠ [] →
      b.paths items ⊆ Attempt.left run.attempts) :
    b.Narrows (Function.update runs m (some ⟨b.kind.operation items, []⟩)) := by
  intro n run hrun
  by_cases hn : n = m
  · subst hn
    rw [Function.update_self] at hrun
    obtain rfl := Option.some.inj hrun
    refine ⟨items, rfl, hitems, List.nil_sublist _, fun a ha => absurd ha List.not_mem_nil,
      fun k hk earlier hearlier => hleft k earlier ?_⟩
    rwa [Function.update_of_ne (Nat.ne_of_lt hk)] at hearlier
  · rw [Function.update_of_ne hn] at hrun
    have hlt : n < m := by
      by_contra hge
      rw [hnew n (Nat.le_of_not_lt hge)] at hrun
      cases hrun
    obtain ⟨items', hr⟩ := h n run hrun
    refine ⟨items', hr.operation, hr.sublist, hr.order, hr.target, fun k hk => ?_⟩
    rw [Function.update_of_ne (Nat.ne_of_lt (Nat.lt_trans hk hlt))]
    exact hr.refused k hk

end

/-! ## The ledger -/

/-- What the task says while the runs of these numbers, but for an open one, have reported: unless
it has succeeded, it lists what all of them were refused, and just what the last one was refused
that has attempted anything. -/
structure Remains (open? : Option Nat) (runs : Nat → Option TaskRun) (task : Task)
    (items : List String) : Prop where
  retry : task.retry = some (b.kind.operation items)
  sublist : items.Sublist b.sources
  refused : task.status ≠ .success → ∀ n run, runs n = some run → open? ≠ some n →
    run.attempts ≠ [] → b.paths items ⊆ Attempt.left run.attempts
  exact : task.status ≠ .success → ∀ n run, runs n = some run → open? ≠ some n →
    run.attempts ≠ [] →
    (∀ m > n, ∀ later, runs m = some later → open? = some m ∨ later.attempts = []) →
    b.paths items = Attempt.left run.attempts
  failed : open? = none → ∀ n run, runs n = some run → (∀ m > n, runs m = none) →
    Attempt.left run.attempts ≠ [] → task.status = .failed

/-- The ledger holds the task at most once, running as long as a run is open, and with what is
left. -/
structure Books (open? : Option Nat) (runs : Nat → Option TaskRun) (l : Ledger) : Prop where
  lt_nextId : b.task.number < l.nextId
  unique : ∀ task ∈ l.tasks, ∀ task' ∈ l.tasks, task.id = b.task → task'.id = b.task → task = task'
  running : open? ≠ none → ∀ task ∈ l.tasks, task.id = b.task → task.status = .running
  remains : ∀ task ∈ l.tasks, task.id = b.task → ∃ items, b.Remains open? runs task items

section
variable {b} {open? : Option Nat} {runs : Nat → Option TaskRun} {l l' : Ledger} {m : Nat}

theorem Books.spares (h : b.Books open? runs l) (hs : l.Spares b.task l') :
    b.Books open? runs l' :=
  ⟨Nat.lt_of_lt_of_le h.lt_nextId hs.nextId_le,
    fun task ht task' ht' hid hid' =>
      h.unique task (hs.mem task ht hid) task' (hs.mem task' ht' hid') hid hid',
    fun ho task ht hid => h.running ho task (hs.mem task ht hid) hid,
    fun task ht hid => h.remains task (hs.mem task ht hid) hid⟩

/-- What an open run attempts is not in the books. -/
theorem Books.update (h : b.Books (some m) runs l) (run : TaskRun) :
    b.Books (some m) (Function.update runs m (some run)) l := by
  refine ⟨h.lt_nextId, h.unique, h.running, fun task ht hid => ?_⟩
  obtain ⟨items, hr⟩ := h.remains task ht hid
  have hother : ∀ {n : Nat}, some m ≠ some n → Function.update runs m (some run) n = runs n :=
    fun hne => Function.update_of_ne (fun heq => hne (congrArg some heq.symm)) _ _
  refine ⟨items, hr.retry, hr.sublist, fun hst n r hn hne => ?_,
    fun hst n r hn hne hattempts hlast => ?_, nofun⟩
  · rw [hother hne] at hn
    exact hr.refused hst n r hn hne
  · rw [hother hne] at hn
    refine hr.exact hst n r hn hne hattempts fun k hk later hlater => ?_
    by_cases hkm : some m = some k
    · exact .inl hkm
    · exact hlast k hk later (by rwa [hother hkm])

/-- **A new task** is the only one of its number. -/
theorem Books.start (hl : ∀ task ∈ l.tasks, task.id.number < l.nextId)
    (hid : b.task = ⟨l.nextId⟩) (label : String) (now : Instant) :
    b.Books (some m) (fun _ => none)
      (l.start label (some (b.kind.operation b.sources)) now).2 := by
  have hnew : ∀ task ∈ (l.start label (some (b.kind.operation b.sources)) now).2.tasks,
      task.id = b.task →
        task = Task.start ⟨l.nextId⟩ label (some (b.kind.operation b.sources)) now := by
    intro task ht hid'
    rcases List.mem_cons.1 (List.mem_of_mem_take ht) with rfl | ht
    · rfl
    · exact absurd (congrArg TaskId.number (hid'.trans hid)) (Nat.ne_of_lt (hl task ht))
  refine ⟨?_, fun t ht t' ht' h h' => (hnew t ht h).trans (hnew t' ht' h').symm,
    fun _ t ht h => ?_, fun t ht h => ⟨b.sources, ?_⟩⟩
  · rw [hid]
    exact Nat.lt_succ_self _
  · rw [hnew t ht h]
    rfl
  · rw [hnew t ht h]
    exact ⟨rfl, List.Sublist.refl _, fun _ n run hn => (by cases hn),
      fun _ n run hn => (by cases hn), nofun⟩

/-- **A retry** takes up what is left. -/
theorem Books.beginRetry (h : b.Books none runs l) (hnew : runs m = none) {operation : Operation}
    (hb : l.beginRetry b.task = (some operation, l')) :
    ∃ items, operation = b.kind.operation items ∧ items.Sublist b.sources ∧
      (∀ n run, runs n = some run → run.attempts ≠ [] →
        b.paths items ⊆ Attempt.left run.attempts) ∧ b.Books (some m) runs l' := by
  have hany := Ledger.any_isRetryable_of_beginRetry hb
  obtain ⟨task, ht, hid, hget, hretryable⟩ := Ledger.exists_of_any_get? hany
  obtain ⟨items, hr⟩ := h.remains task ht hid
  have hfailed : task.status ≠ .success := by
    intro hst
    simp [Task.isRetryable, hst] at hretryable
  obtain rfl : operation = b.kind.operation items := by
    have hop : ((l.get? b.task).filter (·.isRetryable)).bind (·.retry) = some operation :=
      congrArg Prod.fst hb
    rw [hget, Option.filter_some, if_pos hretryable] at hop
    exact Option.some.inj (hop.symm.trans hr.retry)
  have hl : l' = l.change b.task (·.isRetryable) (·.restart) := (congrArg Prod.snd hb).symm
  -- the one task of the ledger is restarted
  have hrestarted : ∀ t ∈ l'.tasks, t.id = b.task → t = task.restart := by
    intro t ht' hid'
    rw [hl, Ledger.tasks_change hany] at ht'
    obtain ⟨old, hold, rfl⟩ := List.mem_map.1 ht'
    by_cases heq : old.id = b.task
    · rw [if_pos heq, h.unique old hold task ht heq hid]
    · rw [if_neg heq] at hid'
      exact absurd hid' heq
  refine ⟨items, rfl, hr.sublist, fun n r hn => hr.refused hfailed n r hn nofun, ?_, ?_, ?_, ?_⟩
  · rw [hl, Ledger.nextId_change]
    exact h.lt_nextId
  · intro t ht t' ht' hid hid'
    rw [hrestarted t ht hid, hrestarted t' ht' hid']
  · intro _ t ht hid
    rw [hrestarted t ht hid]
    rfl
  · intro t ht' hid'
    rw [hrestarted t ht' hid']
    refine ⟨items, hr.retry, hr.sublist, fun _ n r hn _ => hr.refused hfailed n r hn nofun,
      fun _ n r hn _ hattempts hlast => ?_, nofun⟩
    refine hr.exact hfailed n r hn nofun hattempts fun k hk later hlater => .inr ?_
    refine (hlast k hk later hlater).resolve_left fun heq => ?_
    rw [← Option.some.inj heq, hnew] at hlater
    cases hlater

theorem lt_of_newest (hnewest : ∀ n > m, runs n = none) {n : Nat} {run : TaskRun}
    (hn : runs n = some run) (hne : n ≠ m) : n < m := by
  by_contra hge
  rw [hnewest n (Nat.lt_of_le_of_ne (Nat.le_of_not_lt hge) (Ne.symm hne))] at hn
  cases hn

section
variable {run : TaskRun} {items : List String} (hrun : runs m = some run) (now : Instant)
include hrun

theorem Remains.succeed {task : Task} (h : b.Remains (some m) runs task items)
    (hnewest : ∀ n > m, runs n = none) (hleft : Attempt.left run.attempts = [])
    (summary : Option String) :
    b.Remains none runs (task.reported now (.success summary)) items := by
  refine ⟨h.retry, h.sublist, fun hst => absurd rfl hst, fun hst => absurd rfl hst,
    fun _ n last hn hlast hrefused => ?_⟩
  by_cases hnm : n = m
  · rw [hnm, hrun] at hn
    exact absurd (Option.some.inj hn ▸ hleft) hrefused
  · rw [hlast m (lt_of_newest hnewest hn hnm)] at hrun
    cases hrun

/-- The run has attempted nothing, and what was left before it is left now. -/
theorem Remains.giveUp {task : Task} (h : b.Remains (some m) runs task items)
    (hst : task.status ≠ .success) (hnil : run.attempts = []) (reason : String) :
    b.Remains none runs (task.reported now (.failure reason none)) items := by
  have hne : ∀ {n : Nat} {r : TaskRun}, runs n = some r → r.attempts ≠ [] → some m ≠ some n := by
    intro n r hn hattempts heq
    rw [← Option.some.inj heq, hrun] at hn
    exact hattempts (Option.some.inj hn ▸ hnil)
  refine ⟨h.retry, h.sublist,
    fun _ n r hn _ hattempts => h.refused hst n r hn (hne hn hattempts) hattempts,
    fun _ n r hn _ hattempts hlast => ?_, fun _ _ _ _ _ _ => rfl⟩
  exact h.exact hst n r hn (hne hn hattempts) hattempts fun k hk later hlater =>
    .inr ((hlast k hk later hlater).resolve_left nofun)

theorem Repeats.remains (hr : b.Repeats runs m run items) (hb : b.Named)
    (hnewest : ∀ n > m, runs n = none) (hleft : Attempt.left run.attempts ≠ []) (task : Task)
    (reason summary : String) :
    ∃ items', b.Remains none runs (task.reported now
      (.failure reason (some (summary, b.kind.retry (Attempt.left run.attempts))))) items' := by
  have hsub := (Attempt.left_sublist _).trans (hr.order.trans (MovePlan.distinct_sublist _))
  obtain ⟨items', hitems, hretry, hpaths⟩ := b.exists_retry hb hr.sublist hsub
  have hattempts : run.attempts ≠ [] := fun hnil => hleft (by rw [hnil]; rfl)
  refine ⟨items', congrArg some hretry, hitems.trans hr.sublist, fun _ n r hn _ hne => ?_,
    fun _ n r hn _ hne hlast => ?_, fun _ _ _ _ _ _ => rfl⟩
  · by_cases hnm : n = m
    · rw [hnm, hrun] at hn
      rw [hpaths, Option.some.inj hn]
      exact List.Subset.refl _
    · rw [hpaths]
      exact List.Subset.trans hsub.subset (hr.refused n (lt_of_newest hnewest hn hnm) r hn hne)
  · by_cases hnm : n = m
    · rw [hnm, hrun] at hn
      rw [hpaths, Option.some.inj hn]
    · have hnone := hlast m (lt_of_newest hnewest hn hnm) run hrun
      exact absurd (hnone.resolve_left nofun) hattempts

/-- **A report** leaves what the run was refused. -/
theorem Books.report (h : b.Books (some m) runs l) (hb : b.Named)
    (hnewest : ∀ n > m, runs n = none) (hr : b.Repeats runs m run items) {report : Report}
    (hv : Verdict b.kind run.attempts report) :
    b.Books none runs (l.report b.task now report) := by
  have hreported := fun (t : Task) (ht : t ∈ (l.report b.task now report).tasks) =>
    Ledger.exists_of_mem_report (h.running nofun) ht
  refine ⟨?_, fun t ht t' ht' hid hid' => ?_, fun ho => absurd rfl ho, fun t ht hid => ?_⟩
  · rw [Ledger.nextId_report]
    exact h.lt_nextId
  · obtain ⟨old, hold, holdid, rfl⟩ := hreported t ht hid
    obtain ⟨old', hold', holdid', rfl⟩ := hreported t' ht' hid'
    rw [h.unique old hold old' hold' holdid holdid']
  · obtain ⟨old, hold, holdid, rfl⟩ := hreported t ht hid
    obtain ⟨items', hremains⟩ := h.remains old hold holdid
    match report, hv with
    | .success summary, hleft => exact ⟨items', hremains.succeed hrun now hnewest hleft summary⟩
    | .failure reason none, hnil =>
      have hst : old.status ≠ .success := by
        rw [h.running nofun old hold holdid]
        nofun
      exact ⟨items', hremains.giveUp hrun now hst hnil reason⟩
    | .failure reason (some (summary, _)), ⟨hleft, rfl⟩ =>
      exact hr.remains hrun now hb hnewest hleft old reason summary

end

end

end Batch

end Session

end CloudDrive
