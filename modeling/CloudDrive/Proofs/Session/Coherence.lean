import CloudDrive.Proofs.Session.Plan

/-!
# Coherence of single commands

An operation on a store without faults of listings, in a session whose cache mirrors the store.

* `leaves_work`: afterwards the cache mirrors the store exactly if the operation does no harm
  (`Harms`). Only batches and deletions can do harm, each in its own ways.
* `leaves_program`: the same for a whole command, whose harm is that of the operation it comes to.
-/

namespace CloudDrive.Session

open Path (Canonical IsComponent)
open Remote (Failure)
open Store (Catalog)

/-! ## Sessions and their store -/

/-- The session is sound, and the store is shaped as it should be and lists without faults. -/
structure Ready (c : Config) (s : Session) (t : Store) : Prop where
  sound : Sound c s
  shaped : t.catalog.WellShaped
  free : t.FreeOf .list

/-- After work the store is as it should be, and the cache mirrors it exactly if `P` holds. -/
structure Leaves (P : Prop) (after : Session × Store) : Prop where
  shaped : after.2.catalog.WellShaped
  free : after.2.FreeOf .list
  mirrors_iff : Cache.Mirrors after.1.cache after.2.catalog ↔ P

theorem Leaves.of_same {P : Prop} {t : Store} {after : Session × Store} (hs : t.Same after.2)
    (ht : t.catalog.WellShaped) (hf : t.FreeOf .list)
    (h : Cache.Mirrors after.1.cache t.catalog ↔ P) : Leaves P after :=
  ⟨hs.catalog ▸ ht, hs.freeOf hf, hs.catalog ▸ h⟩

/-! ## Patches that are settled -/

section
variable (cache : Cache) (patch : Cache.Patch)

theorem mem_keys_scopeFor {key : String} :
    key ∈ (cache.begin (cache.scopeFor patch)).keys ↔ key ∈ cache.touchedBy patch := by
  rw [Cache.mem_keys_begin]
  simp [Cache.scopeFor, Cache.Scope.covers, Cache.Scope.isList]

variable {cache patch} {s : Session} {t : Store} (hf : t.FreeOf .list)
include hf

theorem refetched_commit
    (hs : s.cache =
      ((cache.apply patch).commit (cache.begin (cache.scopeFor patch))).2) :
    let keys := ((cache.apply patch).commit (cache.begin (cache.scopeFor patch))).1
    let after := ((reconcile keys).runOn .ofStore s t).2
    t.Same after.2 ∧
      Cache.Refetched (cache.touchedBy patch) t.catalog (cache.apply patch) after.1.cache := by
  intro keys after
  obtain ⟨hsame, hre⟩ := refetched_reconcile keys s hf
  refine ⟨hsame, hre.congr (fun key => ?_) fun key hk => ?_⟩
  · rw [hs, Cache.get?_commit]
  · have hc : (cache.apply patch).contains key = true := by
      rwa [Cache.contains, OrderedTable.contains_eq_isSome]
    rw [← mem_keys_scopeFor cache patch]
    simp [keys, Cache.commit, hc]

theorem refetched_takenBack (hs : s.cache = cache.takenBack patch) :
    let after := ((reconcile (cache.begin (cache.scopeFor patch)).keys).runOn .ofStore s t).2
    t.Same after.2 ∧
      Cache.Refetched (cache.touchedBy patch) t.catalog (cache.takenBack patch) after.1.cache := by
  intro after
  obtain ⟨hsame, hre⟩ := refetched_reconcile (cache.begin (cache.scopeFor patch)).keys s hf
  exact ⟨hsame, hre.congr (fun key => by rw [hs]) fun key _ => mem_keys_scopeFor cache patch⟩

end

section
variable (cache : Cache) (patch : Cache.Patch) {s : Session} {t : Store} (hf : t.FreeOf .list)
  (ht : t.catalog.WellShaped) {P : Prop}
include hf ht

theorem leaves_commit
    (hs : s.cache = ((cache.apply patch).commit (cache.begin (cache.scopeFor patch))).2)
    (hiff : ∀ c', Cache.Refetched (cache.touchedBy patch) t.catalog (cache.apply patch) c' →
      (Cache.Mirrors c' t.catalog ↔ P)) :
    Leaves P ((reconcile ((cache.apply patch).commit
      (cache.begin (cache.scopeFor patch))).1).runOn .ofStore s t).2 := by
  obtain ⟨hsame, hre⟩ := refetched_commit hf hs
  exact .of_same hsame ht hf (hiff _ hre)

/-- A patch that was taken back; nothing is fetched again if nothing has happened. -/
theorem leaves_takenBack {idle : Session} {nothing : Prop} [Decidable nothing]
    (hidle : idle.cache = cache.takenBack patch) (hs : s.cache = cache.takenBack patch)
    (hiff : ∀ c', Cache.Refetched (if nothing then [] else cache.touchedBy patch) t.catalog
      (cache.takenBack patch) c' → (Cache.Mirrors c' t.catalog ↔ P)) :
    Leaves P (if nothing then (idle, t) else
      ((reconcile (cache.begin (cache.scopeFor patch)).keys).runOn .ofStore s t).2) := by
  by_cases h : nothing
  · rw [if_pos h] at hiff ⊢
    exact ⟨ht, hf, hidle ▸ hiff _ (Cache.refetched_nil _ _)⟩
  · rw [if_neg h] at hiff ⊢
    obtain ⟨hsame, hre⟩ := refetched_takenBack hf hs
    exact .of_same hsame ht hf (hiff _ hre)

end

/-! ## Harm of batches -/

/-- A batch does harm if

* the trash was created, and the cached listing of the directory that holds it is not fetched again,
  because the batch has moved nothing or touches other directories, or
* a move is refused, and the batch is tangled, or a directory is cached at or beneath the source of
  a move that was accepted. -/
def BatchKind.Harms (kind : BatchKind) (sources : List String) (s : Session) (t : Store) : Prop :=
  let prepared := (kind.prepare s.config sources).runOn .ofStore s t
  let outdated := Trash.outdated s.config t.catalog prepared.2.2.catalog
  match prepared.1 with
  | .error _ => ∃ k ∈ outdated, (s.cache.get? k).isSome = true
  | .ok plan =>
    let o := ((BatchOutcome.ofPlan plan).runOn .ofStore s prepared.2.2).1
    (∃ k ∈ outdated, (s.cache.get? k).isSome = true ∧
      ¬ (0 < o.successCount ∧ k ∈ s.cache.touchedBy plan.toPatch)) ∨
    o.failedSources ≠ [] ∧ (s.cache.Tangled plan.destination plan.pairs ∨
      ∃ m ∈ plan.pairs, m.1 ∉ o.failedSources ∧ s.cache.keysWithin m.1 ≠ [])

section
variable {c : Config} {s : Session} {t : Store} {kind : BatchKind} {sources : List String}

/-- What a plan comes to, once it is made. -/
theorem leaves_afterMoves {t₁ t₂ : Store} {plan : MovePlan} {p : String} {outdated : List String}
    (hs : s.cache.Reachable) (hf : t₁.FreeOf .list) (hne : plan.pairs ≠ [])
    (hb : Cache.BatchStart s.cache t₁.catalog p plan.destination plan.pairs outdated)
    {o : BatchOutcome} (hrun : (BatchOutcome.ofPlan plan).runOn .ofStore s t₁ = (o, s, t₂))
    (id : TaskId) (label : String) :
    Leaves (¬ ((∃ k ∈ outdated, (s.cache.get? k).isSome = true ∧
          ¬ (0 < o.successCount ∧ k ∈ s.cache.touchedBy plan.toPatch)) ∨
        o.failedSources ≠ [] ∧ (s.cache.Tangled plan.destination plan.pairs ∨
          ∃ m ∈ plan.pairs, m.1 ∉ o.failedSources ∧ s.cache.keysWithin m.1 ≠ [])))
      (afterMoves .ofStore id label kind plan s (o, t₂)) := by
  obtain ⟨acc, rej, o, t₂, hrun', hmoved, hcount, hfailed⟩ := BatchOutcome.runOn_ofPlan plan s
    hb.shaped fun m hm => (hb.into.canonical hm).2
  rw [hrun'] at hrun
  cases hrun
  have hshaped := hmoved.run.wellShaped hb.shaped
  have hfree := hmoved.freeOf hf
  have hsuccess : o.isSuccess = true ↔ rej = [] := by
    rw [← hfailed]
    simp [BatchOutcome.isSuccess, BatchOutcome.failedSources]
  have hpos : 0 < o.successCount ↔ acc ≠ [] := by
    rw [hcount, List.length_pos_iff]
  -- the harm in terms of what was accepted and what was refused
  rw [show (∃ m ∈ plan.pairs, m.1 ∉ o.failedSources ∧ s.cache.keysWithin m.1 ≠ []) ↔
    ∃ m ∈ acc, s.cache.keysWithin m.1 ≠ [] by
      simp only [hfailed, hmoved.mem_iff hb.into.distinct, and_assoc], hfailed]
  unfold afterMoves
  simp only
  by_cases hr : rej = []
  · have hacc := hmoved.eq_of_nil hr
    rw [if_pos (hsuccess.2 hr)]
    refine leaves_commit s.cache plan.toPatch hfree hshaped rfl fun c' hre => ?_
    refine (Cache.mirrors_accepted_iff hb hmoved.run hne hacc hre).trans (not_congr ?_)
    simp only [hr, ne_eq, not_true_eq_false, false_and, or_false, hpos, hacc, hne,
      not_false_eq_true, true_and]
    rfl
  · rw [if_neg fun h => hr (hsuccess.1 h)]
    simp only [hpos, ne_eq, ite_not]
    refine leaves_takenBack s.cache plan.toPatch hfree hshaped rfl rfl fun c' hre => ?_
    simp only [hr, not_false_eq_true, true_and]
    exact Cache.mirrors_refused_iff hb hmoved.accepted hmoved.run hs hre

/-- **A batch** leaves the cache as a mirror of the store exactly if it does no harm. -/
theorem leaves_workBatch (h : Ready c s t) (hc : Cache.Mirrors s.cache t.catalog)
    (hp : (kind.operation sources).Proper c) (id : TaskId) :
    Leaves (¬ kind.Harms sources s t) ((workBatch id sources kind).runOn .ofStore s t).2 := by
  obtain ⟨hsound, hshaped, hfree⟩ := h
  obtain rfl := hsound.config
  obtain ⟨r, t₁, hrun, hprep, hplan⟩ := @prepared_prepare kind s.config sources t hshaped hfree s
  rw [runOn_workBatch]
  unfold BatchKind.Harms
  simp only [hrun]
  cases r with
  | error f => exact ⟨hprep.shaped, hprep.free, hprep.mirrors_iff hc⟩
  | ok plan =>
    obtain ⟨hd, rfl, ho⟩ := hplan plan rfl
    obtain ⟨p, hb⟩ := batchStart hc hprep hp hd ho
    generalize hpl : MovePlan.ofSources (kind.paths s.config sources) _ = plan at hb ⊢
    have hdest : plan.destination = kind.target s.config := by rw [← hpl]; rfl
    rw [← hdest] at hb
    simp only
    by_cases he : plan.isEmpty = true
    · rw [if_pos he]
      have hout : ((BatchOutcome.ofPlan plan).runOn .ofStore s t₁).1 =
          { conflicts := plan.conflicts.length } := by
        unfold BatchOutcome.ofPlan BatchOutcome.ofMoves
        rw [List.isEmpty_iff.1 he]
        rfl
      refine ⟨hprep.shaped, hprep.free, (hprep.mirrors_iff hc).trans (not_congr ?_)⟩
      rw [hout]
      simp [BatchOutcome.failedSources]
    · rw [if_neg he]
      have hne : plan.pairs ≠ [] := fun h => he (by
        simpa [MovePlan.isEmpty, MovePlan.pairs] using h)
      exact leaves_afterMoves hsound.reachable hprep.free hne hb
        (Prod.ext rfl (Prod.ext ((BatchOutcome.quiet_ofPlan plan).state_runOn _ _ _) rfl)) id _

end

/-! ## Deletions -/

/-- A deletion does harm if it is not complete, and a directory is cached at or beneath a path that
was deleted. -/
def DeleteHarms (paths : List String) (s : Session) (t : Store) : Prop :=
  ∃ report, (Port.ofStore.answer t (.delete paths)).1 = .ok report ∧ report.isComplete = false ∧
    ∃ g ∈ report.deleted, s.cache.keysWithin g ≠ []

/-- **A deletion** is refused, complete, or in part done. -/
theorem runOn_workDelete {τ : Type} (port : Port τ) (id : TaskId) (paths : List String)
    (s : Session) (t : τ) :
    ((workDelete id paths).runOn port s t).2 =
      let snapshot := (beginPatch (.remove paths) s).1
      let patched := (beginPatch (.remove paths) s).2
      let answer := port.answer t (.delete paths)
      match (answer.1 : Except Failure Remote.DeleteReport) with
      | .error f => (fail id (s.taskLabel id) f.reason (patched.rollback snapshot).prune, answer.2)
      | .ok report =>
        if report.isComplete then
          let done := deleteDone id report snapshot patched
          ((reconcile done.1).runOn port done.2 answer.2).2
        else
          let refused := deleteRefused id (s.taskLabel id) report snapshot patched
          if report.deleted.isEmpty then (refused.prune, answer.2)
          else ((reconcile snapshot.keys).runOn port refused answer.2).2 := by
  unfold workDelete
  rw [Program.runOn_bind, Program.runOn_get, Program.runOn_bind, Program.runOn_modifyGet]
  refine (congrArg Prod.snd (Program.runOn_request_bind port _ t (.delete paths) _)).trans ?_
  generalize port.answer t (.delete paths) = answer
  obtain ⟨r, t'⟩ := answer
  cases r with
  | error f => rfl
  | ok report =>
    simp only
    split
    · rfl
    · split <;> rfl

section
variable {c : Config} {s : Session} {t : Store} (h : Ready c s t)
  (hc : Cache.Mirrors s.cache t.catalog)
include h hc

/-- **A deletion** leaves the cache as a mirror of the store exactly if it does no harm. -/
theorem leaves_workDelete (id : TaskId) (paths : List String) :
    Leaves (¬ DeleteHarms paths s t) ((workDelete id paths).runOn .ofStore s t).2 := by
  rw [runOn_workDelete]
  have hanswer : Port.ofStore.answer t (.delete paths) = (t.record (.delete paths)).delete paths :=
    rfl
  have hcat : (t.record (.delete paths)).catalog = t.catalog := rfl
  have hfaults : (t.record (.delete paths)).faults = t.faults := rfl
  unfold DeleteHarms
  rw [hanswer]
  generalize t.record (.delete paths) = u at hcat hfaults
  have hshaped := @Store.wellShaped_delete u (hcat ▸ h.shaped) paths
  obtain ⟨hsub, hcases⟩ := u.delete_cases paths
  have hfree : (u.delete paths).2.FreeOf .list := fun f hm => h.free f (hfaults ▸ hsub hm)
  have hback := Cache.get?_takenBack_remove h.sound.reachable hc.listsOwn paths
  rw [hcat] at hcases
  generalize u.delete paths = answer at hshaped hcases hfree
  obtain ⟨r, t'⟩ := answer
  simp only at hshaped hcases hfree ⊢
  rcases hcases with ⟨f, rfl, hsame⟩ | ⟨gone, failed, rfl, herased, hcovers, hst, hall⟩
  · refine ⟨hshaped, hfree, iff_of_true ?_ ?_⟩
    · show Cache.Mirrors _ t'.catalog
      rw [hsame]
      exact (Cache.mirrors_congr hback).2 hc
    · rintro ⟨_, ⟨⟩, -⟩
  · have hharm : (∃ report, Except.ok (ε := Failure) (⟨gone, failed⟩ : Remote.DeleteReport) =
        .ok report ∧ report.isComplete = false ∧ ∃ g ∈ report.deleted, s.cache.keysWithin g ≠ []) ↔
        failed ≠ [] ∧ ∃ g ∈ gone, s.cache.keysWithin g ≠ [] := by
      simp [Remote.DeleteReport.isComplete]
    rw [hharm]
    by_cases hfail : failed = []
    · obtain rfl := hall hfail
      subst hfail
      refine leaves_commit s.cache (.remove gone) hfree hshaped rfl fun c' hre => ?_
      refine iff_of_true ?_ fun hh => hh.1 rfl
      rw [herased] at hre ⊢
      exact (Cache.mirrors_removePaths h.shaped.tree hc hst).refetched hre
    · have hincomplete : (⟨gone, failed⟩ : Remote.DeleteReport).isComplete = false := by
        simpa [Remote.DeleteReport.isComplete] using hfail
      simp only [hincomplete, Bool.false_eq_true, if_false, List.isEmpty_iff]
      refine leaves_takenBack s.cache (.remove paths) hfree hshaped rfl rfl fun c' hre => ?_
      rw [herased] at hre ⊢
      simp only [ne_eq, hfail, not_false_eq_true, true_and]
      exact Cache.mirrors_deleted_iff h.shaped.tree hc hcovers.deleted.subset hst
        (hre.congr hback fun _ _ => Iff.rfl)

end

/-! ## Single changes -/

theorem Leaves.congr {P Q : Prop} {after : Session × Store} (h : Leaves P after) (hpq : P ↔ Q) :
    Leaves Q after := ⟨h.shaped, h.free, h.mirrors_iff.trans hpq⟩

/-- What follows the reply to a call that puts an entry into the directory `key`. -/
def afterInsert (id : TaskId) (label key : String) : Except Failure Unit → Program Session Unit
  | .ok _ => do
    modify (succeed id label)
    reconcile [key]
  | .error f => modify (fail id label f.reason)

section
variable {τ : Type} (port : Port τ) (id : TaskId) (s : Session) (t : τ)

theorem runOn_workCreate (parent name : String) :
    (workCreate id parent name).runOn port s t =
      (afterInsert id (s.taskLabel id) parent (port.answer t (.createDirectory parent name)).1).runOn
        port s (port.answer t (.createDirectory parent name)).2 := by
  unfold workCreate
  rw [Program.runOn_bind, Program.runOn_get]
  refine (Program.runOn_request_bind port s t (.createDirectory parent name) _).trans ?_
  generalize port.answer t (.createDirectory parent name) = answer
  obtain ⟨r, t'⟩ := answer
  cases r <;> rfl

theorem runOn_workUpload (file : Remote.UploadFile) (directory : String) :
    (workUpload id file directory).runOn port s t =
      (afterInsert id (s.taskLabel id) directory (port.answer t (.upload file directory)).1).runOn
        port s (port.answer t (.upload file directory)).2 := by
  unfold workUpload
  rw [Program.runOn_bind, Program.runOn_get]
  refine (Program.runOn_request_bind port s t (.upload file directory) _).trans ?_
  generalize port.answer t (.upload file directory) = answer
  obtain ⟨r, t'⟩ := answer
  cases r <;> rfl

end

section
variable {c : Config} {s : Session} {t : Store} (h : Ready c s t)
  (hc : Cache.Mirrors s.cache t.catalog)
include h hc

theorem leaves_afterInsert {r : Except Failure Unit} {t' : Store} {e : Entry} {key : String}
    (hshaped : t'.catalog.WellShaped) (hfaults : t'.faults ⊆ t.faults)
    (hcases : (∃ f, r = .error f ∧ t'.catalog = t.catalog) ∨ r = .ok () ∧
      t.catalog.IsDirectory key ∧
      (∀ x, t.catalog.find? e.path = some x → x.isDirectory = false) ∧
      t'.catalog = t.catalog.insert e)
    {name : String} (he : e.path = Path.join key name) (hn : IsComponent name)
    (id : TaskId) (label : String) :
    Leaves True ((afterInsert id label key r).runOn .ofStore s t').2 := by
  have hfree : t'.FreeOf .list := fun f hm => h.free f (hfaults hm)
  rcases hcases with ⟨f, rfl, hsame⟩ | ⟨rfl, hd, hold, hins⟩
  · refine ⟨hshaped, hfree, iff_true_intro ?_⟩
    show Cache.Mirrors _ t'.catalog
    rw [hsame]
    exact hc
  · have hk := h.shaped.tree.canonical_of_isDirectory hd
    obtain ⟨hsame, hre⟩ := refetched_reconcile [key] (succeed id label s) hfree
    refine .of_same hsame hshaped hfree (iff_true_intro ?_)
    have hm := Cache.mirrorsExcept_insert hc (he ▸ Path.join_ne_root hk hn) hold
    rw [he, Path.parent_join hk hn, ← hins] at hm
    exact hre.mirrors hm fun _ hx _ => hx

theorem leaves_workCreate (id : TaskId) {parent name : String} (hn : IsComponent name) :
    Leaves True ((workCreate id parent name).runOn .ofStore s t).2 := by
  rw [runOn_workCreate]
  have hcat : (t.record (.createDirectory parent name)).catalog = t.catalog := rfl
  have hshaped := @Store.wellShaped_createDirectory (t.record (.createDirectory parent name))
    h.shaped parent name (.inl hn)
  obtain ⟨hsub, hcases⟩ := (t.record (.createDirectory parent name)).createDirectory_cases parent
    name
  refine leaves_afterInsert h hc (e := .directory (Path.join parent name) t.clock) hshaped hsub ?_
    rfl hn id _
  refine hcases.imp (fun hx => hx) fun ⟨hok, hd, hfree, hins⟩ => ⟨hok, hd, fun x hx => ?_, hins⟩
  have hx : t.catalog.find? (Path.join parent name) = some x := hx
  rw [hcat, Catalog.contains, hx] at hfree
  simp at hfree

theorem leaves_workUpload (id : TaskId) {file : Remote.UploadFile} {directory : String}
    (hn : IsComponent file.name) :
    Leaves True ((workUpload id file directory).runOn .ofStore s t).2 := by
  rw [runOn_workUpload]
  have hshaped := @Store.wellShaped_upload (t.record (.upload file directory)) h.shaped file
    directory hn
  obtain ⟨hsub, hcases⟩ := (t.record (.upload file directory)).upload_cases file directory
  exact leaves_afterInsert h hc (e := .file (Path.join directory file.name)
    (UInt64.ofNat file.data.length) t.clock) hshaped hsub hcases rfl hn id _

end

/-- **A rename** is refused or done. -/
theorem runOn_workRename {τ : Type} (port : Port τ) (id : TaskId) (path newName : String)
    (s : Session) (t : τ) :
    ((workRename id path newName).runOn port s t).2 =
      let snapshot := (beginPatch (.rename path newName) s).1
      let patched := (beginPatch (.rename path newName) s).2
      let answer := port.answer t (.move path (Path.join (Path.parent path) newName))
      match (answer.1 : Except Failure Unit) with
      | .error f => (fail id (s.taskLabel id) f.reason (patched.rollback snapshot), answer.2)
      | .ok _ =>
        let committed := patched.commit snapshot
        ((reconcile committed.1).runOn port (succeed id (s.taskLabel id) committed.2) answer.2).2 := by
  unfold workRename
  generalize Cache.Patch.rename path newName = patch
  generalize Path.join (Path.parent path) newName = destination
  rw [Program.runOn_bind, Program.runOn_get, Program.runOn_bind, Program.runOn_modifyGet]
  refine (congrArg Prod.snd (Program.runOn_request_bind port _ t (.move path destination) _)).trans
    ?_
  generalize port.answer t (.move path destination) = answer
  obtain ⟨r, t'⟩ := answer
  cases r <;> rfl

section
variable {c : Config} {s : Session} {t : Store} (h : Ready c s t)
  (hc : Cache.Mirrors s.cache t.catalog)
include h hc

theorem leaves_workRename (id : TaskId) {path newName : String} (hn : IsComponent newName) :
    Leaves True ((workRename id path newName).runOn .ofStore s t).2 := by
  rw [runOn_workRename]
  have hanswer (destination : String) : Port.ofStore.answer t (.move path destination) =
      (t.record (.move path destination)).move path destination := rfl
  rw [hanswer]
  have hpatch : Cache.Patch.rename path newName =
      .move [(path, Path.join (Path.parent path) newName)] := rfl
  have hdest : (t.catalog.find? path).isSome = true →
      Canonical (Path.join (Path.parent path) newName) := fun hp => by
    obtain ⟨e, he⟩ := Option.isSome_iff_exists.1 hp
    exact Path.canonical_join (h.shaped.tree.canonical path e he).parent hn
  have hcat : (t.record (.move path (Path.join (Path.parent path) newName))).catalog =
    t.catalog := rfl
  have hfaults : (t.record (.move path (Path.join (Path.parent path) newName))).faults =
    t.faults := rfl
  generalize t.record (.move path (Path.join (Path.parent path) newName)) = u at hcat hfaults
  generalize Path.join (Path.parent path) newName = destination at hdest hpatch
  generalize Cache.Patch.rename path newName = patch at hpatch
  have hshaped := @Store.wellShaped_move u (hcat ▸ h.shaped) path destination (hcat ▸ hdest)
  obtain ⟨hsub, hcases⟩ := u.move_cases path destination
  have hfree : (u.move path destination).2.FreeOf .list := fun f hm =>
    h.free f (hfaults ▸ hsub hm)
  have hmov := fun hm hst => @Store.movable_of_moveFailure? u path destination (hdest hst) hm
  rw [hcat] at hcases
  generalize u.move path destination = answer at hshaped hcases hfree
  obtain ⟨r, t'⟩ := answer
  simp only at hshaped hcases hfree ⊢
  rcases hcases with ⟨f, rfl, hsame⟩ | ⟨rfl, hm, hmoved⟩
  · refine ⟨hshaped, hfree, iff_true_intro ?_⟩
    have hback := Cache.get?_takenBack_single h.sound.reachable (path, destination)
    rw [← hpatch] at hback
    show Cache.Mirrors (s.cache.takenBack patch) t'.catalog
    rw [hsame]
    exact (Cache.mirrors_congr hback).2 hc
  · have hmovable := hmov hm (hcat ▸ (Store.moveFailure?_eq_none.1 hm).1)
    rw [hcat] at hmovable
    refine leaves_commit s.cache patch hfree hshaped rfl fun c' hre => iff_true_intro ?_
    subst hpatch
    rw [hmoved] at hre ⊢
    exact @Cache.mirrors_moved s.cache c' t.catalog h.shaped.tree hc (path, destination) hmovable
      hre

end

/-! ## Operations -/

/-- An operation does harm if it leaves the cache of a session that mirrors the store behind. -/
def Harms (s : Session) (t : Store) : Operation → Prop
  | .moveEntries sources destination => (BatchKind.directory destination).Harms sources s t
  | .moveToTrash sources => BatchKind.trash.Harms sources s t
  | .restoreFromTrash names => BatchKind.restore.Harms names s t
  | .deleteEntries paths => DeleteHarms paths s t
  | _ => False

section
variable {c : Config} {s : Session} {t : Store} (h : Ready c s t)
  (hc : Cache.Mirrors s.cache t.catalog)
include h hc

/-- **The work of an operation** leaves the cache as a mirror of the store exactly if the operation
does no harm. -/
theorem leaves_work {operation : Operation} (hp : operation.Proper c) (id : TaskId) :
    Leaves (¬ s.Harms t operation) ((work id operation).runOn .ofStore s t).2 := by
  have htrue : True ↔ ¬ False := by simp
  cases operation with
  | moveEntries sources destination =>
    exact @leaves_workBatch c s t (.directory destination) sources h hc hp id
  | moveToTrash sources => exact @leaves_workBatch c s t .trash sources h hc hp id
  | restoreFromTrash names => exact @leaves_workBatch c s t .restore names h hc hp id
  | deleteEntries paths => exact leaves_workDelete h hc id paths
  | createDirectory parent name => exact (leaves_workCreate h hc id hp).congr htrue
  | rename path newName => exact (leaves_workRename h hc id hp).congr htrue
  | upload file directory => exact (leaves_workUpload h hc id hp).congr htrue

end

/-- Harm depends on the settings and the cache of the session only. -/
theorem harms_congr {s s' : Session} (hconfig : s'.config = s.config) (hcache : s'.cache = s.cache)
    (t : Store) (operation : Operation) : s'.Harms t operation ↔ s.Harms t operation := by
  have hbatch (kind : BatchKind) (sources : List String) :
      kind.Harms sources s' t ↔ kind.Harms sources s t := by
    unfold BatchKind.Harms
    rw [hconfig, hcache, (quiet_prepare kind s.config sources).runOn_eq .ofStore s' s t]
    generalize (kind.prepare s.config sources).runOn .ofStore s t = prepared
    obtain ⟨r, s₁, t₁⟩ := prepared
    cases r with
    | error f => exact Iff.rfl
    | ok plan =>
      simp only
      rw [(BatchOutcome.quiet_ofPlan plan).runOn_eq .ofStore s' s t₁]
  have hdelete (paths : List String) : DeleteHarms paths s' t ↔ DeleteHarms paths s t := by
    unfold DeleteHarms
    rw [hcache]
  cases operation with
  | moveEntries sources destination => exact hbatch _ _
  | moveToTrash sources => exact hbatch _ _
  | restoreFromTrash names => exact hbatch _ _
  | deleteEntries paths => exact hdelete paths
  | _ => exact Iff.rfl

/-! ## Commands -/

/-- The operation that a request carries out, or carries out again. -/
def Request.operation? : Request → Option Operation
  | .perform operation => some operation
  | .rerun _ operation => some operation
  | _ => none

/-- The harm of a request is that of its operation. -/
def Request.Harms (request : Request) (s : Session) (t : Store) : Prop :=
  ∃ operation ∈ request.operation?, s.Harms t operation

/-- The harm of a command is that of the request that it comes to. -/
def Command.Harms (command : Command) (s : Session) (t : Store) : Prop :=
  ∃ request, (accept command s).1 = .ok request ∧ request.Harms s t

section
variable {c : Config} {s : Session} {t : Store} (h : Ready c s t)
  (hc : Cache.Mirrors s.cache t.catalog)
include h hc

theorem leaves_perform {operation : Operation} (hp : operation.Proper c) :
    Leaves (¬ s.Harms t operation) ((perform operation).runOn .ofStore s t).2 := by
  have hbegin : Ready c (beginTask operation s).2 t := ⟨h.sound.beginTask hp, h.shaped, h.free⟩
  have hwork := leaves_work hbegin hc hp (beginTask operation s).1
  rw [@harms_congr s (beginTask operation s).2 rfl rfl t operation] at hwork
  rw [perform, Program.runOn_bind, Program.runOn_modifyGet, Program.runOn_bind]
  exact hwork

omit h hc in
theorem leaves_performAll {files : List Remote.UploadFile} (directory : String)
    (hp : ∀ file ∈ files, IsComponent file.name) {s : Session} {t : Store} (h : Ready c s t)
    (hc : Cache.Mirrors s.cache t.catalog) :
    Leaves True ((performAll (files.map (.upload · directory))).runOn .ofStore s t).2 := by
  induction files generalizing s t with
  | nil => exact ⟨h.shaped, h.free, iff_true_intro hc⟩
  | cons file files ih =>
    obtain ⟨hp, hps⟩ := List.forall_mem_cons.1 hp
    have hone := @leaves_perform c s t h hc (.upload file directory) hp
    have hsound := @sound_perform c s h.sound (.upload file directory) hp _ .ofStore t
    have hrest := ih hps ⟨hsound, hone.shaped, hone.free⟩ (hone.mirrors_iff.2 id)
    rw [List.map_cons, performAll, Program.runOn_bind, Program.runOn_bind]
    exact hrest

theorem leaves_request {request : Request} (hp : request.Proper c) :
    Leaves (¬ request.Harms s t) (request.program.runOn .ofStore s t).2 := by
  unfold Request.Harms
  cases request with
  | load path =>
    obtain ⟨hsame, hm⟩ := mirrors_load path h.free hc
    rw [Request.program, Program.runOn_bind]
    exact .of_same hsame h.shaped h.free (iff_of_true hm (by simp [Request.operation?]))
  | perform operation =>
    rw [Request.program, Program.runOn_bind]
    exact (leaves_perform h hc hp).congr (by simp [Request.operation?])
  | performAll operations =>
    obtain ⟨files, directory, rfl, hfiles⟩ := hp
    rw [Request.program, Program.runOn_bind]
    exact (leaves_performAll directory hfiles h hc).congr (by simp [Request.operation?])
  | rerun id operation =>
    rw [Request.program, Program.runOn_bind]
    exact (leaves_work h hc hp id).congr (by simp [Request.operation?])
  | nothing answer =>
    exact ⟨h.shaped, h.free, iff_of_true hc (by simp [Request.operation?])⟩

/-- **A command** leaves the cache as a mirror of the store exactly if it does no harm. -/
theorem leaves_program {command : Command} (hp : command.Proper) :
    Leaves (¬ command.Harms s t) (command.program.runOn .ofStore s t).2 := by
  obtain ⟨hconfig, hcache⟩ := accept_keeps command s
  have hready : Ready c (accept command s).2 t := ⟨sound_accept h.sound command, h.shaped, h.free⟩
  have hmirrors : Cache.Mirrors (accept command s).2.cache t.catalog := hcache ▸ hc
  unfold Command.Harms
  rw [Command.program, Program.runOn_bind, Program.runOn_modifyGet]
  cases hr : (accept command s).1 with
  | error e => exact ⟨h.shaped, h.free, iff_of_true hmirrors (by simp)⟩
  | ok request =>
    have hrequest := leaves_request hready hmirrors (proper_accept h.sound hp hr)
    refine hrequest.congr (not_congr ?_)
    simp only [Except.ok.injEq, exists_eq_left', Request.Harms, harms_congr hconfig hcache t]

end

end CloudDrive.Session
