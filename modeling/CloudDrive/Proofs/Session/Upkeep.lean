import CloudDrive.Proofs.Crowd
import CloudDrive.Proofs.Ledger
import CloudDrive.Proofs.Session.Batch

/-!
# What the work behind a command keeps

The work for an operation does only a few things to a session: it patches the cache, and settles the
patch or takes it back; it takes in listings; it reports. Terms that each of these keeps (`Upkeep`),
and that allow the calls, the patches and the retries of an operation (`Allows`), are kept by the
whole work, whatever it hears and whatever happens in between.

* `Operation.Issues`, `Plans`: the calls of an operation, and the moves that it may plan.
* `Upkeep.work_bind`: the work for one operation. * `Upkeep.program`: a whole command.
-/

namespace CloudDrive

open Remote (Call Failure)

/-- The calls that belong to an operation, besides listings. -/
def Operation.Issues (c : Config) : Operation → Call → Prop
  | .moveEntries sources destination, .move source target =>
    source ∈ sources ∧ target = Path.join destination (Path.name source)
  | .moveToTrash sources, .move source target =>
    source ∈ sources ∧ target = Path.join c.trashPath (Path.name source)
  | .moveToTrash _, .createDirectory parent name => parent = c.trashParent ∧ name = c.trashName
  | .restoreFromTrash names, .move source target =>
    source ∈ Trash.entries c names ∧ target = Path.join c.rootPath (Path.name source)
  | .deleteEntries paths, .delete paths' => paths' = paths
  | .createDirectory parent name, .createDirectory parent' name' => parent' = parent ∧ name' = name
  | .rename path newName, .move source target =>
    source = path ∧ target = Path.join (Path.parent path) newName
  | .upload file directory, .upload file' directory' => file' = file ∧ directory' = directory
  | _, _ => False

namespace Session

/-- The operations that the work of a request carries out. -/
def Request.operations : Request → List Operation
  | .perform operation => [operation]
  | .performAll operations => operations
  | .rerun _ operation => [operation]
  | _ => []

/-- A move that an operation may make: a batch plans its moves from a listing that has come. -/
inductive Plans (comes : (call : Call) → call.Reply → Prop) (c : Config) (operation : Operation) :
    String × String → Prop where
  | batch (kind : BatchKind) (sources : List String) (listing : Listing) (move : String × String)
      (hkind : operation = kind.operation sources)
      (hcomes : comes (.list (kind.target c)) (.ok listing))
      (hmove : move ∈ (MovePlan.ofSources (kind.paths c sources) listing).pairs) :
      Plans comes c operation move
  | rename (path newName : String) (hrename : operation = .rename path newName) :
      Plans comes c operation (path, Path.join (Path.parent path) newName)

variable {ι α : Type}

/-- What the work does to a session keeps the terms, as far as that does not depend on the operation.
What retries would run has the property `P`, and a snapshot is `kept` until it is taken back. -/
structure Upkeep (T : Terms Session ι α) (label : ι) (P : Operation → Prop)
    (kept : Cache.Snapshot → Prop) : Prop where
  retries : ∀ {s}, T.holds s → s.ledger.Retries P
  deletion : ∀ paths, P (.deleteEntries paths)
  report : ∀ s {ledger : Ledger} (notice : Option Notice), T.holds s → ledger.Retries P →
    T.holds { s with ledger, notice }
  /-- How a load is going is not what the terms are about. -/
  loads : ∀ s (generation : Nat) (loading : Bool) (loadError : Option String)
    (notice : Option Notice), T.holds s → T.holds { s with generation, loading, loadError, notice }
  insert : ∀ {s path listing}, T.holds s → T.comes (.list path) (.ok listing) →
    T.holds { s with cache := s.cache.insert listing }
  prune : ∀ {s}, T.holds s → T.holds s.prune
  remove : ∀ {s} paths, T.holds s →
    kept (s.beginPatch (.remove paths)).1 ∧ T.holds (s.beginPatch (.remove paths)).2
  commit : ∀ {s} snapshot, T.holds s → T.holds (s.commit snapshot).2
  rollback : ∀ {s snapshot}, T.holds s → kept snapshot → T.holds (s.rollback snapshot)
  lists : ∀ {path policy attempt n last s₀ s} {g : Except Failure Listing → Program Session α},
    T.does label last s₀ s ((Remote.listFrom path policy attempt n).bind g)
  sleeps : ∀ {duration last s₀ s} {p : Program Session α},
    T.does label last s₀ s (.sleep duration p)
  ends : ∀ {last s₀ s} (a : α), T.does label last s₀ s (.done a)

/-- The terms allow what an operation does under some settings. -/
structure Allows (T : Terms Session ι α) (label : ι) (P : Operation → Prop)
    (kept : Cache.Snapshot → Prop) (c : Config) (operation : Operation) : Prop where
  call : ∀ {call : Call} {last s₀ s} {g : call.Reply → Program Session α},
    operation.Issues c call → T.does label last s₀ s (Program.request call >>= g)
  move : ∀ {move last s₀ s} {g : Except Failure Unit → Program Session α},
    Plans T.comes c operation move →
      T.does label last s₀ s (Program.request (.move move.1 move.2) >>= g)
  patch : ∀ {moves s}, (∀ move ∈ moves, Plans T.comes c operation move) → T.holds s →
    kept (s.beginPatch (.move moves)).1 ∧ T.holds (s.beginPatch (.move moves)).2
  retry : ∀ {kind : BatchKind} {sources failed}, operation = kind.operation sources →
    failed ⊆ kind.paths c sources → P (kind.retry failed)

/-! ## Single changes -/

section
variable {T : Terms Session ι α} {label : ι} {P : Operation → Prop} {kept : Cache.Snapshot → Prop}
  (hu : Upkeep T label P kept) {s : Session} (hs : T.holds s)
include hu hs

theorem Upkeep.beginTask {operation : Operation} (hp : P operation) :
    T.holds (s.beginTask operation).2 :=
  hu.report s s.notice hs ((hu.retries hs).start hp _ _)

theorem Upkeep.succeed (id : TaskId) (text : String) : T.holds (succeed id text s) :=
  hu.report s _ hs ((hu.retries hs).complete id none s.clock)

theorem Upkeep.fail (id : TaskId) (text reason : String) : T.holds (fail id text reason s) :=
  hu.report s _ hs ((hu.retries hs).fail id reason s.clock)

theorem Upkeep.failPartly (id : TaskId) (text reason summary : String) {retry : Operation}
    (hp : P retry) : T.holds (failPartly id text reason summary retry s) :=
  hu.report s _ hs ((((hu.retries hs).fail id reason s.clock).setSummary id summary).setRetry hp id)

theorem Upkeep.allSkipped (id : TaskId) (text : String) (plan : MovePlan) :
    T.holds (allSkipped id text plan s) :=
  hu.report s _ hs ((hu.retries hs).complete id _ s.clock)

theorem Upkeep.batchDone (id : TaskId) (text : String) (o : BatchOutcome)
    (snapshot : Cache.Snapshot) : T.holds (batchDone id text o snapshot s).2 :=
  hu.report (s.commit snapshot).2 _ (hu.commit snapshot hs) ((hu.retries hs).complete id _ s.clock)

theorem Upkeep.deleteDone (id : TaskId) (report : Remote.DeleteReport)
    (snapshot : Cache.Snapshot) : T.holds (deleteDone id report snapshot s).2 :=
  hu.report (s.commit snapshot).2 _ (hu.commit snapshot hs) ((hu.retries hs).complete id _ s.clock)

theorem Upkeep.refetched {path : String} {r : Except Failure Listing}
    (hr : T.comes (.list path) r) : T.holds (refetched r s) := by
  cases r with
  | ok listing => exact hu.insert hs hr
  | error e => exact hs

theorem Upkeep.loaded (generation : Nat) {path : String} {listing : Listing}
    (hl : T.comes (.list path) (.ok listing)) : T.holds (loaded generation listing s) := by
  have hinserted := hu.insert hs hl
  unfold Session.loaded
  simp only
  split
  · exact hu.prune (hu.loads _ s.generation false none s.notice hinserted)
  · exact hinserted

theorem Upkeep.loadFailed (generation : Nat) (path : String) (e : Failure) :
    T.holds (loadFailed generation path e s) := by
  unfold Session.loadFailed
  split
  · exact hu.loads s s.generation false (some e.reason) _ hs
  · exact hs

end

/-! ## Work -/

section
variable {T : Terms Session ι α} {label : ι} {P : Operation → Prop} {kept : Cache.Snapshot → Prop}
  (hu : Upkeep T label P kept) {last : Option Exchange} {s₀ s : Session}

include hu in
theorem Upkeep.list_bind {path : String} {policy : RetryPolicy}
    {g : Except Failure Listing → Program Session α} (hs : T.holds s)
    (hg : ∀ r, T.comes (.list path) r → ∀ s, T.holds s →
      (g r).Obeys T label (some (.reply (.list path) r)) s s) :
    (Remote.list path policy >>= g).Obeys T label last s₀ s :=
  Program.obeys_list_bind hs (fun _ _ => hu.lists) (fun _ _ _ _ => hu.lists)
    (fun _ _ _ _ _ => hu.sleeps) hg

section
variable {c : Config} {operation : Operation} (ha : Allows T label P kept c operation)
include ha

theorem Allows.request_bind (call : Call) (hcall : operation.Issues c call)
    {g : call.Reply → Program Session α} (hs : T.holds s)
    (hg : ∀ r s, T.holds s → (g r).Obeys T label (some (.reply call r)) s s) :
    (Program.request call >>= g).Obeys T label last s₀ s :=
  Program.obeys_request_bind.2 ⟨hs, ha.call hcall, fun r _ s => hg r s⟩

/-- The moves of a batch: what fails is among their sources. -/
theorem Allows.run_bind {paths : List String} {moves : List MoveRequest}
    (hm : ∀ m ∈ moves, Plans T.comes c operation (m.source, m.destination) ∧ m.source ∈ paths)
    {o : BatchOutcome} (ho : o.failedSources ⊆ paths) {g : BatchOutcome → Program Session α}
    {x : Exchange} (hs : T.holds s)
    (hg : ∀ o : BatchOutcome, o.failedSources ⊆ paths →
      ∀ x s₀ s, T.holds s → (g o).Obeys T label (some x) s₀ s) :
    (o.run moves >>= g).Obeys T label (some x) s₀ s := by
  induction moves generalizing o x s₀ s with
  | nil => exact hg o ho x s₀ s hs
  | cons m moves ih =>
    obtain ⟨⟨hplans, hsource⟩, hmoves⟩ := List.forall_mem_cons.1 hm
    unfold BatchOutcome.run
    rw [bind_assoc]
    refine Program.obeys_request_bind.2 ⟨hs, ha.move hplans, fun r _ s hs => ?_⟩
    refine ih hmoves (List.Subset.trans (failedSources_add o m r) ?_) hs
    exact List.append_subset.2 ⟨ho, List.cons_subset.2 ⟨hsource, List.nil_subset _⟩⟩

end

theorem plans_ofSources {c : Config} {kind : BatchKind} {sources : List String} {listing : Listing}
    (hcomes : T.comes (.list (kind.target c)) (.ok listing)) :
    ∀ m ∈ (MovePlan.ofSources (kind.paths c sources) listing).moves,
      Plans T.comes c (kind.operation sources) (m.source, m.destination) ∧
        m.source ∈ kind.paths c sources := by
  intro m hm
  have hpair : (m.source, m.destination) ∈
      (MovePlan.ofSources (kind.paths c sources) listing).pairs := List.mem_map_of_mem hm
  exact ⟨.batch kind sources listing _ rfl hcomes hpair, (MovePlan.mem_pairs_ofSources hpair).1⟩

theorem Upkeep.prepare_bind (hu : Upkeep T label P kept) {c : Config} {kind : BatchKind}
    {sources : List String} (ha : Allows T label P kept c (kind.operation sources))
    {g : Except Failure MovePlan → Program Session α} (hs : T.holds s)
    (hok : ∀ listing, T.comes (.list (kind.target c)) (.ok listing) → ∀ x s, T.holds s →
      (g (.ok (.ofSources (kind.paths c sources) listing))).Obeys T label (some x) s s)
    (herr : ∀ e x s, T.holds s → (g (.error e)).Obeys T label (some x) s s) :
    (kind.prepare c sources >>= g).Obeys T label last s₀ s := by
  have hplan : ∀ (last : Option Exchange) (s₀ s : Session), T.holds s →
      (MovePlan.prepare c.readRetry (kind.paths c sources) (kind.target c) >>= g).Obeys T label
        last s₀ s := by
    intro last s₀ s hs
    unfold MovePlan.prepare
    rw [bind_assoc]
    refine hu.list_bind hs fun r hr s hs => ?_
    cases r with
    | ok listing => exact hok listing hr _ s hs
    | error e => exact herr e _ s hs
  cases kind with
  | directory d => exact hplan last s₀ s hs
  | restore => exact hplan last s₀ s hs
  | trash =>
    -- the trash is created first; that it exists already is no failure
    simp only [BatchKind.prepare, Trash.prepareTrash, Trash.ensure, bind_assoc]
    refine ha.request_bind (.createDirectory c.trashParent c.trashName) ⟨rfl, rfl⟩ hs
      fun r s hs => ?_
    cases r with
    | ok _ => exact hplan _ s s hs
    | error e =>
      simp only [pure_bind]
      by_cases he : e.isAlreadyExists = true
      · rw [if_pos he]
        exact hplan _ s s hs
      · rw [if_neg he]
        exact herr e _ s hs

variable {f : Unit → Program Session α}
  (hend : ∀ x s₀ s, T.holds s → (f ()).Obeys T label (some x) s₀ s)
include hu hend

theorem Upkeep.reconcile_bind (hs : T.holds s) (keys : List String) {x : Exchange} :
    (reconcile keys >>= f).Obeys T label (some x) s₀ s := by
  unfold reconcile
  rw [bind_assoc]
  induction keys generalizing x s₀ s with
  | nil => exact hend x s₀ _ (hu.prune hs)
  | cons key keys ih =>
    unfold refetch
    rw [bind_assoc, Program.obeys_get_bind]
    split
    · rw [bind_assoc]
      exact hu.list_bind hs fun r hr s hs => ih (hu.refetched hs hr)
    · exact ih hs

variable (hs : T.holds s)
include hs

/-- **A batch.** -/
theorem Upkeep.workBatch_bind (id : TaskId) (kind : BatchKind) {sources : List String}
    (ha : Allows T label P kept s.config (kind.operation sources)) :
    (workBatch id sources kind >>= f).Obeys T label last s₀ s := by
  unfold workBatch
  rw [bind_assoc, Program.obeys_get_bind, bind_assoc]
  refine hu.prepare_bind ha hs (fun listing hcomes x s' hs' => ?_)
    fun e x s' hs' => hend _ _ _ (hu.fail hs' id _ _)
  have hplans := @plans_ofSources _ _ T s.config kind sources listing hcomes
  generalize MovePlan.ofSources (kind.paths s.config sources) listing = plan at hplans ⊢
  simp only
  split
  · exact hend _ _ _ (hu.allSkipped hs' id _ plan)
  · rw [bind_assoc, Program.obeys_modifyGet_bind]
    have hpairs : ∀ move ∈ plan.pairs, Plans T.comes s.config (kind.operation sources) move := by
      intro move hmove
      obtain ⟨m, hm, rfl⟩ := List.mem_map.1 hmove
      exact (hplans m hm).1
    obtain ⟨hkept, hpatched⟩ := ha.patch hpairs hs'
    rw [← MovePlan.toPatch_eq] at hkept hpatched
    generalize s'.beginPatch plan.toPatch = patched at hkept hpatched ⊢
    simp only [BatchOutcome.ofPlan, BatchOutcome.ofMoves, bind_assoc]
    refine ha.run_bind hplans (List.nil_subset _) hpatched fun o ho x s₀ s'' hs'' => ?_
    simp only [pure_bind]
    split
    · rw [bind_assoc, Program.obeys_modifyGet_bind]
      exact hu.reconcile_bind hend (hu.batchDone hs'' id _ _ _) _
    · rw [bind_assoc, Program.obeys_modify_bind]
      have htaken := hu.rollback hs'' hkept
      split
      · exact hu.reconcile_bind hend (hu.failPartly htaken id _ _ _ (ha.retry rfl ho)) _
      · exact hend _ _ _ (hu.failPartly htaken id _ _ _ (ha.retry rfl ho))

/-- **A deletion.** -/
theorem Upkeep.workDelete_bind (id : TaskId) {paths : List String}
    (ha : Allows T label P kept s.config (.deleteEntries paths)) :
    (workDelete id paths >>= f).Obeys T label last s₀ s := by
  unfold workDelete
  rw [bind_assoc, Program.obeys_get_bind, bind_assoc, Program.obeys_modifyGet_bind, bind_assoc]
  obtain ⟨hkept, hpatched⟩ := hu.remove paths hs
  generalize s.beginPatch (.remove paths) = patched at hkept hpatched ⊢
  refine ha.request_bind (.delete paths) rfl hpatched fun r s' hs' => ?_
  have htaken := hu.rollback hs' hkept
  cases r with
  | error e => exact hend _ _ _ (hu.fail (hu.prune htaken) id _ _)
  | ok report =>
    simp only
    split
    · rw [bind_assoc, Program.obeys_modifyGet_bind]
      exact hu.reconcile_bind hend (hu.deleteDone hs' id report _) _
    · rw [bind_assoc, Program.obeys_modify_bind]
      have hrefused : T.holds (deleteRefused id (s.taskLabel id) report patched.1 s') :=
        hu.failPartly htaken id _ _ _ (hu.deletion _)
      split
      · exact hend _ _ _ (hu.prune hrefused)
      · exact hu.reconcile_bind hend hrefused _

/-- **A creation or an upload.** -/
theorem Upkeep.workInsert_bind (id : TaskId) {operation : Operation}
    (ha : Allows T label P kept s.config operation) (call : Call) (directory : String)
    (hcall : operation.Issues s.config call) :
    (workInsert id call directory >>= f).Obeys T label last s₀ s := by
  unfold workInsert
  rw [bind_assoc, Program.obeys_get_bind, bind_assoc]
  refine ha.request_bind call hcall hs fun r s' hs' => ?_
  cases r with
  | ok _ => exact hu.reconcile_bind hend (hu.succeed hs' id _) _
  | error e => exact hend _ _ _ (hu.fail hs' id _ _)

/-- **A renaming.** -/
theorem Upkeep.workRename_bind (id : TaskId) {path newName : String}
    (ha : Allows T label P kept s.config (.rename path newName)) :
    (workRename id path newName >>= f).Obeys T label last s₀ s := by
  have hplans : Plans T.comes s.config (.rename path newName)
      (path, Path.join (Path.parent path) newName) := .rename path newName rfl
  unfold workRename
  rw [bind_assoc, Program.obeys_get_bind, bind_assoc, Program.obeys_modifyGet_bind, bind_assoc]
  obtain ⟨hkept, hpatched⟩ := ha.patch (List.forall_mem_singleton.2 hplans) hs
  change kept (s.beginPatch (.rename path newName)).1 at hkept
  change T.holds (s.beginPatch (.rename path newName)).2 at hpatched
  generalize s.beginPatch (.rename path newName) = patched at hkept hpatched ⊢
  refine Program.obeys_request_bind.2 ⟨hpatched, ha.move hplans, fun r _ s' hs' => ?_⟩
  cases r with
  | ok _ =>
    simp only
    rw [bind_assoc, Program.obeys_modifyGet_bind, bind_assoc, Program.obeys_modify_bind]
    exact hu.reconcile_bind hend (hu.succeed (hu.commit patched.1 hs') id _) _
  | error e =>
    simp only
    rw [Program.obeys_modify_bind]
    exact hend _ _ _ (hu.fail (hu.rollback hs' hkept) id _ _)

/-- **The work for an operation** keeps terms that allow it. -/
theorem Upkeep.work_bind (id : TaskId) {operation : Operation}
    (ha : Allows T label P kept s.config operation) :
    (work id operation >>= f).Obeys T label last s₀ s := by
  cases operation with
  | moveEntries sources destination =>
    exact hu.workBatch_bind hend hs id (.directory destination) ha
  | moveToTrash sources => exact hu.workBatch_bind hend hs id .trash ha
  | restoreFromTrash names => exact hu.workBatch_bind hend hs id .restore ha
  | deleteEntries paths => exact hu.workDelete_bind hend hs id ha
  | createDirectory parent name =>
    rw [work_createDirectory]
    exact hu.workInsert_bind hend hs id ha (.createDirectory parent name) parent ⟨rfl, rfl⟩
  | rename path newName => exact hu.workRename_bind hend hs id ha
  | upload file directory =>
    rw [work_upload]
    exact hu.workInsert_bind hend hs id ha (.upload file directory) directory ⟨rfl, rfl⟩

end

/-! ## Commands -/

section
variable {T : Terms Session ι α} {label : ι} {P : Operation → Prop} {kept : Cache.Snapshot → Prop}
  (hu : Upkeep T label P kept) {last : Option Exchange} {s₀ s : Session}
include hu

/-- **Several operations**, one after another. -/
theorem Upkeep.performAll_bind {operations : List Operation}
    (hops : ∀ operation ∈ operations, P operation ∧
      ∀ s, T.holds s → Allows T label P kept s.config operation)
    {g : List TaskId → Program Session α} (hs : T.holds s)
    (hg : ∀ ids last s₀ s, T.holds s → (g ids).Obeys T label last s₀ s) :
    (performAll operations >>= g).Obeys T label last s₀ s := by
  induction operations generalizing g last s₀ s with
  | nil => exact hg [] last s₀ s hs
  | cons operation operations ih =>
    obtain ⟨⟨hp, ha⟩, hops⟩ := List.forall_mem_cons.1 hops
    simp only [performAll, perform, bind_assoc, pure_bind, Program.obeys_modifyGet_bind]
    have hbegun := hu.beginTask hs hp
    exact hu.work_bind (fun x s₀ s hs => ih hops hs fun ids => hg _) hbegun _ (ha _ hbegun)

end

/-- **A command** keeps the terms, if its check does and comes to operations that they allow. -/
theorem Upkeep.program {T : Terms Session ι (Except SessionError Answer)} {label : ι}
    {P : Operation → Prop} {kept : Cache.Snapshot → Prop} (hu : Upkeep T label P kept)
    {command : Command} {last : Option Exchange} {s₀ s : Session}
    (hs : T.holds (accept command s).2)
    (hops : ∀ request, (accept command s).1 = .ok request → ∀ operation ∈ request.operations,
      P operation ∧ ∀ s, T.holds s → Allows T label P kept s.config operation) :
    command.program.Obeys T label last s₀ s := by
  unfold Command.program
  rw [Program.obeys_modifyGet_bind]
  cases hr : (accept command s).1 with
  | error e => exact ⟨hs, hu.ends _⟩
  | ok request =>
    have hops := hops request hr
    cases request with
    | load path =>
      simp only [Request.program, load, fetch, bind_assoc, Program.obeys_modifyGet_bind,
        Program.obeys_get_bind]
      have hbegun : T.holds (accept command s).2.beginLoad.2 := hu.loads _ _ _ _ _ hs
      refine hu.list_bind hbegun fun r hr s' hs' => ?_
      cases r with
      | ok listing =>
        simp only [bind_assoc, pure_bind, Program.obeys_modify_bind]
        exact ⟨hu.loaded hs' _ hr, hu.ends _⟩
      | error e =>
        simp only [bind_assoc, pure_bind, Program.obeys_modify_bind]
        exact ⟨hu.loadFailed hs' _ _ _, hu.ends _⟩
    | perform operation =>
      obtain ⟨hp, ha⟩ := hops operation (List.mem_singleton_self _)
      simp only [Request.program, perform, bind_assoc, pure_bind, Program.obeys_modifyGet_bind]
      have hbegun := hu.beginTask hs hp
      refine hu.work_bind (fun _ _ _ hs => ?_) hbegun _ (ha _ hbegun)
      exact ⟨hs, hu.ends _⟩
    | performAll operations =>
      exact hu.performAll_bind hops hs fun _ _ _ _ hs => ⟨hs, hu.ends _⟩
    | rerun id operation =>
      obtain ⟨-, ha⟩ := hops operation (List.mem_singleton_self _)
      refine hu.work_bind (fun _ _ _ hs => ?_) hs id (ha _ hs)
      exact ⟨hs, hu.ends _⟩
    | nothing answer => exact ⟨hs, hu.ends _⟩

end Session

end CloudDrive
