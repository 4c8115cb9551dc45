import CloudDrive.Proofs.Cache.Scope
import CloudDrive.Proofs.Distinct
import CloudDrive.Proofs.Program
import CloudDrive.Proofs.Session.Accepted

/-!
# Batches

* `runOn_workBatch`: what a batch does, in terms of its plan and of the outcome of its moves.
* `intoDirectory_ofSources`: what a plan moves.
* `restored_iff`: when a batch of which the port refuses every move leaves the cached listings as
  they were.
-/

namespace CloudDrive

open Path (Canonical IsComponent)
open Remote (Call Failure)

/-! ## Plans -/

namespace MovePlan

/-- The moves of a plan as pairs of paths. -/
def pairs (p : MovePlan) : List (String × String) := p.moves.map fun m => (m.source, m.destination)

theorem toPatch_eq (p : MovePlan) : p.toPatch = .move p.pairs := rfl

theorem sources_ofSources_sublist (sources : List String) (listing : Listing) :
    (ofSources sources listing).sources.Sublist (distinct sources) := by
  simp only [ofSources, MovePlan.sources, List.map_map, Function.comp_def,
    MoveRequest.intoDirectory, List.map_id']
  exact List.filter_sublist

theorem distinct_sublist (sources : List String) : (distinct sources).Sublist sources :=
  sublist_eraseDupsBy _ sources

/-- A plan moves entries of one directory into the listed one, none of them listed there. -/
theorem mem_pairs_ofSources {sources : List String} {listing : Listing} {m : String × String}
    (h : m ∈ (ofSources sources listing).pairs) :
    m.1 ∈ sources ∧ m.2 = Path.join listing.path (Path.name m.1) ∧
      Path.name m.1 ∉ listing.names := by
  simp only [pairs, ofSources, List.map_map, List.mem_map, Function.comp_apply,
    MoveRequest.intoDirectory] at h
  obtain ⟨s, hs, rfl⟩ := h
  obtain ⟨hd, hc⟩ := List.mem_filter.1 hs
  refine ⟨(sublist_eraseDupsBy _ _).subset hd, rfl, fun hn => ?_⟩
  rw [← Listing.contains_iff] at hn
  simp only [conflict?, hn] at hc
  split at hc <;> simp at hc

theorem intoDirectory_ofSources {sources : List String} {listing : Listing} {p : String}
    (hp : Canonical p) (hd : Canonical listing.path)
    (hs : ∀ s ∈ sources, ∃ n, IsComponent n ∧ s = Path.join p n) :
    IntoDirectory p listing.path (ofSources sources listing).pairs := by
  refine ⟨hp, hd, fun m hm => ?_, ?_⟩
  · obtain ⟨hms, hmd, -⟩ := mem_pairs_ofSources hm
    obtain ⟨n, hn, hsn⟩ := hs m.1 hms
    refine ⟨n, hn, Prod.ext hsn ?_⟩
    rw [hmd, hsn, Path.name_join hp hn]
  · have hpw : (distinct sources).Pairwise fun a b => (Path.name b == Path.name a) = false :=
      pairwise_eraseDupsBy _ sources
    simp only [pairs, ofSources, List.map_map, List.pairwise_map]
    refine (hpw.filter _).imp fun h he => ?_
    simp only [Function.comp_apply, MoveRequest.intoDirectory] at he
    simp [he] at h

end MovePlan

/-! ## Runs of batches -/

namespace Session

section
variable (s : Session) (id : TaskId) (label reason : String)

@[simp] theorem cache_prune : s.prune.cache = s.cache := rfl

@[simp] theorem cache_fail : (fail id label reason s).cache = s.cache := rfl

@[simp] theorem cache_succeed : (succeed id label s).cache = s.cache := rfl

@[simp] theorem cache_allSkipped (plan : MovePlan) :
    (allSkipped id label plan s).cache = s.cache := rfl

@[simp] theorem cache_batchRefused (kind : BatchKind) (o : BatchOutcome)
    (snapshot : Cache.Snapshot) :
    (batchRefused id label kind o snapshot s).cache = s.cache.rollback snapshot := rfl

@[simp] theorem cache_deleteRefused (report : Remote.DeleteReport) (snapshot : Cache.Snapshot) :
    (deleteRefused id label report snapshot s).cache = s.cache.rollback snapshot := rfl

end

/-- The operation that a batch of this kind carries out. -/
def BatchKind.operation (kind : BatchKind) (sources : List String) : Operation :=
  match kind with
  | .directory destination => .moveEntries sources destination
  | .trash => .moveToTrash sources
  | .restore => .restoreFromTrash sources

/-- The paths of the sources of a batch. -/
def BatchKind.paths (kind : BatchKind) (c : Config) (sources : List String) : List String :=
  match kind with
  | .restore => Trash.entries c sources
  | _ => sources

/-- The directory that a batch moves into. -/
def BatchKind.target (kind : BatchKind) (c : Config) : String :=
  match kind with
  | .directory destination => destination
  | .trash => c.trashPath
  | .restore => c.rootPath

theorem failedSources_add (o : BatchOutcome) (m : MoveRequest) (r : Except Failure Unit) :
    (o.add m r).failedSources ⊆ o.failedSources ++ [m.source] := by
  cases r with
  | ok _ => exact List.subset_append_left _ _
  | error f => simp [BatchOutcome.add, BatchOutcome.failedSources]

theorem quiet_prepare (kind : BatchKind) (c : Config) (sources : List String) :
    (kind.prepare c sources).Quiet := by
  cases kind with
  | directory destination => exact MovePlan.quiet_prepare _ _ _
  | trash => exact Trash.quiet_prepareTrash _ _ _
  | restore => exact MovePlan.quiet_prepare _ _ _

section
variable {τ : Type} (port : Port τ)

/-- What a batch does once it has a plan with moves. -/
def afterMoves (id : TaskId) (label : String) (kind : BatchKind) (plan : MovePlan) (s : Session)
    (r : BatchOutcome × τ) : Session × τ :=
  let snapshot := (beginPatch plan.toPatch s).1
  let patched := (beginPatch plan.toPatch s).2
  if r.1.isSuccess then
    let done := batchDone id label r.1 snapshot patched
    ((reconcile done.1).runOn port done.2 r.2).2
  else
    let refused := batchRefused id label kind r.1 snapshot patched
    if 0 < r.1.successCount then ((reconcile snapshot.keys).runOn port refused r.2).2
    else (refused, r.2)

/-- **A batch** is given up, skipped as a whole, or goes through its moves. -/
theorem runOn_workBatch (id : TaskId) (sources : List String) (kind : BatchKind) (s : Session)
    (t : τ) :
    ((workBatch id sources kind).runOn port s t).2 =
      let prepared := (kind.prepare s.config sources).runOn port s t
      match prepared.1 with
      | .error f => (fail id (s.taskLabel id) f.reason s, prepared.2.2)
      | .ok plan =>
        if plan.isEmpty then (allSkipped id (s.taskLabel id) plan s, prepared.2.2)
        else
          let r := (BatchOutcome.ofPlan plan).runOn port s prepared.2.2
          afterMoves port id (s.taskLabel id) kind plan s (r.1, r.2.2) := by
  have hstate := (quiet_prepare kind s.config sources).state_runOn port s t
  unfold workBatch
  simp only [Program.runOn_bind, Program.runOn_get]
  cases hp : ((kind.prepare s.config sources).runOn port s t).1 with
  | error f => simp [hstate]
  | ok plan =>
    by_cases he : plan.isEmpty = true
    · simp [he, hstate]
    · have hq := (BatchOutcome.quiet_ofPlan plan (σ := Session)).runOn_eq port
        (beginPatch plan.toPatch s).2 s ((kind.prepare s.config sources).runOn port s t).2.2
      simp only [he, Bool.false_eq_true, if_false, Program.runOn_bind, Program.runOn_modifyGet,
        hstate, hq, afterMoves]
      split
      · simp
      · split <;> simp_all

end

/-! ## Batches of which every move is refused -/

/-- The port refuses every move. -/
def RefusesMoves {τ : Type} (port : Port τ) : Prop :=
  ∀ t source destination, ∃ f, (port.answer t (.move source destination)).1 = .error f

theorem run_of_refusesMoves {τ : Type} {port : Port τ} (h : RefusesMoves port)
    (moves : List MoveRequest) (o : BatchOutcome) (s : Session) (t : τ) :
    ((o.run moves).runOn port s t).1.successCount = o.successCount ∧
      ((o.run moves).runOn port s t).1.failures.length = o.failures.length + moves.length := by
  induction moves generalizing o t with
  | nil => exact ⟨rfl, rfl⟩
  | cons m moves ih =>
    obtain ⟨f, hf⟩ := h t m.source m.destination
    have hadd : o.add m (port.answer t (.move m.source m.destination)).1 =
        { o with failures := o.failures ++ [⟨m.source, f.reason⟩] } := by
      rw [hf]
      rfl
    obtain ⟨h₁, h₂⟩ := ih (o.add m (port.answer t (.move m.source m.destination)).1)
      (port.answer t (.move m.source m.destination)).2
    refine ⟨h₁.trans (by rw [hadd]), h₂.trans ?_⟩
    rw [hadd, List.length_append, List.length_cons, List.length_cons, List.length_nil]
    omega

/-- The kind and the sources of an operation that is a batch. -/
def batch? : Operation → Option (BatchKind × List String)
  | .moveEntries sources destination => some (.directory destination, sources)
  | .moveToTrash sources => some (.trash, sources)
  | .restoreFromTrash names => some (.restore, names)
  | _ => none

theorem work_of_batch? {operation : Operation} {kind : BatchKind} {sources : List String}
    (h : batch? operation = some (kind, sources)) (id : TaskId) :
    work id operation = workBatch id sources kind := by
  cases operation <;> simp_all [batch?, work]

section
variable {τ : Type} (port : Port τ) (s : Session) (t : τ) (kind : BatchKind) (sources : List String)

/-- The plan of a batch, if there is one and it has moves. -/
def plan? : Option MovePlan :=
  match ((kind.prepare s.config sources).runOn port s t).1 with
  | .ok plan => if plan.isEmpty then none else some plan
  | .error _ => none

variable {port}

/-- A batch of which every move is refused leaves the patched cache, taken back. -/
theorem cache_workBatch (h : RefusesMoves port) (id : TaskId) :
    ((workBatch id sources kind).runOn port s t).2.1.cache =
      match plan? port s t kind sources with
      | some plan => (s.cache.apply plan.toPatch).rollback
          (s.cache.begin (s.cache.scopeFor plan.toPatch))
      | none => s.cache := by
  rw [runOn_workBatch]
  unfold plan?
  simp only
  cases ((kind.prepare s.config sources).runOn port s t).1 with
  | error f => rfl
  | ok plan =>
    by_cases he : plan.isEmpty = true
    · simp [he]
    · obtain ⟨h₁, h₂⟩ := run_of_refusesMoves h plan.moves { total := plan.moves.length } s
        ((kind.prepare s.config sources).runOn port s t).2.2
      have hne : plan.moves ≠ [] := by simpa [MovePlan.isEmpty] using he
      have hlen := List.length_pos_iff.2 hne
      simp only [BatchOutcome.ofPlan, BatchOutcome.ofMoves, Program.runOn_bind, Program.pure_eq,
        Program.runOn_done, he, Bool.false_eq_true, if_false, afterMoves]
      rw [if_neg, if_neg]
      · rfl
      · simpa using h₁
      · intro hs
        simp only [BatchOutcome.isSuccess, List.isEmpty_iff] at hs
        rw [hs] at h₂
        simp only [List.length_nil, List.length_nil] at h₂
        omega

end

/-- **A batch that moved nothing.** A command has come to a batch, and the port refuses every move.
The cached listings are as they were before the command exactly if the patch of the plan stays in
its scope. It does if no listing is carried twice. For a plan that moves entries of one directory
into another, at whose destinations nothing was cached, the listings are as they were exactly if the
batch is not tangled: no source with a cached directory at or beneath it comes before a source that
holds the destination. -/
theorem restored_iff {τ : Type} {port : Port τ} (hport : RefusesMoves port) {s : Session}
    (hs : s.cache.Reachable) (t : τ) {command : Command} {operation : Operation} {kind : BatchKind}
    {sources : List String} (hop : (accept command s).1 = .ok (.perform operation))
    (hb : batch? operation = some (kind, sources)) :
    let after := (command.program.runOn port s t).2.1.cache
    let restored := ∀ key, after.get? key = s.cache.get? key
    (restored ↔ ∀ plan ∈ plan? port s t kind sources, ∀ key ∉ s.cache.touchedBy plan.toPatch,
        (s.cache.apply plan.toPatch).get? key = s.cache.get? key) ∧
      ∀ plan ∈ plan? port s t kind sources,
        (¬ s.cache.CarriesTwice plan.pairs → restored) ∧
          ∀ p, IntoDirectory p plan.destination plan.pairs → s.cache.HasCanonicalKeys →
            (∀ m ∈ plan.pairs, ∀ key, (s.cache.get? key).isSome = true →
              Path.isWithin key m.2 = false) →
            (restored ↔ ¬ s.cache.Tangled plan.destination plan.pairs) := by
  intro after restored
  obtain ⟨hconfig, hcache⟩ := accept_keeps command s
  -- the run is that of the batch, in a session with the same settings and cache
  obtain ⟨id, s', hconfig', hcache', hafter⟩ : ∃ id s', s'.config = s.config ∧
      s'.cache = s.cache ∧ after = ((workBatch id sources kind).runOn port s' t).2.1.cache := by
    refine ⟨(beginTask operation (accept command s).2).1, (beginTask operation (accept command s).2).2,
      hconfig, hcache, ?_⟩
    show (command.program.runOn port s t).2.1.cache = _
    unfold Command.program
    simp only [Program.runOn_bind, Program.runOn_modifyGet, hop, Request.program, perform,
      work_of_batch? hb]
    rfl
  have hplan : plan? port s' t kind sources = plan? port s t kind sources := by
    unfold plan?
    rw [hconfig', (quiet_prepare kind s.config sources).runOn_eq port s' s t]
  rw [cache_workBatch s' t kind sources hport id, hplan, hcache'] at hafter
  have hiff : restored ↔ ∀ plan ∈ plan? port s t kind sources,
      ∀ key ∉ s.cache.touchedBy plan.toPatch,
        (s.cache.apply plan.toPatch).get? key = s.cache.get? key := by
    show (∀ key, after.get? key = s.cache.get? key) ↔ _
    cases hp : plan? port s t kind sources with
    | none => simp [hafter, hp]
    | some plan =>
      simp only [Option.mem_def, Option.some.injEq, forall_eq']
      refine forall_congr' fun key => ?_
      rw [hafter, hp, Cache.get?_rollback_apply hs]
      split
      · next hk => simp [hk]
      · next hk => simp [hk]
  refine ⟨hiff, fun plan hp => ?_⟩
  have hiff : restored ↔ ∀ key ∉ s.cache.touchedBy plan.toPatch,
      (s.cache.apply plan.toPatch).get? key = s.cache.get? key := by
    rw [hiff, Option.mem_def.1 hp]
    simp
  have hone : ¬ s.cache.CarriesTwice plan.pairs → restored := fun h =>
    hiff.2 fun key hk => Cache.get?_apply_of_not_touched h hk
  refine ⟨hone, fun p hm hcan hfree => ⟨fun hr ht => ?_, fun ht => ?_⟩⟩
  · obtain ⟨key, hk, hnone, hsome, -⟩ := Cache.exists_ghost hm hcan hfree ht
    have := hiff.1 hr key hk
    rw [MovePlan.toPatch_eq] at this
    rw [this, hnone] at hsome
    cases hsome
  · exact hone (Cache.not_carriesTwice hm hcan hfree ht)

/-- Two directories, one of them with a directory. -/
def nestedCatalog : Store.Catalog :=
  .ofEntries [.directory "/a" default, .directory "/b" default, .directory "/b/c" default]

/-- A fresh session that has visited `/a` and the root, where it has selected some names. -/
def nestedSession (selected : List String) : Session :=
  let store := Store.ofCatalog nestedCatalog default
  let visit (path : String) (s : Session) : Session :=
    ((Command.navigate path).program.runOn .ofStore s store).2.1
  { visit "/" (visit "/a" (.start {} default)) with
    selection := Selection.empty.selectAll selected }

/-- A store that refuses every move. -/
def refusingPort : Port Store where
  answer s
    | .move _ _ => (.error ⟨.server, "refused"⟩, s)
    | c => (s.record c).answer c

theorem refusesMoves_refusingPort : RefusesMoves refusingPort :=
  fun _ _ _ => ⟨⟨.server, "refused"⟩, rfl⟩

theorem reachable_nestedSession (selected : List String) :
    (nestedSession selected).cache.Reachable := by
  refine ⟨[.insert (.ofEntries "/a" []),
    .insert (.ofEntries "/" [.directory "/a" default, .directory "/b" default])], ?_⟩
  show (nestedSession []).cache = _
  decide

/-- The cache after the refused move of the selected names into `/b/c`. -/
def cacheAfterRefusal (selected : List String) : Cache :=
  ((Command.moveTo "/b/c").program.runOn refusingPort (nestedSession selected)
    (.ofCatalog nestedCatalog default)).2.1.cache

/-- If `b` is selected before `a`, the refused batch leaves the cache as it was. -/
theorem restored_iff_untangled :
    ¬ (nestedSession ["b", "a"]).cache.Tangled "/b/c" [("/b", "/b/c/b"), ("/a", "/b/c/a")] ∧
      ∀ key, (cacheAfterRefusal ["b", "a"]).get? key =
        (nestedSession ["b", "a"]).cache.get? key := by
  have ht : ¬ (nestedSession ["b", "a"]).cache.Tangled "/b/c"
      [("/b", "/b/c/b"), ("/a", "/b/c/a")] := by decide
  have hm : IntoDirectory "/" "/b/c" [("/b", "/b/c/b"), ("/a", "/b/c/a")] := by
    refine ⟨by decide, by decide, fun m hm => ⟨Path.name m.1, ?_⟩, by decide⟩
    revert m
    decide
  have hfree : ∀ m ∈ [("/b", "/b/c/b"), ("/a", "/b/c/a")], ∀ key,
      ((nestedSession ["b", "a"]).cache.get? key).isSome = true →
        Path.isWithin key m.2 = false := by
    intro m hm key hk
    rw [← Cache.mem_keys_iff] at hk
    revert m key
    decide
  obtain ⟨-, h⟩ := @restored_iff Store refusingPort refusesMoves_refusingPort
    (nestedSession ["b", "a"]) (reachable_nestedSession ["b", "a"])
    (.ofCatalog nestedCatalog default) (.moveTo "/b/c") (.moveEntries ["/b", "/a"] "/b/c")
    (.directory "/b/c") ["/b", "/a"] (by decide) rfl
  obtain ⟨-, h⟩ := h ⟨"/b/c", [⟨"/b", "/b/c/b"⟩, ⟨"/a", "/b/c/a"⟩], []⟩ (by decide)
  exact ⟨ht, (h "/" hm (by decide) hfree).2 ht⟩

/-- If `a` is selected before `b`, the refused batch leaves a listing of `/b/c/b/c/a` behind, where
nothing has ever been. Each cached listing held only entries of its directory before. -/
theorem refused_batch_leaves_ghost :
    let s := nestedSession ["a", "b"]
    RefusesMoves refusingPort ∧ s.cache.Reachable ∧
      (∀ key ∈ s.cache.keys, ∀ l ∈ s.cache.get? key, ∀ e ∈ l.entries, Path.parent e.path = key) ∧
      (accept (.moveTo "/b/c") s).1 = .ok (.perform (.moveEntries ["/a", "/b"] "/b/c")) ∧
      s.cache.get? "/b/c/b/c/a" = none ∧
      ((cacheAfterRefusal ["a", "b"]).get? "/b/c/b/c/a").isSome = true := by
  refine ⟨refusesMoves_refusingPort, reachable_nestedSession ["a", "b"], ?_, ?_, ?_, ?_⟩ <;>
    decide +kernel

end Session

end CloudDrive
