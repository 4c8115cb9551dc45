import CloudDrive.Proofs.Cache.Names
import CloudDrive.Proofs.Session.Accepted
import CloudDrive.Proofs.Session.Held
import CloudDrive.Proofs.Session.Turns
import CloudDrive.Proofs.Session.Upkeep

/-!
# Names of entries

As long as the listings of the store name entries by components, so does whatever a session holds:
its selection, its cached listings, and what its tasks would move or restore (`Session.WellNamed`).
That is so however commands overlap, and whatever else the store answers.

* `wellNamed_accept`, `wellNamed_of_accept`: so does what a check lets through.
* `upkeep_naming`, `allows_naming`: the steps of the work for an operation that it lets through.
* `upheld_naming`: every command keeps a session well-named.
-/

namespace CloudDrive

open Path (IsComponent)
open Remote (Call)

/-- What is moved, restored or renamed has a component as its name. -/
def Operation.WellNamed : Operation → Prop
  | .moveEntries sources _ => ∀ s ∈ sources, IsComponent (Path.name s)
  | .moveToTrash sources => ∀ s ∈ sources, IsComponent (Path.name s)
  | .restoreFromTrash names => ∀ n ∈ names, IsComponent n
  | .rename _ newName => IsComponent newName
  | _ => True

/-- A listing that is told is well-named. -/
def TellsNames : (call : Call) → call.Reply → Prop
  | .list _, .ok listing => listing.WellNamed
  | _, _ => True

theorem tellsNames_ofStore {t : Store} (h : ∀ e ∈ t.catalog.entries, IsComponent e.name)
    (call : Call) : TellsNames call (Service.ofStore.answer t call).1 := by
  cases call with
  | list path =>
    show TellsNames (.list path) (t.list path).1
    have hcatalog := t.catalog_takeFault .list (some path)
    unfold Store.list
    split
    · trivial
    · next hfault =>
      rw [hfault] at hcatalog
      split
      · trivial
      · intro e he
        have hchild := (List.mem_filter.1 he).1
        exact h e (by rwa [← hcatalog])
  | _ => trivial

namespace Session

/-- Every name that the session deals with is a component. -/
structure WellNamed (s : Session) : Prop where
  held : ∀ n ∈ s.held, IsComponent n
  cache : s.cache.WellNamed
  retries : s.ledger.Retries (·.WellNamed)

/-- Commands keep a session well-named if listings are. -/
def naming : Terms Session Start (Except SessionError Answer) where
  holds := WellNamed
  comes := TellsNames
  does _ _ _ _ _ := True

theorem wellNamed_start (c : Config) (now : Instant) : WellNamed (start c now) :=
  ⟨fun _ hn => absurd hn List.not_mem_nil, Cache.wellNamed_empty,
    fun _ ht => absurd ht List.not_mem_nil⟩

/-! ## Well-named sessions -/

section
variable {s : Session} (h : WellNamed s)
include h

theorem WellNamed.prune : WellNamed s.prune :=
  ⟨fun n hn => h.held n (s.held_prune hn), h.cache, h.retries⟩

theorem WellNamed.recache {cache : Cache} (hc : cache.WellNamed) : WellNamed { s with cache } :=
  ⟨h.held, hc, h.retries⟩

theorem WellNamed.report {ledger : Ledger} (hl : ledger.Retries (·.WellNamed))
    (notice : Option Notice) : WellNamed { s with ledger, notice } := ⟨h.held, h.cache, hl⟩

theorem WellNamed.beginPatch {patch : Cache.Patch} (hp : patch.WellNamed) :
    (s.beginPatch patch).1.WellNamed ∧ WellNamed (s.beginPatch patch).2 :=
  ⟨h.cache.begin _, (h.recache (h.cache.apply hp)).prune⟩

theorem WellNamed.visibleNames : ∀ n ∈ s.visibleNames, IsComponent n := by
  intro n hn
  obtain ⟨e, he, rfl⟩ := List.mem_map.1 hn
  unfold visible at he
  split at he
  · next l hl => exact h.cache s.path l hl e (View.mem_visible.1 he).1
  · cases he

theorem wellNamed_handle (e : Event) : WellNamed (s.handle e).2 := by
  obtain ⟨-, hcache, htasks⟩ := s.handle_keeps e
  refine ⟨fun n hn => ?_, ?_, fun task ht => h.retries task (htasks ht)⟩
  · rcases s.held_handle e with ⟨-, hheld⟩ | hnone
    · exact (List.mem_append.1 (hheld hn)).elim (h.held n) (h.visibleNames n)
    · rw [hnone] at hn
      cases hn
  · rcases hcache with hc | hc <;> rw [hc]
    · exact h.cache
    · exact Cache.wellNamed_empty

/-! ## Checks -/

theorem wellNamed_accept (command : Command) : WellNamed (accept command s).2 := by
  have hspent : WellNamed { s with pendingDrop := none } :=
    ⟨fun n hn => h.held n (s.held_spent_subset hn), h.cache, h.retries⟩
  have hruling := ruling_accept command s
  generalize accept command s = checked at hruling ⊢
  cases hruling with
  | visit => exact ⟨fun n hn => absurd hn List.not_mem_nil, h.cache, h.retries⟩
  | dropRefused => exact hspent
  | drop => exact hspent
  | notRetried id => exact h.report (h.retries.beginRetry id).1 s.notice
  | retried id => exact h.report (h.retries.beginRetry id).1 s.notice
  | _ => exact h

theorem WellNamed.name_join {names : List String} (hn : ∀ n ∈ names, n ∈ s.held) (d : String) :
    ∀ p ∈ names.map (Path.join d), IsComponent (Path.name p) := by
  intro p hp
  obtain ⟨n, hmem, rfl⟩ := List.mem_map.1 hp
  have hcomponent := h.held n (hn n hmem)
  rwa [Path.name_join_of_isComponent d hcomponent]

theorem WellNamed.name_selected :
    ∀ p ∈ s.selection.names.map (Path.join s.path), IsComponent (Path.name p) :=
  h.name_join (fun _ hn => mem_held.2 (.inl hn)) s.path

/-- **A check** lets through what has names. -/
theorem wellNamed_of_accept {command : Command} {request : Request}
    (hr : (accept command s).1 = .ok request) :
    ∀ operation ∈ request.operations, operation.WellNamed := by
  obtain ⟨s', hruling⟩ := exists_ruling hr
  cases hruling with
  | drop drop hdrop _ =>
    exact List.forall_mem_singleton.2
      (h.name_join (fun n hn => mem_held.2 (.inr (.inr ⟨drop, hdrop, hn⟩))) s.path)
  | moveTo => exact List.forall_mem_singleton.2 h.name_selected
  | trash => exact List.forall_mem_singleton.2 h.name_selected
  | restore =>
    exact List.forall_mem_singleton.2 fun n hn => h.held n (mem_held.2 (.inl hn))
  | rename name typed newName hname _ _ =>
    exact List.forall_mem_singleton.2 (Path.isComponent_of_validateName hname)
  | delete => exact List.forall_mem_singleton.2 trivial
  | createDirectory => exact List.forall_mem_singleton.2 trivial
  | upload files _ =>
    intro o ho
    obtain ⟨file, -, rfl⟩ := List.mem_map.1 ho
    trivial
  | retried id operation hb =>
    exact List.forall_mem_singleton.2 ((h.retries.beginRetry id).2 operation hb)
  | _ => exact fun _ ho => absurd ho List.not_mem_nil

end

/-! ## Batches -/

section
variable {kind : BatchKind} {sources : List String}

theorem wellNamed_paths (hp : (kind.operation sources).WellNamed) (c : Config) :
    ∀ p ∈ kind.paths c sources, IsComponent (Path.name p) := by
  cases kind with
  | restore =>
    intro p hmem
    obtain ⟨n, hn, rfl⟩ := List.mem_map.1 hmem
    have hcomponent := hp n hn
    rwa [Path.name_join_of_isComponent c.trashPath hcomponent]
  | _ => exact hp

theorem wellNamed_retry {failed : List String} (h : ∀ p ∈ failed, IsComponent (Path.name p)) :
    (kind.retry failed).WellNamed := by
  cases kind with
  | restore =>
    intro n hn
    obtain ⟨p, hp, rfl⟩ := List.mem_map.1 hn
    exact h p hp
  | _ => exact h

/-- A move of an operation goes to where there is a name. -/
theorem isComponent_of_plans {comes : (call : Call) → call.Reply → Prop} {c : Config}
    {operation : Operation} (ho : operation.WellNamed) {move : String × String}
    (h : Plans comes c operation move) : IsComponent (Path.name move.2) := by
  cases h with
  | batch kind sources listing _ hkind _ hmove =>
    obtain ⟨hsource, htarget, -⟩ := MovePlan.mem_pairs_ofSources hmove
    have hname := wellNamed_paths (hkind ▸ ho) c move.1 hsource
    rwa [htarget, Path.name_join_of_isComponent _ hname]
  | rename path newName hrename =>
    have hname : IsComponent newName := by
      rw [hrename] at ho
      exact ho
    rwa [Path.name_join_of_isComponent _ hname]

end

/-! ## Commands -/

theorem upkeep_naming (start : Start) :
    Upkeep naming start (·.WellNamed) (·.WellNamed) where
  retries h := h.retries
  deletion _ := trivial
  report _ _ notice h hl := h.report hl notice
  loads _ _ _ _ _ h := ⟨h.held, h.cache, h.retries⟩
  insert h hl := h.recache (h.cache.insert hl)
  prune h := h.prune
  remove _ h := h.beginPatch trivial
  commit _ h := h.recache h.cache
  rollback h hkept := h.recache (h.cache.rollback hkept)
  lists := trivial
  sleeps := trivial
  ends _ := trivial

theorem allows_naming (start : Start) (c : Config) {operation : Operation}
    (ho : operation.WellNamed) :
    Allows naming start (·.WellNamed) (·.WellNamed) c operation where
  call _ := trivial
  move _ := trivial
  patch hmoves h := h.beginPatch fun move hmove => isComponent_of_plans ho (hmoves move hmove)
  retry hkind hf := wellNamed_retry fun p hp => wellNamed_paths (hkind ▸ ho) _ p (hf hp)

/-- **A command** keeps a session well-named. -/
theorem obeys_naming (command : Command) {s : Session} (h : WellNamed s) :
    command.program.Obeys naming ⟨command, s⟩ none s s := by
  refine (upkeep_naming _).program (wellNamed_accept h command) fun request hr operation ho => ?_
  have hoperation := wellNamed_of_accept h hr operation ho
  exact ⟨hoperation, fun s _ => allows_naming _ s.config hoperation⟩

/-- **Commands that overlap** do the same. -/
theorem upheld_naming : Upheld naming :=
  ⟨fun command _ h => obeys_naming command h, fun e _ h => wellNamed_handle h e,
    fun _ _ h => ⟨h.held, h.cache, h.retries⟩⟩

end Session

end CloudDrive
