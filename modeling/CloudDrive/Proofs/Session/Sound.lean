import CloudDrive.Proofs.Cache.Rollback
import CloudDrive.Proofs.Path.Siblings
import CloudDrive.Proofs.Program
import CloudDrive.Proofs.Session.Accepted
import CloudDrive.Proofs.Session.Held
import CloudDrive.Proofs.Session.Upkeep

/-!
# What a session keeps

`Sound`: the cache came about by changes of a cache, the names that a session holds are names of
entries of the directory that is shown, and what a retry would run is proper (`Operation.Proper`).

* `upkeep_soundness`, `allows_soundness`: the steps of the work for a proper operation keep it.
* `sound_program`: a command keeps it, whatever the store answers.
* `sound_handle`: an event keeps it, if what is visible are names of entries.
-/

namespace CloudDrive

open Path (Canonical IsComponent)

/-! ## Names and operations -/

/-- Batches take entries of one directory, and what is created has a component as its name. -/
def Operation.Proper (c : Config) : Operation → Prop
  | .moveEntries sources _ => Siblings sources
  | .moveToTrash sources => Siblings sources
  | .restoreFromTrash names => ∀ n ∈ names, Canonical c.trashPath ∧ IsComponent n
  | .deleteEntries _ => True
  | .createDirectory _ name => IsComponent name
  | .rename _ newName => IsComponent newName
  | .upload file _ => IsComponent file.name

/-! ## Sound sessions -/

namespace Session

/-- The session has these settings, and what it keeps is as it should be. -/
structure Sound (c : Config) (s : Session) : Prop where
  config : s.config = c
  reachable : s.cache.Reachable
  held : ∀ n ∈ s.held, Canonical s.path ∧ IsComponent n
  retries : s.ledger.Retries (·.Proper c)

theorem sound_start (c : Config) (now : Instant) : Sound c (start c now) :=
  ⟨rfl, Cache.reachable_empty, fun _ hn => absurd hn List.not_mem_nil,
    fun _ ht => absurd ht List.not_mem_nil⟩

section
variable {c : Config} {s : Session} (h : Sound c s)
include h

theorem Sound.prune : Sound c s.prune :=
  ⟨h.config, h.reachable, fun n hn => h.held n (s.held_prune hn), h.retries⟩

theorem Sound.change (x : Cache.Change) : Sound c { s with cache := s.cache.run x } :=
  ⟨h.config, h.reachable.run x, h.held, h.retries⟩

theorem Sound.report {ledger : Ledger} (hl : ledger.Retries (·.Proper c))
    (notice : Option Notice) : Sound c { s with ledger, notice } :=
  ⟨h.config, h.reachable, h.held, hl⟩

theorem Sound.beginTask {operation : Operation} (hp : operation.Proper c) :
    Sound c (s.beginTask operation).2 :=
  h.report (h.retries.start hp _ _) s.notice

theorem Sound.beginPatch (patch : Cache.Patch) : Sound c (s.beginPatch patch).2 :=
  (h.change (.patch patch)).prune

end

/-! ## Work -/

/-- A session is to stay sound, whatever the store answers. -/
def soundness (c : Config) (α : Type) : Terms Session Unit α where
  holds := Sound c
  comes _ _ := True
  does _ _ _ _ _ := True

section
variable {c : Config} {α : Type}

theorem upkeep_soundness : Upkeep (soundness c α) () (·.Proper c) fun _ => True where
  retries h := h.retries
  deletion _ := trivial
  report _ _ notice h hl := h.report hl notice
  loads _ _ _ _ _ h := ⟨h.config, h.reachable, h.held, h.retries⟩
  insert h _ := h.change (.insert _)
  prune h := h.prune
  remove paths h := ⟨trivial, h.beginPatch (.remove paths)⟩
  commit snapshot h := h.change (.commit snapshot)
  rollback h _ := h.change (.rollback _)
  lists := trivial
  sleeps := trivial
  ends _ := trivial

theorem proper_retry {kind : BatchKind} {sources : List String}
    (hp : (kind.operation sources).Proper c) {failed : List String}
    (hf : failed ⊆ kind.paths c sources) : (kind.retry failed).Proper c := by
  cases kind with
  | directory destination => exact Siblings.mono hp hf
  | trash => exact Siblings.mono hp hf
  | restore =>
    intro n hn
    obtain ⟨s, hs, rfl⟩ := List.mem_map.1 hn
    obtain ⟨m, hm, rfl⟩ := List.mem_map.1 (hf hs)
    obtain ⟨ht, hmc⟩ := hp m hm
    exact ⟨ht, by rwa [Path.name_join ht hmc]⟩

theorem allows_soundness {operation : Operation} (hp : operation.Proper c) :
    Allows (soundness c α) () (·.Proper c) (fun _ => True) c operation where
  call _ := trivial
  move _ := trivial
  patch _ h := ⟨trivial, h.beginPatch _⟩
  retry hkind hf := proper_retry (hkind ▸ hp) hf

/-- **A task of its own** keeps a session sound, whatever the store answers. -/
theorem sound_perform {s : Session} (h : Sound c s) {operation : Operation}
    (hp : operation.Proper c) {τ : Type} (port : Port τ) (t : τ) :
    Sound c ((perform operation).runOn port s t).2.1 := by
  have hbegun := h.beginTask hp
  have hobeys : (perform operation).Obeys (soundness c TaskId) () none s s := by
    simp only [perform, Program.obeys_modifyGet_bind]
    refine upkeep_soundness.work_bind (fun _ _ _ hs => ?_) hbegun _ ?_
    · exact ⟨hs, trivial⟩
    · rw [hbegun.config]
      exact allows_soundness hp
  exact hobeys.holds_runOn (fun _ _ => trivial) port t

end

/-! ## Commands -/

/-- Files to be stored have components as their names. -/
def Command.Proper : Command → Prop
  | .upload files => ∀ file ∈ files, IsComponent file.name
  | _ => True

/-- The operations that a request carries out are proper, and several of them are uploads. -/
def Request.Proper (c : Config) : Request → Prop
  | .perform operation => operation.Proper c
  | .performAll operations => ∃ (files : List Remote.UploadFile) (directory : String),
      operations = files.map (.upload · directory) ∧ ∀ file ∈ files, IsComponent file.name
  | .rerun _ operation => operation.Proper c
  | _ => True

theorem Request.Proper.operations {c : Config} {request : Request} (h : request.Proper c) :
    ∀ operation ∈ request.operations, operation.Proper c := by
  cases request with
  | load path => exact fun _ ho => absurd ho List.not_mem_nil
  | perform operation => exact List.forall_mem_singleton.2 h
  | performAll operations =>
    obtain ⟨files, directory, rfl, hfiles⟩ := h
    intro o ho
    obtain ⟨file, hfile, rfl⟩ := List.mem_map.1 ho
    exact hfiles file hfile
  | rerun id operation => exact List.forall_mem_singleton.2 h
  | nothing answer => exact fun _ ho => absurd ho List.not_mem_nil

section
variable {c : Config} {s : Session} (h : Sound c s)
include h

theorem Sound.siblings_selected : Siblings (s.selection.names.map (Path.join s.path)) :=
  siblings_map fun n hn => h.held n (mem_held.2 (.inl hn))

/-- **A check** comes to proper work. -/
theorem proper_accept {command : Command} (hp : command.Proper) {request : Request}
    (hr : (accept command s).1 = .ok request) : request.Proper c := by
  obtain ⟨s', hruling⟩ := exists_ruling hr
  cases hruling with
  | drop drop hdrop _ =>
    exact siblings_map fun n hn => h.held n (mem_held.2 (.inr (.inr ⟨drop, hdrop, hn⟩)))
  | moveTo => exact h.siblings_selected
  | trash => exact h.siblings_selected
  | restore htrash _ =>
    have hpath : s.path = c.trashPath := by
      unfold viewKind Trash.viewKind at htrash
      rw [← h.config]
      by_contra hne
      rw [if_neg hne] at htrash
      cases htrash
    exact fun n hn => hpath ▸ h.held n (mem_held.2 (.inl hn))
  | createDirectory typed name hname _ => exact Path.isComponent_of_validateName hname
  | rename name typed newName hname _ _ => exact Path.isComponent_of_validateName hname
  | upload files _ => exact ⟨files, s.path, rfl, hp⟩
  | retried id operation hb => exact (h.retries.beginRetry id).2 operation hb
  | _ => trivial

/-- **A check** keeps a session sound. -/
theorem sound_accept (command : Command) : Sound c (accept command s).2 := by
  have hspent : Sound c { s with pendingDrop := none } :=
    ⟨h.config, h.reachable, fun n hn => h.held n (s.held_spent_subset hn), h.retries⟩
  have hruling := ruling_accept command s
  generalize accept command s = checked at hruling ⊢
  cases hruling with
  | visit => exact ⟨h.config, h.reachable, fun n hn => absurd hn List.not_mem_nil, h.retries⟩
  | dropRefused => exact hspent
  | drop => exact hspent
  | notRetried id => exact h.report (h.retries.beginRetry id).1 s.notice
  | retried id => exact h.report (h.retries.beginRetry id).1 s.notice
  | _ => exact h

/-- **A command** keeps a session sound, whatever the store answers. -/
theorem sound_program {command : Command} (hp : command.Proper) {τ : Type} (port : Port τ)
    (t : τ) : Sound c (command.program.runOn port s t).2.1 := by
  have hobeys : command.program.Obeys (soundness c _) () none s s := by
    refine upkeep_soundness.program (sound_accept h command) fun request hr operation ho => ?_
    have hoperation := (proper_accept h hp hr).operations operation ho
    refine ⟨hoperation, fun s hs => ?_⟩
    rw [Sound.config hs]
    exact allows_soundness hoperation
  exact hobeys.holds_runOn (fun _ _ => trivial) port t

/-- **An event** keeps a session sound, if what is visible are names of entries. -/
theorem sound_handle (hv : ∀ n ∈ s.visibleNames, Canonical s.path ∧ IsComponent n) (e : Event) :
    Sound c (s.handle e).2 := by
  obtain ⟨hconfig, hcache, htasks⟩ := s.handle_keeps e
  refine ⟨hconfig.trans h.config, ?_, fun n hn => ?_, fun task ht => h.retries task (htasks ht)⟩
  · rcases hcache with hc | hc <;> rw [hc]
    · exact h.reachable
    · exact h.reachable.run .clear
  · rcases s.held_handle e with ⟨hpath, hheld⟩ | hnone
    · rw [hpath]
      exact (List.mem_append.1 (hheld hn)).elim (h.held n) (hv n)
    · rw [hnone] at hn
      cases hn

end

end Session

end CloudDrive
