import CloudDrive.Proofs.Session.Accepted
import CloudDrive.Proofs.Session.Held
import CloudDrive.Proofs.Session.Turns
import CloudDrive.Proofs.Session.Upkeep

/-!
# The calls that commands make

A command makes listings, and besides only calls that belong to the operations which its check let
through (`Operation.Issues`), or which were let through earlier and are run again
(`Operation.Checked`). That is so however commands overlap, as long as a listing is the one of the
directory that was asked for (`Honest`).

* `upkeep_duty`, `allows_duty`: the work for an operation of the command.
* `obeys_duty`: every command. * `kept_duty`: so it is for commands that overlap on a store.
-/

namespace CloudDrive

open Path (IsComponent)
open Remote (Call Failure)

/-- What the check of a command makes sure of. -/
def Operation.Checked (c : Config) : Operation → Prop
  | .moveEntries _ destination => Trash.isReserved c destination = false
  | .createDirectory parent name =>
    IsComponent name ∧ Trash.isReserved c (Path.join parent name) = false
  | .rename path newName => IsComponent newName ∧ ∃ directory name,
    path = Path.join directory name ∧ Trash.isReserved c (Path.join directory newName) = false
  | .upload _ directory => Trash.isReserved c directory = false
  | _ => True

/-- A listing is the one of the directory that was asked for. -/
def Honest : (call : Call) → call.Reply → Prop
  | .list path, .ok listing => listing.path = path
  | _, _ => True

theorem honest_ofStore (t : Store) (call : Call) :
    Honest call (Service.ofStore.answer t call).1 := by
  cases call with
  | list path =>
    show Honest (.list path) (t.list path).1
    unfold Store.list
    split
    · trivial
    · split
      · trivial
      · rfl
  | _ => trivial

namespace Session

/-- The operations that a command carries out. -/
def Start.operations (start : Start) : List Operation :=
  match (accept start.command start.session).1 with
  | .ok request => request.operations
  | .error _ => []

/-- The session has these settings, and what a retry would run has been checked. -/
structure Vetted (c : Config) (s : Session) : Prop where
  config : s.config = c
  retries : s.ledger.Retries (·.Checked c)

theorem vetted_start (c : Config) (now : Instant) : Vetted c (start c now) :=
  ⟨rfl, fun _ ht => absurd ht List.not_mem_nil⟩

/-- A program that waits for a call waits for a listing, or for a call of an operation of its
command. -/
def Serves (c : Config) (start : Start) (rest : Program Session (Except SessionError Answer)) :
    Prop :=
  ∀ call, rest.pending? = some call → (∃ path, call = .list path) ∨
    ∃ operation ∈ start.operations, operation.Checked c ∧ operation.Issues c call

/-- The terms of a turn, if listings are honest. -/
def duty (c : Config) : Terms Session Start (Except SessionError Answer) where
  holds := Vetted c
  comes := Honest
  does start _ _ _ rest := Serves c start rest

/-! ## Vetted sessions -/

section
variable {c : Config} {s : Session} (h : Vetted c s)
include h

theorem Vetted.report {ledger : Ledger} (hl : ledger.Retries (·.Checked c))
    (notice : Option Notice) : Vetted c { s with ledger, notice } := ⟨h.config, hl⟩

theorem vetted_handle (e : Event) : Vetted c (s.handle e).2 := by
  obtain ⟨hconfig, -, htasks⟩ := s.handle_keeps e
  exact ⟨hconfig.trans h.config, fun task ht => h.retries task (htasks ht)⟩

theorem vetted_accept (command : Command) : Vetted c (accept command s).2 := by
  have hruling := ruling_accept command s
  generalize accept command s = checked at hruling ⊢
  cases hruling with
  | notRetried id => exact ⟨h.config, (h.retries.beginRetry id).1⟩
  | retried id => exact ⟨h.config, (h.retries.beginRetry id).1⟩
  | _ => exact ⟨h.config, h.retries⟩

/-- What a check lets through has been checked, now or earlier. -/
theorem Accepted.checked {request : Request} (hr : Accepted s request) :
    ∀ operation ∈ request.operations, operation.Checked c := by
  have hone : ∀ {o : Operation}, o.Checked c → ∀ operation ∈ [o], operation.Checked c :=
    fun ho _ hmem => List.mem_singleton.1 hmem ▸ ho
  cases hr with
  | load path => exact fun _ ho => absurd ho List.not_mem_nil
  | nothing answer => exact fun _ ho => absurd ho List.not_mem_nil
  | moveEntries sources destination hd => exact hone (h.config ▸ hd)
  | moveToTrash sources => exact hone trivial
  | restoreFromTrash names => exact hone trivial
  | deleteEntries paths => exact hone trivial
  | createDirectory name hn hd => exact hone ⟨hn, h.config ▸ hd⟩
  | rename name newName hn hd => exact hone ⟨hn, s.path, name, rfl, h.config ▸ hd⟩
  | upload files hd =>
    intro o ho
    obtain ⟨file, -, rfl⟩ := List.mem_map.1 ho
    exact h.config ▸ hd
  | rerun id operation ho => exact hone ((h.retries.beginRetry id).2 operation ho)

end

/-! ## Work -/

section
variable {c : Config} {start : Start}

theorem serves_list {path : String} {policy : RetryPolicy}
    {g : Except Failure Listing → Program Session (Except SessionError Answer)} {n : Nat}
    {attempt : UInt32} :
    Serves c start ((Remote.listFrom path policy attempt n).bind g) := by
  intro call hcall
  cases n <;> cases hcall <;> exact .inl ⟨path, rfl⟩

theorem serves_sleep {d : UInt64} {p : Program Session (Except SessionError Answer)} :
    Serves c start (.sleep d p) := by rintro _ ⟨⟩

theorem serves_done {a : Except SessionError Answer} : Serves c start (.done a) := by rintro _ ⟨⟩

theorem serves_request {operation : Operation} (ho : operation ∈ start.operations)
    (hchecked : operation.Checked c) {call : Call} (hcall : operation.Issues c call)
    {g : call.Reply → Program Session (Except SessionError Answer)} :
    Serves c start (Program.request call >>= g) := by
  rintro _ ⟨⟩
  exact .inr ⟨operation, ho, hchecked, hcall⟩

/-- The moves of an operation belong to it, if listings are honest. -/
theorem issues_of_plans {operation : Operation} {move : String × String}
    (h : Plans Honest c operation move) : operation.Issues c (.move move.1 move.2) := by
  cases h with
  | batch kind sources listing _ hkind hcomes hmove =>
    obtain ⟨hsource, htarget, -⟩ := MovePlan.mem_pairs_ofSources hmove
    have hpath : listing.path = kind.target c := hcomes
    rw [hpath] at htarget
    rw [hkind]
    cases kind <;> exact ⟨hsource, htarget⟩
  | rename path newName hrename =>
    rw [hrename]
    exact ⟨rfl, rfl⟩

theorem upkeep_duty : Upkeep (duty c) start (·.Checked c) fun _ => True where
  retries h := h.retries
  deletion _ := trivial
  report _ _ notice h hl := h.report hl notice
  loads _ _ _ _ _ h := ⟨h.config, h.retries⟩
  insert h _ := ⟨h.config, h.retries⟩
  prune h := ⟨h.config, h.retries⟩
  remove _ h := ⟨trivial, h.config, h.retries⟩
  commit _ h := ⟨h.config, h.retries⟩
  rollback h _ := ⟨h.config, h.retries⟩
  lists := serves_list
  sleeps := serves_sleep
  ends _ := serves_done

theorem checked_retry {kind : BatchKind} {sources : List String}
    (h : (kind.operation sources).Checked c) (failed : List String) :
    (kind.retry failed).Checked c := by
  cases kind with
  | directory d => exact h
  | _ => trivial

theorem allows_duty {operation : Operation} (ho : operation ∈ start.operations)
    (hchecked : operation.Checked c) :
    Allows (duty c) start (·.Checked c) (fun _ => True) c operation where
  call hcall := serves_request ho hchecked hcall
  move hplans := serves_request ho hchecked (issues_of_plans hplans)
  patch _ h := ⟨trivial, h.config, h.retries⟩
  retry hkind _ := checked_retry (hkind ▸ hchecked) _

end

/-! ## Commands -/

/-- **A command** makes listings, and calls of its operations. -/
theorem obeys_duty {c : Config} (command : Command) {s : Session} (h : Vetted c s) :
    command.program.Obeys (duty c) ⟨command, s⟩ none s s := by
  refine upkeep_duty.program (vetted_accept h command) fun request hr operation ho => ?_
  have hchecked := (accepted_of_accept hr).checked h operation ho
  have hmem : operation ∈ Start.operations ⟨command, s⟩ := by
    simpa only [Start.operations, hr] using ho
  refine ⟨hchecked, fun s hs => ?_⟩
  rw [Vetted.config hs]
  exact allows_duty hmem hchecked

/-- **Commands that overlap** on a store do the same. -/
theorem kept_duty (c : Config) : Kept (duty c) .ofStore :=
  ⟨honest_ofStore, fun command _ h => obeys_duty command h, fun e _ h => vetted_handle h e,
    fun _ _ h => ⟨h.config, h.retries⟩⟩

end Session

end CloudDrive
