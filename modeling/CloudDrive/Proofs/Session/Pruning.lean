import CloudDrive.Proofs.Program
import CloudDrive.Proofs.Session.Accepted
import CloudDrive.Proofs.Session.Batch
import CloudDrive.Proofs.Session.Turns

/-!
# What becomes of the selection when nobody selects

Commands, and the listings and reports that they bring, select nothing. In one turn they leave the
selection as it is, reduce it to what is visible at the end of the turn, or clear it.

* `prunes_quiet_bind`, `prunes_reconcile_bind`, `prunes_work`: the parts of commands.
* `kept_pruning`: every command, whatever it hears.
* `prunes_run`: every turn in which nobody selects.
-/

namespace CloudDrive.Session

open Remote (Failure)

variable {τ : Type}

/-- The selection is as it was, reduced to what is visible now, or empty. -/
inductive Prunes (s s' : Session) : Prop where
  | same (h : s'.selection = s.selection)
  | prunes (h : s'.selection = s.selection.retainVisible s'.visibleNames)
  | clears (h : s'.selection.names = [])

/-- Every turn of a command only prunes the selection. Nothing is asked of the replies. -/
def pruning : Terms Session Start (Except SessionError Answer) where
  holds _ := True
  comes _ _ := True
  does _ _ s s' _ := Prunes s s'

theorem Prunes.congr {s₁ s₂ s₃ : Session} (h : Prunes s₁ s₂) (hsame : s₃.selection = s₂.selection)
    (hvisible : s₃.visibleNames = s₂.visibleNames) : Prunes s₁ s₃ := by
  cases h with
  | same h => exact .same (hsame.trans h)
  | prunes h => exact .prunes (by rw [hsame, h, hvisible])
  | clears h => exact .clears (hsame ▸ h)

/-! ## Parts of commands -/

section
variable {start : Start} {last : Option Exchange} {s₀ s : Session}

theorem prunes_done {a : Except SessionError Answer} (h : Prunes s₀ s) :
    (.done a : Program Session (Except SessionError Answer)).Obeys pruning start last s₀ s :=
  ⟨trivial, h⟩

/-- Nothing is pruned while a program leaves the session alone. -/
theorem prunes_quiet_bind {α : Type} {p : Program Session α} (hp : p.Quiet)
    {f : α → Program Session (Except SessionError Answer)} (hs : s.selection = s₀.selection)
    (hf : ∀ a last s₀ s, s.selection = s₀.selection → (f a).Obeys pruning start last s₀ s) :
    (p >>= f).Obeys pruning start last s₀ s := by
  induction hp generalizing last s₀ s with
  | done a => exact hf a last s₀ s hs
  | call c next _ ih => exact ⟨trivial, .same hs, fun r _ s _ => ih r rfl⟩
  | sleep d next _ ih => exact ⟨trivial, .same hs, fun s _ => ih rfl⟩

/-- A call ends the turn; what was pruned before it does not matter after it. -/
theorem prunes_request_bind {c : Remote.Call}
    {f : c.Reply → Program Session (Except SessionError Answer)} (hs : Prunes s₀ s)
    (hf : ∀ r last s₀ s, s.selection = s₀.selection → (f r).Obeys pruning start last s₀ s) :
    (Program.request c >>= f).Obeys pruning start last s₀ s :=
  ⟨trivial, hs, fun r _ s _ => hf r _ s s rfl⟩

variable {f : Unit → Program Session (Except SessionError Answer)}
  (hf : ∀ last s₀ s, Prunes s₀ s → (f ()).Obeys pruning start last s₀ s)
include hf

theorem prunes_reconcile_bind (keys : List String) (hs : s.selection = s₀.selection) :
    (reconcile keys >>= f).Obeys pruning start last s₀ s := by
  unfold reconcile
  rw [bind_assoc]
  induction keys generalizing last s₀ s with
  | nil =>
    refine hf last s₀ s.prune (.prunes ?_)
    rw [← hs]
    rfl
  | cons key keys ih =>
    unfold refetch
    rw [bind_assoc, Program.obeys_get_bind]
    split
    · rw [bind_assoc]
      unfold fetch
      rw [bind_assoc, Program.obeys_get_bind]
      refine prunes_quiet_bind (Remote.quiet_list key _) hs fun r last s₀ s hs => ?_
      rw [bind_assoc, Program.obeys_modify_bind]
      exact ih (by cases r <;> exact hs)
    · exact ih hs

/-- **A batch** prunes the selection when its moves are shown, and when its directories have been
fetched again; there is a call in between. -/
theorem prunes_workBatch (id : TaskId) (sources : List String) (kind : BatchKind)
    (hs : s.selection = s₀.selection) :
    (workBatch id sources kind >>= f).Obeys pruning start last s₀ s := by
  unfold workBatch
  rw [bind_assoc, Program.obeys_get_bind, bind_assoc]
  refine prunes_quiet_bind (quiet_prepare kind s.config sources) hs fun r last s₀ s' hs => ?_
  cases r with
  | error e => exact hf _ _ _ (.same hs)
  | ok plan =>
    simp only
    split
    · exact hf _ _ _ (.same hs)
    · next hne =>
      obtain ⟨d, moves, conflicts⟩ := plan
      cases moves with
      | nil => exact absurd rfl hne
      | cons m moves =>
        rw [bind_assoc, Program.obeys_modifyGet_bind]
        have hpatched : Prunes s₀ (s'.beginPatch (MovePlan.toPatch ⟨d, m :: moves, conflicts⟩)).2 :=
          .prunes (by rw [← hs]; rfl)
        generalize s'.beginPatch (MovePlan.toPatch ⟨d, m :: moves, conflicts⟩) = patched
          at hpatched ⊢
        simp only [BatchOutcome.ofPlan, BatchOutcome.ofMoves, bind_assoc, BatchOutcome.run]
        refine prunes_request_bind hpatched fun r last s₀ s hs => ?_
        refine prunes_quiet_bind (BatchOutcome.quiet_run moves _) hs fun o last s₀ s hs => ?_
        simp only [pure_bind]
        split
        · rw [bind_assoc, Program.obeys_modifyGet_bind]
          exact prunes_reconcile_bind hf _ hs
        · rw [bind_assoc, Program.obeys_modify_bind]
          split
          · exact prunes_reconcile_bind hf _ hs
          · exact hf _ _ _ (.same hs)

/-- **A deletion** prunes the selection before its call, and once after it. -/
theorem prunes_workDelete (id : TaskId) (paths : List String) (hs : s.selection = s₀.selection) :
    (workDelete id paths >>= f).Obeys pruning start last s₀ s := by
  unfold workDelete
  rw [bind_assoc, Program.obeys_get_bind, bind_assoc, Program.obeys_modifyGet_bind, bind_assoc]
  refine prunes_request_bind (.prunes (by rw [← hs]; rfl)) fun r last s₀ s hs => ?_
  cases r with
  | error e => exact hf _ _ _ (.prunes (by rw [← hs]; rfl))
  | ok report =>
    simp only
    split
    · rw [bind_assoc, Program.obeys_modifyGet_bind]
      exact prunes_reconcile_bind hf _ hs
    · rw [bind_assoc, Program.obeys_modify_bind]
      split
      · exact hf _ _ _ (.prunes (by rw [← hs]; rfl))
      · exact prunes_reconcile_bind hf _ hs

theorem prunes_workInsert (id : TaskId) (call : Remote.Call) (directory : String)
    (hs : Prunes s₀ s) : (workInsert id call directory >>= f).Obeys pruning start last s₀ s := by
  unfold workInsert
  rw [bind_assoc, Program.obeys_get_bind, bind_assoc]
  refine prunes_request_bind hs fun r last s₀ s hs => ?_
  cases r with
  | ok _ => exact prunes_reconcile_bind hf _ hs
  | error e => exact hf _ _ _ (.same hs)

theorem prunes_workRename (id : TaskId) (path newName : String) (hs : s.selection = s₀.selection) :
    (workRename id path newName >>= f).Obeys pruning start last s₀ s := by
  unfold workRename
  rw [bind_assoc, Program.obeys_get_bind, bind_assoc, Program.obeys_modifyGet_bind, bind_assoc]
  have hpatched : Prunes s₀ (s.beginPatch (.rename path newName)).2 :=
    .prunes (by rw [← hs]; rfl)
  generalize s.beginPatch (.rename path newName) = patched at hpatched ⊢
  refine prunes_request_bind hpatched fun r last s₀ s hs => ?_
  cases r with
  | ok _ =>
    simp only
    rw [bind_assoc, Program.obeys_modifyGet_bind, bind_assoc, Program.obeys_modify_bind]
    exact prunes_reconcile_bind hf _ hs
  | error e => exact hf _ _ _ (.same hs)

/-- **The work for an operation.** -/
theorem prunes_work (id : TaskId) (operation : Operation) (hs : s.selection = s₀.selection) :
    (work id operation >>= f).Obeys pruning start last s₀ s := by
  cases operation with
  | moveEntries sources destination =>
    exact prunes_workBatch hf id sources (.directory destination) hs
  | moveToTrash sources => exact prunes_workBatch hf id sources .trash hs
  | restoreFromTrash names => exact prunes_workBatch hf id names .restore hs
  | deleteEntries paths => exact prunes_workDelete hf id paths hs
  | createDirectory parent name =>
    rw [work_createDirectory]
    exact prunes_workInsert hf id _ parent (.same hs)
  | rename path newName => exact prunes_workRename hf id path newName hs
  | upload file directory =>
    rw [work_upload]
    exact prunes_workInsert hf id _ directory (.same hs)

end

/-! ## Commands -/

/-- **Uploads**, one after another. -/
theorem prunes_performAll_bind {start : Start} {operations : List Operation}
    (hu : ∀ o ∈ operations, ∃ file directory, o = .upload file directory)
    {f : List TaskId → Program Session (Except SessionError Answer)} {last : Option Exchange}
    {s₀ s : Session} (hs : Prunes s₀ s)
    (hf : ∀ ids last s₀ s, Prunes s₀ s → (f ids).Obeys pruning start last s₀ s) :
    (performAll operations >>= f).Obeys pruning start last s₀ s := by
  induction operations generalizing f last s₀ s with
  | nil => exact hf [] last s₀ s hs
  | cons operation operations ih =>
    obtain ⟨file, directory, rfl⟩ := hu operation List.mem_cons_self
    simp only [performAll, perform, bind_assoc, pure_bind, Program.obeys_modifyGet_bind,
      work_upload]
    refine prunes_workInsert (fun last s₀ s hs => ?_) _ _ directory (hs.congr rfl rfl)
    exact ih (fun o ho => hu o (List.mem_cons_of_mem _ ho)) hs fun ids => hf _

theorem prunes_loaded (generation : Nat) (listing : Listing) (s : Session) :
    Prunes s (loaded generation listing s) := by
  unfold loaded
  simp only
  split
  · exact .prunes rfl
  · exact .same rfl

theorem selection_loadFailed (generation : Nat) (path : String) (f : Failure) (s : Session) :
    (loadFailed generation path f s).selection = s.selection := by
  unfold loadFailed
  split <;> rfl

/-- **A command** only prunes the selection, whatever it hears. -/
theorem prunes_program (command : Command) (s : Session) :
    command.program.Obeys pruning ⟨command, s⟩ none s s := by
  unfold Command.program
  rw [Program.obeys_modifyGet_bind]
  have hchecked : Prunes s (accept command s).2 := by
    rcases accept_cases command s with ⟨path, -, hvisit⟩ | ⟨_, _, hstays⟩
    · exact .clears (congrArg (·.selection.names) hvisit)
    · exact .same (by rw [hstays])
  cases hr : (accept command s).1 with
  | error e => exact prunes_done hchecked
  | ok request =>
    have hsame (hload : ∀ path, request ≠ .load path) : (accept command s).2.selection =
        s.selection := by
      rcases accept_cases command s with ⟨path, hvisits, -⟩ | ⟨_, _, hstays⟩
      · exact absurd (Except.ok.inj (hr.symm.trans hvisits)) (hload path)
      · rw [hstays]
    cases request with
    | load path =>
      have hbegun : Prunes s (accept command s).2.beginLoad.2 := hchecked.congr rfl rfl
      simp only [Request.program, load, fetch, bind_assoc, Program.obeys_modifyGet_bind,
        Program.obeys_get_bind]
      refine Program.obeys_list_bind trivial (fun _ _ => hbegun) (fun _ _ _ _ => .same rfl)
        (fun _ _ _ _ _ => .same rfl) fun r _ s _ => ?_
      cases r with
      | ok listing => exact prunes_done (prunes_loaded _ listing s)
      | error e => exact prunes_done (.same (selection_loadFailed _ path e s))
    | perform operation =>
      simp only [Request.program, perform, bind_assoc, pure_bind, Program.obeys_modifyGet_bind]
      exact prunes_work (fun _ _ _ => prunes_done) _ operation (hsame (by simp))
    | performAll operations =>
      exact prunes_performAll_bind (accepted_of_accept hr).uploads hchecked
        fun _ _ _ _ => prunes_done
    | rerun id operation => exact prunes_work (fun _ _ _ => prunes_done) id operation (hsame (by simp))
    | nothing answer => exact prunes_done hchecked

theorem kept_pruning (service : Service τ) : Kept pruning service :=
  ⟨fun _ _ => trivial, fun command s _ => prunes_program command s, fun _ _ _ => trivial,
    fun _ _ _ => trivial⟩

/-! ## Turns -/

/-- Can the turn select something? -/
def Turn.selects : Turn τ → Bool
  | .act (.click _ _) | .act .selectAll | .act (.selectNames _) | .act (.moveFocus _)
  | .act .toggleFocused | .act (.contextSelect _) | .act .pointerUp => true
  | _ => false

theorem prunes_handle (event : Event) (h : (Turn.act event : Turn τ).selects = false)
    (s : Session) : Prunes s (s.handle event).2 := by
  cases event with
  | setOptions options => exact .prunes rfl
  | clearSelection => exact .clears rfl
  | reset => exact .clears rfl
  | pointerDown index point modifiers =>
    simp only [handle, pointerDown]
    split <;> exact .same rfl
  | startDrag index =>
    simp only [handle, startDrag]
    split <;> exact .same rfl
  | cancelDrop =>
    simp only [handle, cancelDrop]
    split <;> exact .same rfl
  | click | selectAll | selectNames | moveFocus | toggleFocused | contextSelect | pointerUp => cases h
  | _ => exact .same rfl

/-- **A turn in which nobody selects** leaves the selection as it is, reduces it to what is visible
then, or clears it. -/
theorem prunes_run (service : Service τ) {w : Crew τ} (hw : w.Under pruning) {turn : Turn τ}
    (h : turn.selects = false) : Prunes w.state (turn.run service w).2.state := by
  cases turn with
  | ask command => exact (hw.begin service (prunes_program command w.state)).2
  | go number =>
    show Prunes w.state (w.go service number).2.state
    rcases hw.go_does (fun _ => trivial) number with
      hgo | ⟨_, _, _, _, _, _, -, -, hdoes, ⟨_, -, hgo⟩ | ⟨-, hgo⟩⟩
    · rw [hgo]
      exact .same rfl
    · rw [hgo]
      exact hdoes
    · rw [hgo]
      exact hdoes
  | act event => exact prunes_handle event h w.state
  | tick now => exact .same rfl
  | outside change => exact .same rfl

end CloudDrive.Session
