import CloudDrive.Proofs.Session.Accepted
import CloudDrive.Proofs.Session.InView
import CloudDrive.Proofs.Session.Sound
import CloudDrive.Proofs.Session.Turns

/-!
# How commands end

`Ends` lists the ways in which the last turn of a command can go, whatever the command has heard and
whatever happened to the session while it waited. In every turn before, a command keeps selection
and focus in view, or is going to mend them (`conduct`).

* `obeys_workBatch` and its kin: the work for each operation.
* `obeys_program`: every command. * `kept_conduct`: so it is for commands that overlap.
-/

namespace CloudDrive

open Remote (Failure)

/-- Has the exchange refused a move? -/
def Exchange.RefusesMove : Exchange → Prop
  | .reply (.move _ _) (.error _) => True
  | _ => False

namespace Session

/-- How the work for an operation ends: what it heard last, and the session before that turn and
after it. -/
inductive WorkEnds (operation : Operation) : Exchange → Session → Session → Prop where
  | failed (c : Remote.Call) (f : Failure) (id : TaskId) (label : String) (s : Session) :
      WorkEnds operation (.reply c (.error f)) s (fail id label f.reason s)
  | skipped (x : Exchange) (id : TaskId) (label : String) (plan : MovePlan) (s : Session) :
      WorkEnds operation x s (allSkipped id label plan s)
  | batchRefused (kind : BatchKind) (sources : List String) (h : operation = kind.operation sources)
      (source destination : String) (f : Failure) (id : TaskId) (label : String)
      (outcome : BatchOutcome) (snapshot : Cache.Snapshot) (s : Session) :
      WorkEnds operation (.reply (.move source destination) (.error f)) s
        (batchRefused id label kind outcome snapshot s)
  | renameRefused (path newName : String) (h : operation = .rename path newName) (f : Failure)
      (id : TaskId) (label : String) (snapshot : Cache.Snapshot) (s : Session) :
      WorkEnds operation (.reply (.move path (Path.join (Path.parent path) newName)) (.error f)) s
        (fail id label f.reason (s.rollback snapshot))
  | deleteFailed (paths : List String) (f : Failure) (id : TaskId) (label : String)
      (snapshot : Cache.Snapshot) (s : Session) :
      WorkEnds operation (.reply (.delete paths) (.error f)) s
        (fail id label f.reason (s.rollback snapshot).prune)
  /-- The report is out, and no listing had to be fetched again. -/
  | reported (x : Exchange) (s s' : Session) (h : s'.notice.isSome = true) :
      WorkEnds operation x s s'.prune
  /-- The last listing is fetched again. -/
  | refetched (path : String) (r : Except Failure Listing) (s : Session) :
      WorkEnds operation (.reply (.list path) r) s (refetched r s).prune

/-- How a command ends. -/
inductive Ends (start : Start) : Option Exchange → Session → Session → Prop where
  /-- It is refused, or comes to nothing. -/
  | atOnce : Ends start none start.session (accept start.command start.session).2
  | loaded (path : String) (listing : Listing) (s : Session)
      (h : (accept start.command start.session).1 = .ok (.load path)) :
      Ends start (some (.reply (.list path) (.ok listing))) s
        (loaded (start.session.generation + 1) listing s)
  | loadFailed (path : String) (f : Failure) (s : Session)
      (h : (accept start.command start.session).1 = .ok (.load path)) :
      Ends start (some (.reply (.list path) (.error f))) s
        (loadFailed (start.session.generation + 1) path f s)
  | worked (operation : Operation) (x : Exchange) (s s' : Session)
      (h : WorkEnds operation x s s') : Ends start (some x) s s'

/-- What a command does in a turn: it ends in one of the ways that there are, or keeps selection and
focus in view, or is going to mend them. -/
def Conducts (start : Start) (last : Option Exchange) (s s' : Session) :
    Program Session (Except SessionError Answer) → Prop
  | .done _ => Ends start last s s'
  | rest => (InView s → InView s') ∨ rest.WillTidy

/-- The terms of a turn, whatever the calls are answered. -/
def conduct : Terms Session Start (Except SessionError Answer) where
  holds _ := True
  comes _ _ := True
  does := Conducts

/-! ## In view or not -/

/-- Only refused moves leave selection or focus out of view. -/
theorem WorkEnds.inView {operation : Operation} {x : Exchange} {s s' : Session}
    (h : WorkEnds operation x s s') :
    x.RefusesMove ∧ ((∃ kind sources, operation = BatchKind.operation kind sources) ∨
        ∃ path newName, operation = .rename path newName) ∨
      (InView s → InView s') := by
  cases h with
  | failed c f id label => exact .inr fun h => ⟨h.selected, h.focused⟩
  | skipped x id label plan => exact .inr fun h => ⟨h.selected, h.focused⟩
  | batchRefused kind sources ho => exact .inl ⟨trivial, .inl ⟨kind, sources, ho⟩⟩
  | renameRefused path newName ho => exact .inl ⟨trivial, .inr ⟨path, newName, ho⟩⟩
  | deleteFailed paths f id label snapshot =>
    exact .inr fun _ => ⟨(inView_prune _).selected, (inView_prune _).focused⟩
  | reported x _ s' => exact .inr fun _ => inView_prune s'
  | refetched path r => exact .inr fun _ => inView_prune _

theorem WorkEnds.inView_upload {file : Remote.UploadFile} {directory : String} {x : Exchange}
    {s s' : Session} (h : WorkEnds (.upload file directory) x s s') : InView s → InView s' := by
  rcases h.inView with ⟨-, ⟨kind, sources, ho⟩ | ⟨path, newName, ho⟩⟩ | hs
  · cases kind <;> cases ho
  · cases ho
  · exact hs

/-! ## Work -/

theorem InView.beginTask {s : Session} (h : InView s) (operation : Operation) :
    InView (s.beginTask operation).2 := ⟨h.selected, h.focused⟩

theorem inView_beginPatch (patch : Cache.Patch) (s : Session) : InView (s.beginPatch patch).2 :=
  inView_prune _

section
variable {start : Start} {f : Unit → Program Session (Except SessionError Answer)}

theorem conducts_listFrom {last : Option Exchange} {s₀ s : Session} {path : String}
    {policy : RetryPolicy}
    {g : Except Failure Listing → Program Session (Except SessionError Answer)} {n : Nat}
    {attempt : UInt32} (h : (InView s₀ → InView s) ∨ ∀ r s, (g r).Tidies s) :
    Conducts start last s₀ s ((Remote.listFrom path policy attempt n).bind g) := by
  have h : (InView s₀ → InView s) ∨ ((Remote.listFrom path policy attempt n).bind g).WillTidy :=
    h.imp_right fun hg => Program.willTidy_listFrom_bind hg n attempt
  cases n <;> exact h

theorem obeys_list_bind {last : Option Exchange} {s₀ s : Session} {path : String}
    {policy : RetryPolicy}
    {g : Except Failure Listing → Program Session (Except SessionError Answer)}
    (h : (InView s₀ → InView s) ∨ ∀ r s, (g r).Tidies s)
    (hg : ∀ r s, (g r).Obeys conduct start (some (.reply (.list path) r)) s s) :
    (Remote.list path policy >>= g).Obeys conduct start last s₀ s :=
  Program.obeys_list_bind trivial (fun _ _ => conducts_listFrom h)
    (fun _ _ _ _ => conducts_listFrom (.inl id)) (fun _ _ _ _ _ => .inl id)
    fun r _ s _ => hg r s

variable {operation : Operation}
  (hend : ∀ x s₀ s, WorkEnds operation x s₀ s → (f ()).Obeys conduct start (some x) s₀ s)
  (htidy : ∀ s, InView s → (f ()).Tidies s)
include hend htidy

theorem obeys_reconcile_bind (keys : List String) {x : Exchange} {s₀ s : Session}
    (h : WorkEnds operation x s₀ s.prune) :
    (reconcile keys >>= f).Obeys conduct start (some x) s₀ s := by
  unfold reconcile
  rw [bind_assoc]
  induction keys generalizing x s₀ s with
  | nil => exact hend x s₀ _ h
  | cons key keys ih =>
    unfold refetch
    rw [bind_assoc, Program.obeys_get_bind]
    split
    · rw [bind_assoc]
      have htidies : ∀ r s, ((modify (refetched r) >>= fun _ => refetch keys) >>= fun _ =>
          modify prune >>= f).Tidies s := fun r s =>
        tidies_refetch_bind keys (fun s => htidy s.prune (inView_prune s)) (refetched r s)
      exact obeys_list_bind (.inr htidies) fun r s => ih (.refetched key r s)
    · exact ih h

omit hend htidy in
theorem obeys_prepare_bind {kind : BatchKind} {c : Config} {sources : List String}
    {g : Except Failure MovePlan → Program Session (Except SessionError Answer)}
    {last : Option Exchange} {s₀ s : Session} (hs : InView s₀ → InView s)
    (hok : ∀ plan x s, (g (.ok plan)).Obeys conduct start (some x) s s)
    (herr : ∀ c e s, (g (.error e)).Obeys conduct start (some (.reply c (.error e))) s s) :
    (kind.prepare c sources >>= g).Obeys conduct start last s₀ s := by
  have hplan : ∀ (sources : List String) (d : String) (last : Option Exchange) (s₀ s : Session),
      (InView s₀ → InView s) →
      (MovePlan.prepare c.readRetry sources d >>= g).Obeys conduct start last s₀ s := by
    intro sources d last s₀ s hs
    unfold MovePlan.prepare
    rw [bind_assoc]
    refine obeys_list_bind (.inl hs) fun r s => ?_
    cases r with
    | ok listing => exact hok _ _ s
    | error e => exact herr _ e s
  cases kind with
  | directory d => exact hplan sources d last s₀ s hs
  | restore => exact hplan _ _ last s₀ s hs
  | trash =>
    simp only [BatchKind.prepare, Trash.prepareTrash, Trash.ensure, bind_assoc]
    refine Program.obeys_request_bind.2 ⟨trivial, .inl hs, fun r _ s _ => ?_⟩
    cases r with
    | ok _ => exact hplan _ _ _ s s id
    | error e =>
      simp only [pure_bind]
      by_cases he : e.isAlreadyExists = true
      · rw [if_pos he]
        exact hplan _ _ _ s s id
      · rw [if_neg he]
        exact herr _ e s

omit hend htidy in
/-- The moves of a batch: the last one brings the outcome. -/
theorem obeys_run_bind {g : BatchOutcome → Program Session (Except SessionError Answer)}
    {m : MoveRequest} {moves : List MoveRequest} {o : BatchOutcome} {last : Option Exchange}
    {s₀ s : Session} (hs : InView s₀ → InView s)
    (hg : ∀ o source destination r s, (o.successCount = 0 → ∃ e, r = .error e) →
      (g o).Obeys conduct start (some (.reply (.move source destination) r)) s s) :
    (o.run (m :: moves) >>= g).Obeys conduct start last s₀ s := by
  induction moves generalizing o m last s₀ s with
  | nil =>
    unfold BatchOutcome.run
    rw [bind_assoc]
    refine ⟨trivial, .inl hs, fun r _ s _ => hg (o.add m r) _ _ r s fun ho => ?_⟩
    cases r with
    | ok _ => cases ho
    | error e => exact ⟨e, rfl⟩
  | cons m' moves ih =>
    unfold BatchOutcome.run
    rw [bind_assoc]
    exact ⟨trivial, .inl hs, fun r _ s _ => ih id⟩

/-- **A batch.** -/
theorem obeys_workBatch (id : TaskId) {sources : List String} (kind : BatchKind)
    (ho : operation = kind.operation sources) {last : Option Exchange} {s₀ s : Session}
    (hs : InView s₀ → InView s) :
    (workBatch id sources kind >>= f).Obeys conduct start last s₀ s := by
  unfold workBatch
  rw [bind_assoc, Program.obeys_get_bind, bind_assoc]
  refine obeys_prepare_bind hs (fun plan x s' => ?_) fun c e s' => ?_
  · simp only
    split
    · exact hend _ _ _ (.skipped x id _ plan s')
    · next hne =>
      obtain ⟨d, moves, conflicts⟩ := plan
      cases moves with
      | nil => exact absurd rfl hne
      | cons m moves =>
        rw [bind_assoc, Program.obeys_modifyGet_bind]
        simp only [BatchOutcome.ofPlan, BatchOutcome.ofMoves, bind_assoc]
        have hpatched := inView_beginPatch (MovePlan.toPatch ⟨d, m :: moves, conflicts⟩) s'
        generalize s'.beginPatch (MovePlan.toPatch ⟨d, m :: moves, conflicts⟩) = patched
          at hpatched ⊢
        refine obeys_run_bind (fun _ => hpatched) fun o source destination r s'' hr => ?_
        simp only [pure_bind]
        split
        · rw [bind_assoc, Program.obeys_modifyGet_bind]
          exact obeys_reconcile_bind hend htidy _ (.reported _ _ _ rfl)
        · rw [bind_assoc, Program.obeys_modify_bind]
          split
          · exact obeys_reconcile_bind hend htidy _ (.reported _ _ _ rfl)
          · next hzero =>
            obtain ⟨e, rfl⟩ := hr (Nat.eq_zero_of_not_pos hzero)
            exact hend _ _ _ (.batchRefused kind sources ho source destination e id _ _ _ s'')
  · exact hend _ _ _ (.failed c e id _ s')

/-- **A deletion.** -/
theorem obeys_workDelete (id : TaskId) (paths : List String) {last : Option Exchange}
    {s₀ s : Session} : (workDelete id paths >>= f).Obeys conduct start last s₀ s := by
  unfold workDelete
  rw [bind_assoc, Program.obeys_get_bind, bind_assoc, Program.obeys_modifyGet_bind, bind_assoc]
  refine Program.obeys_request_bind.2
    ⟨trivial, .inl fun _ => inView_beginPatch _ _, fun r _ s' _ => ?_⟩
  cases r with
  | error e => exact hend _ _ _ (.deleteFailed paths e id _ _ s')
  | ok report =>
    simp only
    split
    · rw [bind_assoc, Program.obeys_modifyGet_bind]
      exact obeys_reconcile_bind hend htidy _ (.reported _ _ _ rfl)
    · rw [bind_assoc, Program.obeys_modify_bind]
      split
      · exact hend _ _ _ (.reported _ _ _ rfl)
      · exact obeys_reconcile_bind hend htidy _ (.reported _ _ _ rfl)

section
variable {last : Option Exchange} {s₀ s : Session} (hs : InView s₀ → InView s)
include hs

theorem obeys_workInsert (id : TaskId) (call : Remote.Call) (directory : String) :
    (workInsert id call directory >>= f).Obeys conduct start last s₀ s := by
  unfold workInsert
  rw [bind_assoc, Program.obeys_get_bind, bind_assoc]
  refine Program.obeys_request_bind.2 ⟨trivial, .inl hs, fun r _ s' _ => ?_⟩
  cases r with
  | ok _ => exact obeys_reconcile_bind hend htidy _ (.reported _ _ _ rfl)
  | error e => exact hend _ _ _ (.failed _ e id _ s')

omit hs in
theorem obeys_workRename (id : TaskId) {path newName : String}
    (ho : operation = .rename path newName) :
    (workRename id path newName >>= f).Obeys conduct start last s₀ s := by
  unfold workRename
  rw [bind_assoc, Program.obeys_get_bind, bind_assoc, Program.obeys_modifyGet_bind, bind_assoc]
  have hpatched := inView_beginPatch (.rename path newName) s
  generalize s.beginPatch (.rename path newName) = patched at hpatched ⊢
  refine Program.obeys_request_bind.2 ⟨trivial, .inl fun _ => hpatched, fun r _ s' _ => ?_⟩
  cases r with
  | ok _ =>
    simp only
    rw [bind_assoc, Program.obeys_modifyGet_bind, bind_assoc, Program.obeys_modify_bind]
    exact obeys_reconcile_bind hend htidy _ (.reported _ _ _ rfl)
  | error e =>
    simp only
    rw [Program.obeys_modify_bind]
    exact hend _ _ _ (.renameRefused path newName ho e id _ _ s')

/-- **The work for an operation.** -/
theorem obeys_work (id : TaskId) : (work id operation >>= f).Obeys conduct start last s₀ s := by
  cases operation with
  | moveEntries sources destination =>
    exact obeys_workBatch hend htidy id (.directory destination) rfl hs
  | moveToTrash sources => exact obeys_workBatch hend htidy id .trash rfl hs
  | restoreFromTrash names => exact obeys_workBatch hend htidy id .restore rfl hs
  | deleteEntries paths => exact obeys_workDelete hend htidy id paths
  | createDirectory parent name =>
    rw [work_createDirectory]
    exact obeys_workInsert hend htidy hs id _ parent
  | rename path newName => exact obeys_workRename hend htidy id rfl
  | upload file directory =>
    rw [work_upload]
    exact obeys_workInsert hend htidy hs id _ directory

end

end

/-! ## Commands -/

theorem tidies_performAll_bind {α : Type} {operations : List Operation}
    (hu : ∀ o ∈ operations, ∃ file directory, o = .upload file directory)
    {g : List TaskId → Program Session α} (hg : ∀ ids s, InView s → (g ids).Tidies s) {s : Session}
    (hs : InView s) : (performAll operations >>= g).Tidies s := by
  cases operations with
  | nil => exact hg [] s hs
  | cons operation operations =>
    obtain ⟨file, directory, rfl⟩ := hu operation List.mem_cons_self
    exact .inl (hs.beginTask _)

/-- **Uploads**, one after another. -/
theorem obeys_performAll_bind {start : Start} {operations : List Operation}
    (hu : ∀ o ∈ operations, ∃ file directory, o = .upload file directory)
    {g : List TaskId → Program Session (Except SessionError Answer)} {last : Option Exchange}
    {s₀ s : Session} (hs : InView s₀ → InView s)
    (hnone : ∀ ids, (g ids).Obeys conduct start last s₀ s)
    (hend : ∀ ids o x s₀ s, WorkEnds o x s₀ s → (g ids).Obeys conduct start (some x) s₀ s)
    (htidy : ∀ ids s, InView s → (g ids).Tidies s) :
    (performAll operations >>= g).Obeys conduct start last s₀ s := by
  induction operations generalizing g last s₀ s with
  | nil => exact hnone []
  | cons operation operations ih =>
    have hu' := fun o ho => hu o (List.mem_cons_of_mem _ ho)
    obtain ⟨file, directory, rfl⟩ := hu operation List.mem_cons_self
    simp only [performAll, perform, bind_assoc, pure_bind, Program.obeys_modifyGet_bind]
    refine obeys_work (fun x s₀ s hx => ?_) (fun s hs => ?_) (fun h => (hs h).beginTask _) _
    · exact ih hu' hx.inView_upload (fun ids => hend _ _ _ _ _ hx) (fun ids => hend _)
        fun ids => htidy _
    · exact tidies_performAll_bind hu' (fun ids => htidy _) hs

/-- **A command** does in each turn what it may, whatever it hears. -/
theorem obeys_program (command : Command) (s : Session) :
    command.program.Obeys conduct ⟨command, s⟩ none s s := by
  have hs := fun h : InView s => inView_accept h command
  unfold Command.program
  rw [Program.obeys_modifyGet_bind]
  cases hr : (accept command s).1 with
  | error e => exact ⟨trivial, .atOnce⟩
  | ok request =>
    cases request with
    | load path =>
      simp only [Request.program, load, fetch, bind_assoc, Program.obeys_modifyGet_bind,
        Program.obeys_get_bind]
      refine obeys_list_bind (.inl fun h => ⟨(hs h).selected, (hs h).focused⟩) fun r s' => ?_
      cases r with
      | ok listing =>
        simp only [bind_assoc, pure_bind, Program.obeys_modify_bind]
        refine ⟨trivial, ?_⟩
        have hloaded : Ends ⟨command, s⟩ _ s' _ := .loaded path listing s' hr
        rwa [← generation_accept command s] at hloaded
      | error e =>
        simp only [bind_assoc, pure_bind, Program.obeys_modify_bind]
        refine ⟨trivial, ?_⟩
        have hfailed : Ends ⟨command, s⟩ _ s' _ := .loadFailed path e s' hr
        rwa [← generation_accept command s] at hfailed
    | perform operation =>
      simp only [Request.program, perform, bind_assoc, pure_bind, Program.obeys_modifyGet_bind]
      refine obeys_work (fun x s₀ s hx => ?_) (fun _ hs => ?_) (fun h => (hs h).beginTask _) _
      · exact ⟨trivial, .worked operation x s₀ s hx⟩
      · exact hs
    | performAll operations =>
      exact obeys_performAll_bind (accepted_of_accept hr).uploads hs (fun _ => ⟨trivial, .atOnce⟩)
        (fun _ o x s₀ s hx => ⟨trivial, .worked o x s₀ s hx⟩) fun _ _ hs => hs
    | rerun id operation =>
      refine obeys_work (fun x s₀ s hx => ?_) (fun _ hs => ?_) hs id
      · exact ⟨trivial, .worked operation x s₀ s hx⟩
      · exact hs
    | nothing answer => exact ⟨trivial, .atOnce⟩

/-- **Commands that overlap** do the same. -/
theorem kept_conduct {τ : Type} (service : Service τ) : Kept conduct service :=
  ⟨fun _ _ => trivial, fun command s _ => obeys_program command s, fun _ _ _ => trivial,
    fun _ _ _ => trivial⟩

end Session

end CloudDrive
