import CloudDrive.Proofs.Path.Typed
import CloudDrive.Session.Command

/-!
# What the check of a command comes to

`Ruling` lists what the check of each command can come to: what is answered, the session
afterwards, and what the check has made sure of. `Accepted` is the part of it that the work behind
a command depends on.

* `ruling_accept`: there is nothing else.
* `accepted_of_accept`: the work that an accepted command can come to.
* `isNew_of_accept`: loads come of visits and refreshes only, and runs of an old task of retries only.
* `accept_cases`, `accept_keeps`: the session after a check. `generation_accept`: a check begins no
  load.
-/

namespace CloudDrive.Session

open Path (IsComponent)

/-! ## Tests -/

theorem exists_of_bind_eq_ok {ε α β : Type} {x : Except ε α} {f : α → Except ε β} {b : β}
    (h : x >>= f = .ok b) : ∃ a, x = .ok a ∧ f a = .ok b := by
  cases x with
  | error e => cases h
  | ok a => exact ⟨a, rfl, h⟩

theorem checkTyped_eq_ok {result : Except Path.InputError String} {text : String}
    (h : checkTyped result = .ok text) : result = .ok text := by
  cases result with
  | error e => cases h
  | ok x => exact congrArg Except.ok (Except.ok.inj h)

section
variable {s : Session}

theorem checkDestination_eq_ok {path : String} {u : Unit} (h : s.checkDestination path = .ok u) :
    Trash.isReserved s.config path = false := by
  unfold checkDestination at h
  split at h
  · cases h
  · next hr => simpa using hr

theorem selectedNames_eq_ok {names : List String} (h : s.selectedNames = .ok names) :
    s.selection.names ≠ [] ∧ names = s.selection.names := by
  unfold selectedNames at h
  split at h
  · cases h
  · next hsome => exact ⟨by simpa using hsome, (Except.ok.inj h).symm⟩

theorem selectedPaths_eq_ok {paths : List String} (h : s.selectedPaths = .ok paths) :
    s.selection.names ≠ [] ∧ paths = s.selection.names.map (Path.join s.path) := by
  unfold selectedPaths at h
  cases hn : s.selectedNames with
  | error e =>
    rw [hn] at h
    cases h
  | ok names =>
    obtain ⟨hsome, rfl⟩ := selectedNames_eq_ok hn
    rw [hn] at h
    exact ⟨hsome, (Except.ok.inj h).symm⟩

end

/-! ## Rulings -/

/-- What the check of a command comes to: the answer, and the session afterwards. -/
inductive Ruling (s : Session) : Command → Except SessionError Request × Session → Prop where
  | refused (command : Command) (e : SessionError)
      (h : command = .confirmMove → s.pendingDrop = none) : Ruling s command (.error e, s)
  | visit (typed target : String) (h : Path.normalize typed = .ok target) :
      Ruling s (.navigate typed) (.ok (.load target), s.visit target)
  | refresh : Ruling s .refresh (.ok (.load s.path), s)
  /-- The consent is spent all the same. -/
  | dropRefused (drop : Pointer.Drop) (hdrop : s.pendingDrop = some drop) (e : SessionError) :
      Ruling s .confirmMove (.error e, { s with pendingDrop := none })
  | drop (drop : Pointer.Drop) (hdrop : s.pendingDrop = some drop)
      (h : Trash.isReserved s.config drop.targetPath = false) :
      Ruling s .confirmMove
        (.ok (.perform (.moveEntries (drop.sources.map (Path.join s.path)) drop.targetPath)),
          { s with pendingDrop := none })
  | moveTo (typed destination : String) (hd : Path.normalize typed = .ok destination)
      (h : Trash.isReserved s.config destination = false) (hsome : s.selection.names ≠ []) :
      Ruling s (.moveTo typed)
        (.ok (.perform (.moveEntries (s.selection.names.map (Path.join s.path)) destination)), s)
  | trash (command : Command)
      (h : command = .trash ∨ command = .delete ∧ s.viewKind ≠ .trash)
      (hsome : s.selection.names ≠ []) :
      Ruling s command
        (.ok (.perform (.moveToTrash (s.selection.names.map (Path.join s.path)))), s)
  | restore (h : s.viewKind = .trash) (hsome : s.selection.names ≠ []) :
      Ruling s .restore (.ok (.perform (.restoreFromTrash s.selection.names)), s)
  | delete (command : Command)
      (h : command = .deletePermanently ∨ command = .delete ∧ s.viewKind = .trash)
      (hsome : s.selection.names ≠ []) :
      Ruling s command
        (.ok (.perform (.deleteEntries (s.selection.names.map (Path.join s.path)))), s)
  | createDirectory (typed name : String) (hname : Path.validateName typed = .ok name)
      (h : Trash.isReserved s.config (Path.join s.path name) = false) :
      Ruling s (.createDirectory typed) (.ok (.perform (.createDirectory s.path name)), s)
  | sameName (name typed : String) (hname : Path.validateName typed = .ok name) :
      Ruling s (.rename name typed) (.ok (.nothing .unchanged), s)
  | rename (name typed newName : String) (hname : Path.validateName typed = .ok newName)
      (hne : newName ≠ name) (h : Trash.isReserved s.config (Path.join s.path newName) = false) :
      Ruling s (.rename name typed)
        (.ok (.perform (.rename (Path.join s.path name) newName)), s)
  | upload (files : List Remote.UploadFile) (h : Trash.isReserved s.config s.path = false) :
      Ruling s (.upload files) (.ok (.performAll (files.map (.upload · s.path))), s)
  | notRetried (id : TaskId) (hfound : (s.ledger.get? id).isSome = true)
      (h : (s.ledger.beginRetry id).1 = none) :
      Ruling s (.retry id)
        (.ok (.nothing (.retried false)), { s with ledger := (s.ledger.beginRetry id).2 })
  | retried (id : TaskId) (operation : Operation)
      (h : (s.ledger.beginRetry id).1 = some operation) :
      Ruling s (.retry id)
        (.ok (.rerun id operation), { s with ledger := (s.ledger.beginRetry id).2 })

section
variable {s : Session} {command : Command} {request : Request}

/-- The check of a command that has but one test result and leaves the session as it is. -/
theorem Ruling.of_result {result : Except SessionError Request} (hne : command ≠ .confirmMove)
    (h : ∀ request, result = .ok request → Ruling s command (.ok request, s)) :
    Ruling s command (result, s) := by
  cases result with
  | error e => exact .refused command e fun heq => absurd heq hne
  | ok request => exact h request rfl

theorem ruling_trashRequest (h : command = .trash ∨ command = .delete ∧ s.viewKind ≠ .trash) :
    Ruling s command (s.trashRequest, s) := by
  have hne : command ≠ .confirmMove := by rcases h with rfl | ⟨rfl, -⟩ <;> simp
  refine .of_result hne fun request hr => ?_
  obtain ⟨paths, hpaths, hr⟩ := exists_of_bind_eq_ok hr
  obtain ⟨hsome, rfl⟩ := selectedPaths_eq_ok hpaths
  cases hr
  exact .trash command h hsome

theorem ruling_deleteRequest
    (h : command = .deletePermanently ∨ command = .delete ∧ s.viewKind = .trash) :
    Ruling s command (s.deleteRequest, s) := by
  have hne : command ≠ .confirmMove := by rcases h with rfl | ⟨rfl, -⟩ <;> simp
  refine .of_result hne fun request hr => ?_
  obtain ⟨paths, hpaths, hr⟩ := exists_of_bind_eq_ok hr
  obtain ⟨hsome, rfl⟩ := selectedPaths_eq_ok hpaths
  cases hr
  exact .delete command h hsome

theorem ruling_navigate (typed : String) (s : Session) :
    Ruling s (.navigate typed) (accept (.navigate typed) s) := by
  simp only [accept]
  cases h : checkTyped (Path.normalize typed) with
  | error e => exact .refused _ e (by simp)
  | ok target => exact .visit typed target (checkTyped_eq_ok h)

theorem ruling_confirmMove (s : Session) : Ruling s .confirmMove (accept .confirmMove s) := by
  simp only [accept]
  cases hdrop : s.pendingDrop with
  | none => exact .refused _ _ fun _ => hdrop
  | some drop =>
    show Ruling s .confirmMove (s.dropRequest drop, { s with pendingDrop := none })
    cases hr : s.dropRequest drop with
    | error e => exact .dropRefused drop hdrop e
    | ok request =>
      obtain ⟨_, hd, hr⟩ := exists_of_bind_eq_ok hr
      cases hr
      exact .drop drop hdrop (checkDestination_eq_ok hd)

theorem ruling_moveRequest (typed : String) : Ruling s (.moveTo typed) (s.moveRequest typed, s) := by
  refine .of_result (by simp) fun request hr => ?_
  obtain ⟨destination, hdestination, hr⟩ := exists_of_bind_eq_ok hr
  obtain ⟨_, hd, hr⟩ := exists_of_bind_eq_ok hr
  obtain ⟨paths, hpaths, hr⟩ := exists_of_bind_eq_ok hr
  obtain ⟨hsome, rfl⟩ := selectedPaths_eq_ok hpaths
  cases hr
  exact .moveTo typed destination (checkTyped_eq_ok hdestination) (checkDestination_eq_ok hd) hsome

theorem ruling_restoreRequest : Ruling s .restore (s.restoreRequest, s) := by
  refine .of_result (by simp) fun request hr => ?_
  unfold restoreRequest at hr
  split at hr
  · cases hr
  · next htrash =>
    obtain ⟨names, hnames, hr⟩ := exists_of_bind_eq_ok hr
    obtain ⟨hsome, rfl⟩ := selectedNames_eq_ok hnames
    cases hr
    exact .restore (not_not.1 htrash) hsome

theorem ruling_createRequest (typed : String) :
    Ruling s (.createDirectory typed) (s.createRequest typed, s) := by
  refine .of_result (by simp) fun request hr => ?_
  obtain ⟨name, hname, hr⟩ := exists_of_bind_eq_ok hr
  obtain ⟨_, hd, hr⟩ := exists_of_bind_eq_ok hr
  cases hr
  exact .createDirectory typed name (checkTyped_eq_ok hname) (checkDestination_eq_ok hd)

theorem ruling_renameRequest (name typed : String) :
    Ruling s (.rename name typed) (s.renameRequest name typed, s) := by
  refine .of_result (by simp) fun request hr => ?_
  obtain ⟨newName, hname, hr⟩ := exists_of_bind_eq_ok hr
  split at hr
  · next hsame =>
    cases hr
    exact .sameName name typed (hsame ▸ checkTyped_eq_ok hname)
  · next hne =>
    obtain ⟨_, hd, hr⟩ := exists_of_bind_eq_ok hr
    cases hr
    exact .rename name typed newName (checkTyped_eq_ok hname) hne (checkDestination_eq_ok hd)

theorem ruling_uploadRequest (files : List Remote.UploadFile) :
    Ruling s (.upload files) (s.uploadRequest files, s) := by
  refine .of_result (by simp) fun request hr => ?_
  obtain ⟨_, hd, hr⟩ := exists_of_bind_eq_ok hr
  cases hr
  exact .upload files (checkDestination_eq_ok hd)

theorem ruling_retry (id : TaskId) (s : Session) :
    Ruling s (.retry id) (accept (.retry id) s) := by
  simp only [accept]
  split
  · exact .refused _ _ (by simp)
  · next hfound =>
    have hfound : (s.ledger.get? id).isSome = true := by
      simpa [Option.isSome_iff_ne_none] using hfound
    split
    · next ledger hb =>
      obtain rfl : (s.ledger.beginRetry id).2 = ledger := congrArg Prod.snd hb
      exact .notRetried id hfound (congrArg Prod.fst hb)
    · next operation ledger hb =>
      obtain rfl : (s.ledger.beginRetry id).2 = ledger := congrArg Prod.snd hb
      exact .retried id operation (congrArg Prod.fst hb)

/-- **The check of a command** comes to nothing else. -/
theorem ruling_accept (command : Command) (s : Session) :
    Ruling s command (accept command s) := by
  cases command with
  | navigate typed => exact ruling_navigate typed s
  | refresh => exact .refresh
  | confirmMove => exact ruling_confirmMove s
  | moveTo typed => exact ruling_moveRequest typed
  | trash => exact ruling_trashRequest (.inl rfl)
  | restore => exact ruling_restoreRequest
  | deletePermanently => exact ruling_deleteRequest (.inl rfl)
  | delete =>
    simp only [accept]
    split
    · next htrash => exact ruling_deleteRequest (.inr ⟨rfl, htrash⟩)
    · next htrash => exact ruling_trashRequest (.inr ⟨rfl, htrash⟩)
  | createDirectory typed => exact ruling_createRequest typed
  | rename name typed => exact ruling_renameRequest name typed
  | upload files => exact ruling_uploadRequest files
  | retry id => exact ruling_retry id s

theorem exists_ruling (h : (accept command s).1 = .ok request) :
    ∃ s', Ruling s command (.ok request, s') :=
  ⟨(accept command s).2, h ▸ ruling_accept command s⟩

end

/-! ## Accepted work -/

/-- The work that a command can come to in a session. -/
inductive Accepted (s : Session) : Request → Prop where
  | load (path : String) : Accepted s (.load path)
  | moveEntries (sources : List String) (destination : String)
      (h : Trash.isReserved s.config destination = false) :
      Accepted s (.perform (.moveEntries sources destination))
  | moveToTrash (sources : List String) : Accepted s (.perform (.moveToTrash sources))
  | restoreFromTrash (names : List String) : Accepted s (.perform (.restoreFromTrash names))
  | deleteEntries (paths : List String) : Accepted s (.perform (.deleteEntries paths))
  | createDirectory (name : String) (hn : IsComponent name)
      (h : Trash.isReserved s.config (Path.join s.path name) = false) :
      Accepted s (.perform (.createDirectory s.path name))
  | rename (name newName : String) (hn : IsComponent newName)
      (h : Trash.isReserved s.config (Path.join s.path newName) = false) :
      Accepted s (.perform (.rename (Path.join s.path name) newName))
  | upload (files : List Remote.UploadFile) (h : Trash.isReserved s.config s.path = false) :
      Accepted s (.performAll (files.map (.upload · s.path)))
  | rerun (id : TaskId) (operation : Operation) (h : operation ∈ (s.ledger.beginRetry id).1) :
      Accepted s (.rerun id operation)
  | nothing (answer : Answer) : Accepted s (.nothing answer)

section
variable {s : Session} {command : Command} {request : Request}

/-- **The check of a command** lets nothing else through. -/
theorem accepted_of_accept (h : (accept command s).1 = .ok request) : Accepted s request := by
  obtain ⟨s', hruling⟩ := exists_ruling h
  cases hruling with
  | visit typed target _ => exact .load target
  | refresh => exact .load s.path
  | drop drop _ hd => exact .moveEntries _ _ hd
  | moveTo typed destination _ hd _ => exact .moveEntries _ destination hd
  | trash => exact .moveToTrash _
  | restore => exact .restoreFromTrash _
  | delete => exact .deleteEntries _
  | createDirectory typed name hname hd =>
    exact .createDirectory name (Path.isComponent_of_validateName hname) hd
  | sameName => exact .nothing _
  | rename name typed newName hname _ hd =>
    exact .rename name newName (Path.isComponent_of_validateName hname) hd
  | upload files hd => exact .upload files hd
  | notRetried => exact .nothing _
  | retried id operation hb => exact .rerun id operation hb

theorem Accepted.uploads {operations : List Operation} (h : Accepted s (.performAll operations)) :
    ∀ o ∈ operations, ∃ file directory, o = .upload file directory := by
  cases h with
  | upload files _ =>
    intro o ho
    obtain ⟨file, -, rfl⟩ := List.mem_map.1 ho
    exact ⟨file, s.path, rfl⟩

end

/-- Does an accepted command load a directory? -/
def Command.isLoad : Command → Bool
  | .navigate _ | .refresh => true
  | _ => false

/-- Does the command run an old task again? -/
def Command.isRetry : Command → Bool
  | .retry _ => true
  | _ => false

/-- The work is for new tasks, or there is none because a name stays as it is. -/
def Request.IsNew : Request → Prop
  | .perform _ | .performAll _ | .nothing .unchanged => True
  | _ => False

/-- Neither a load nor a run of an old task comes of any other command. -/
theorem isNew_of_accept {command : Command} (hload : command.isLoad = false)
    (hretry : command.isRetry = false) {s : Session} {request : Request}
    (h : (accept command s).1 = .ok request) : request.IsNew := by
  obtain ⟨s', hruling⟩ := exists_ruling h
  cases hruling with
  | visit => cases hload
  | refresh => cases hload
  | notRetried => cases hretry
  | retried => cases hretry
  | _ => trivial

/-- **The session after a check**: another directory is visited, or at most the drop that waits and
the ledger have changed. -/
theorem accept_cases (command : Command) (s : Session) :
    (∃ path, (accept command s).1 = .ok (.load path) ∧ (accept command s).2 = s.visit path) ∨
      ∃ pendingDrop ledger, (accept command s).2 = { s with pendingDrop, ledger } := by
  have hruling := ruling_accept command s
  generalize accept command s = checked at hruling ⊢
  cases hruling with
  | visit typed target _ => exact .inl ⟨target, rfl, rfl⟩
  | _ => exact .inr ⟨_, _, rfl⟩

theorem accept_keeps (command : Command) (s : Session) :
    (accept command s).2.config = s.config ∧ (accept command s).2.cache = s.cache := by
  rcases accept_cases command s with ⟨path, -, hvisit⟩ | ⟨_, _, hstays⟩
  · rw [hvisit]
    exact ⟨rfl, rfl⟩
  · rw [hstays]
    exact ⟨rfl, rfl⟩

theorem generation_accept (command : Command) (s : Session) :
    (accept command s).2.generation = s.generation := by
  rcases accept_cases command s with ⟨path, -, hvisit⟩ | ⟨_, _, hstays⟩
  · rw [hvisit]
    rfl
  · rw [hstays]

end CloudDrive.Session
