import CloudDrive.Proofs.Session.Changes
import CloudDrive.Proofs.Session.Turns

/-!
# The turns of loads

What a load does when it is asked, and what it does each time that it has heard something
(`LoadTurn`). Every other command leaves alone which directory is shown and which load is the newest
(`SameLoads`).

* `accept_of_isLoad`: a load is refused, and changes nothing, or its directory is shown.
* `obeys_loads`: each command does in its turns what the terms `loads` say.
-/

namespace CloudDrive

open Remote (Failure)

/-- The directory that a command loads in a session that shows this path, if it loads one. -/
def Session.Command.directory? (path : String) : Session.Command → Option String
  | .navigate typed => (Path.normalize typed).toOption
  | .refresh => some path
  | _ => none

namespace Session

variable {τ : Type}

/-! ## What a turn may come to -/

/-- A directory is shown, and nothing else has become of settings, loads and cache. -/
structure Visits (path : String) (s s' : Session) : Prop where
  path : s'.path = path
  config : s'.config = s.config
  generation : s'.generation = s.generation
  cache : s'.cache = s.cache

/-- What the turn of a load may come to: what it heard last, the session before and after, and what is
left of it. -/
inductive LoadTurn (start : Start) :
    Option Exchange → Session → Session → Program Session (Except SessionError Answer) → Prop where
  /-- A visit to a path that breaks a rule ends at once. -/
  | refused (e : SessionError) (hpath : start.command.directory? start.session.path = none) :
    LoadTurn start none start.session start.session (.done (.error e))
  | begins {path : String} {s : Session} {rest : Program Session (Except SessionError Answer)}
      (hpath : start.command.directory? start.session.path = some path)
      (hvisits : Visits path start.session s) (hwaits : rest.result? = none) :
    LoadTurn start none start.session s.beginLoad.2 rest
  /-- It tries once more. -/
  | waits (x : Exchange) (s : Session) {rest : Program Session (Except SessionError Answer)}
      (hwaits : rest.result? = none) :
    LoadTurn start (some x) s s rest
  | arrives {path : String} (hpath : start.command.directory? start.session.path = some path)
      (listing : Listing) (s : Session) :
    LoadTurn start (some (.reply (.list path) (.ok listing))) s
      (loaded (start.session.generation + 1) listing s) (.done (.ok .done))
  | fails {path : String} (hpath : start.command.directory? start.session.path = some path)
      (f : Failure) (s : Session) :
    LoadTurn start (some (.reply (.list path) (.error f))) s
      (loadFailed (start.session.generation + 1) path f s) (.done (.error (.transport path f)))

/-- The same directory is shown, and the same load is the newest. -/
structure SameLoads (s s' : Session) : Prop where
  path : s'.path = s.path
  loading : s'.loading = s.loading
  generation : s'.generation = s.generation
  config : s'.config = s.config

theorem SameLoads.refl (s : Session) : SameLoads s s := ⟨rfl, rfl, rfl, rfl⟩

theorem SameLoads.trans {s₁ s₂ s₃ : Session} (h : SameLoads s₁ s₂) (h' : SameLoads s₂ s₃) :
    SameLoads s₁ s₃ :=
  ⟨h'.path.trans h.path, h'.loading.trans h.loading, h'.generation.trans h.generation,
    h'.config.trans h.config⟩

theorem SameView.sameLoads {s s' : Session} (h : SameView s s') : SameLoads s s' := by
  unfold SameView at h
  rw [h]
  exact ⟨rfl, rfl, rfl, rfl⟩

/-- What commands do for the loads of a session. Nothing is asked of the replies. -/
def loads : Terms Session Start (Except SessionError Answer) where
  holds _ := True
  comes _ _ := True
  does start last s s' rest :=
    if start.command.isLoad then LoadTurn start last s s' rest else SameLoads s s'

/-! ## Checks -/

section
variable {command : Command} {s : Session}

/-- **The check of a load** finds a directory, or it changes nothing. -/
theorem accept_of_isLoad (h : command.isLoad = true) (s : Session) :
    (∃ e, command.directory? s.path = none ∧ accept command s = (.error e, s)) ∨
      ∃ path s', command.directory? s.path = some path ∧
        accept command s = (.ok (.load path), s') ∧ Visits path s s' := by
  cases command with
  | navigate typed =>
    cases hn : Path.normalize typed with
    | error e =>
      exact .inl ⟨.input e, by simp [Command.directory?, hn, Except.toOption],
        accept_navigate_error hn⟩
    | ok target =>
      refine .inr ⟨target, s.visit target, by simp [Command.directory?, hn, Except.toOption], ?_,
        rfl, rfl, rfl, rfl⟩
      simp [accept, checkTyped, hn, Except.mapError]
  | refresh => exact .inr ⟨s.path, s, rfl, rfl, rfl, rfl, rfl, rfl⟩
  | _ => cases h

theorem directory?_of_not_isLoad (h : command.isLoad = false) (path : String) :
    command.directory? path = none := by
  cases command with
  | navigate typed => cases h
  | refresh => cases h
  | _ => rfl

/-- The check of another command leaves the loads alone. -/
theorem sameLoads_accept (h : command.isLoad = false) : SameLoads s (accept command s).2 := by
  cases command with
  | navigate typed => cases h
  | refresh => cases h
  | confirmMove =>
    simp only [accept]
    split <;> exact ⟨rfl, rfl, rfl, rfl⟩
  | retry id =>
    simp only [accept]
    split
    · exact .refl s
    · split <;> exact ⟨rfl, rfl, rfl, rfl⟩
  | _ => exact .refl s

theorem ne_load_of_accept (h : command.isLoad = false) {request : Request}
    (hr : (accept command s).1 = .ok request) (path : String) : request ≠ .load path := by
  intro heq
  subst heq
  cases hretry : command.isRetry with
  | false => exact isNew_of_accept h hretry hr
  | true =>
    cases command with
    | retry id =>
      simp only [accept] at hr
      repeat' split at hr
      all_goals cases hr
    | _ => cases hretry

end

/-! ## Commands -/

/-- **A load** begins, and then waits until a reply ends it. -/
theorem obeys_load {command : Command} (h : command.isLoad = true) (s : Session) :
    command.program.Obeys loads ⟨command, s⟩ none s s := by
  have hdoes : ∀ {last s₀ s' rest}, LoadTurn ⟨command, s⟩ last s₀ s' rest →
      loads.does ⟨command, s⟩ last s₀ s' rest := fun hturn => (if_pos h).mpr hturn
  unfold Command.program
  rw [Program.obeys_modifyGet_bind]
  rcases accept_of_isLoad h s with ⟨e, hpath, haccept⟩ | ⟨path, s', hpath, haccept, hvisits⟩
  · rw [haccept]
    exact ⟨trivial, hdoes (.refused e hpath)⟩
  · rw [haccept]
    simp only [Request.program, load, fetch, bind_assoc, Program.obeys_modifyGet_bind,
      Program.obeys_get_bind]
    rw [show s'.beginLoad.1 = s.generation + 1 from congrArg (· + 1) hvisits.generation]
    have hwaits : ∀ (f : Except Failure Listing → Program Session (Except SessionError Answer))
        policy n attempt, ((Remote.listFrom path policy attempt n).bind f).result? = none :=
      fun f policy n attempt => by cases n <;> rfl
    refine Program.obeys_list_bind trivial
      (fun n a => hdoes (.begins hpath hvisits (hwaits _ _ n a)))
      (fun x s' n a => hdoes (.waits x s' (hwaits _ _ n a)))
      (fun x s' d n a => hdoes (.waits x s' rfl)) fun r _ s' _ => ?_
    cases r with
    | ok listing => exact ⟨trivial, hdoes (.arrives hpath listing s')⟩
    | error f => exact ⟨trivial, hdoes (.fails hpath f s')⟩

/-- **Every command** keeps to the terms. -/
theorem obeys_loads (command : Command) (s : Session) :
    command.program.Obeys loads ⟨command, s⟩ none s s := by
  cases hload : command.isLoad with
  | true => exact obeys_load hload s
  | false =>
    have hdoes : ∀ last s₀ s' rest, SameLoads s₀ s' → loads.does ⟨command, s⟩ last s₀ s' rest :=
      fun last s₀ s' rest hs => (if_neg (by simp [hload])).mpr hs
    unfold Command.program
    rw [Program.obeys_modifyGet_bind]
    have hs : SameLoads s (accept command s).2 := sameLoads_accept hload
    cases hr : (accept command s).1 with
    | error e => exact ⟨trivial, hdoes _ _ _ _ hs⟩
    | ok request =>
      have hworks : ∀ k s s' k', Works k s s' k' → SameLoads s s' :=
        fun _ _ _ _ h => h.1.sameLoads
      exact (heeds_request (ne_load_of_accept hload hr) _).obeys (R := SameLoads)
        (fun _ _ _ => .trans) .refl hworks (fun _ => trivial) hdoes hs

theorem kept_loads (service : Service τ) : Kept loads service :=
  ⟨fun _ _ => trivial, fun command s _ => obeys_loads command s, fun _ _ _ => trivial,
    fun _ _ _ => trivial⟩

end Session

end CloudDrive
