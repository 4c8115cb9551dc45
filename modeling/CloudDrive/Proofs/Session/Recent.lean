import CloudDrive.Proofs.Distinct
import CloudDrive.Proofs.Session.Held
import CloudDrive.Proofs.Session.Scene

/-!
# The recent directories

A session remembers a few directories that were visited lately, and forgets at each visit what there
is no room for. What it remembers follows from the visits that were asked, whether or not their
listings have come.

* `recent_accept`: the check of a command, which is where a visit is noted.
* `noted_run`: one turn notes its visit.
* `recent_eq_visits`: what is remembered is the first part of the distinct visits.
-/

namespace CloudDrive.Session

variable {τ : Type}

/-! ## Visits -/

/-- The directory that a command visits: the one that was typed, unless it breaks a rule and the
command is refused (`accept_navigate_iff`). -/
def Command.visit? : Command → Option String
  | .navigate typed => (Path.normalize typed).toOption
  | _ => none

/-- The directories visited, after one more turn. -/
def Turn.note (visited : List String) : Turn τ → List String
  | .ask command => command.visit?.toList ++ visited
  | .act event => if event.isReset then [] else visited
  | _ => visited

/-- The directories visited since everything was forgotten, the latest first. -/
def visits (turns : List (Turn τ)) : List String := turns.foldl Turn.note []

theorem accept_navigate_iff {typed : String} {s : Session} {request : Request} :
    (accept (.navigate typed) s).1 = .ok request ↔
      ∃ target, (Command.navigate typed).visit? = some target ∧ request = .load target := by
  cases hn : Path.normalize typed with
  | error e => simp [accept_navigate_error hn, Command.visit?, hn, Except.toOption]
  | ok target =>
    simp [accept, checkTyped, hn, Except.mapError, Command.visit?, Except.toOption, eq_comm]

/-- **The check of a command** puts its visit first, and forgets what there is no room for. -/
theorem recent_accept (command : Command) (s : Session) :
    (accept command s).2.recent =
      match command.visit? with
      | some target => (target :: s.recent.filter (· != target)).take s.config.recentLimit
      | none => s.recent := by
  cases command with
  | navigate typed =>
    cases hn : Path.normalize typed with
    | error e => simp [accept_navigate_error hn, Command.visit?, hn, Except.toOption]
    | ok target =>
      simp [accept, checkTyped, hn, Except.mapError, Command.visit?, Except.toOption, visit]
  | confirmMove =>
    simp only [accept, Command.visit?]
    split <;> rfl
  | retry id =>
    simp only [accept, Command.visit?]
    repeat' split
    all_goals rfl
  | _ => rfl

/-! ## Turns -/

/-- The session has its settings, and remembers the first of these visits without repetitions. -/
structure Noted (c : Config) (visited : List String) (s : Session) : Prop where
  config : s.config = c
  recent : s.recent = visited.eraseDups.take c.recentLimit

section
variable {c : Config} {visited : List String} {s s' : Session}

theorem Noted.of_sameScene (h : Noted c visited s) (hsame : SameScene s s') :
    Noted c visited s' := by
  unfold SameScene at hsame
  rw [hsame]
  exact ⟨h.config, h.recent⟩

/-- A visit comes first, and is left out where it stood before. -/
theorem Noted.accept (h : Noted c visited s) (command : Command) :
    Noted c (command.visit?.toList ++ visited) (accept command s).2 := by
  refine ⟨(accept_keeps command s).1.trans h.config, ?_⟩
  rw [recent_accept, h.config, h.recent]
  cases command.visit? with
  | none => rfl
  | some target => exact (take_eraseDups_cons target visited c.recentLimit).symm

theorem Noted.handle (h : Noted c visited s) (event : Event) :
    Noted c ((Turn.act event : Turn τ).note visited) (s.handle event).2 := by
  cases hreset : event.isReset with
  | true =>
    cases event with
    | reset => exact ⟨h.config, List.take_nil.symm⟩
    | _ => cases hreset
  | false =>
    simp only [Turn.note, hreset, Bool.false_eq_true, if_false]
    rw [(handle_eq s hreset).1]
    exact ⟨h.config, h.recent⟩

end

/-- **One turn** notes its visit, if it is one, or forgets them all. -/
theorem noted_run (service : Service τ) {w : Crew τ} (hw : w.Heeding sceneRules) {c : Config}
    {visited : List String} (h : Noted c visited w.state) (turn : Turn τ) :
    Noted c (turn.note visited) (turn.run service w).2.state ∧
      (turn.run service w).2.Heeding sceneRules := by
  cases turn with
  | ask command =>
    obtain ⟨hsame, hheeding⟩ := scene_ask service hw command
    exact ⟨(h.accept command).of_sameScene hsame, hheeding⟩
  | go number =>
    obtain ⟨hsame, hheeding⟩ := scene_go service hw number
    exact ⟨h.of_sameScene hsame, hheeding⟩
  | act event => exact ⟨h.handle event, hw⟩
  | tick now => exact ⟨⟨h.config, h.recent⟩, hw⟩
  | outside change => exact ⟨h, hw⟩

theorem noted_runTurns (service : Service τ) {w : Crew τ} (hw : w.Heeding sceneRules) {c : Config}
    {visited : List String} (h : Noted c visited w.state) (turns : List (Turn τ)) :
    Noted c (turns.foldl Turn.note visited) (runTurns service w turns).state := by
  induction turns generalizing w visited with
  | nil => exact h
  | cons turn turns ih =>
    obtain ⟨hnoted, hheeding⟩ := noted_run service hw h turn
    exact ih hheeding hnoted

/-- **The recent directories are the distinct latest visits.** Whatever commands and events there
are, in whatever order their calls are answered and whether or not they succeed: a session remembers
the directories that were visited since everything was forgotten, the latest first and each once, as
many as its settings allow. -/
theorem recent_eq_visits (service : Service τ) (c : Config) (now : Instant) (t : τ)
    (turns : List (Turn τ)) :
    (runTurns service (.of (start c now) t) turns).state.recent =
      (visits turns).eraseDups.take c.recentLimit := by
  have hstart : Noted c [] (start c now) := ⟨rfl, List.take_nil.symm⟩
  have hnobody : (Crew.of (start c now) t).Heeding sceneRules := by rintro _ ⟨⟩
  exact (noted_runTurns service hnobody hstart turns).recent

/-- There is room for two. The visit of `/b` fails, that of `/c` waits, and `/a` comes back. -/
example :
    (runTurns .ofStore
      (.of (start { recentLimit := 2 } default) (.ofCatalog (.ofEntries []) default))
      [.ask (.navigate "/a/"), .ask (.navigate "/b"), .go 1, .ask (.navigate "c"),
        .ask (.navigate "/c"), .ask (.navigate "/a")]).state.recent = ["/a", "/c"] := by
  decide

end CloudDrive.Session
