import CloudDrive.Proofs.Crowd
import CloudDrive.Session.Command
import CloudDrive.Session.Event

/-!
# Sessions in which commands overlap

A session whose commands are jobs of a crowd: a command may be asked while others wait, and its
calls may be answered in any order. Between the turns there are events, time passes, and whatever
answers the calls may change.

* `mem_jobs_run_cases`, `mem_jobs_run`: which commands are on their way after a turn.
* `Kept.under_runTurns`: terms that commands obey, and that events and time keep, hold throughout.
* `numbered_runTurns`, `job?_runTurns_eq_none`: a command that has ended is not heard of again.
-/

namespace CloudDrive.Session

variable {τ : Type}

/-- A command, and the session in which it was asked. -/
structure Start where
  command : Command
  session : Session

/-- A session with the commands that are on their way. -/
abbrev Crew (τ : Type) := Crowd Session τ Start (Except SessionError Answer)

/-- A command on its way. -/
abbrev Errand := Job Session Start (Except SessionError Answer)

/-- Something that happens to a session. -/
inductive Turn (τ : Type) where
  /-- A command is asked. -/
  | ask (command : Command)
  /-- The command of a number hears what it waits for. -/
  | go (number : Nat)
  | act (event : Event)
  | tick (now : Instant)
  /-- Whatever answers the calls changes. -/
  | outside (change : τ → τ)

/-- Does time pass? -/
def Turn.isTick : Turn τ → Bool
  | .tick _ => true
  | _ => false

/-- What a turn does; and the command that it ends, if it ends one. -/
def Turn.run (service : Service τ) (w : Crew τ) : Turn τ → Option Errand × Crew τ
  | .ask command => w.begin service ⟨command, w.state⟩ command.program
  | .go number => w.go service number
  | .act event => (none, { w with state := (w.state.handle event).2 })
  | .tick now => (none, { w with state := { w.state with clock := now } })
  | .outside change => (none, { w with remote := change w.remote })

/-- What several turns do. -/
def runTurns (service : Service τ) (w : Crew τ) (turns : List (Turn τ)) : Crew τ :=
  turns.foldl (fun w turn => (turn.run service w).2) w

/-- A session in which nothing was asked yet. -/
def Crew.of (s : Session) (t : τ) : Crew τ := ⟨s, t, [], 0⟩

/-! ## Lemmas -/

section
variable (service : Service τ) (w : Crew τ)

@[simp] theorem runTurns_nil : runTurns service w [] = w := rfl

@[simp] theorem runTurns_cons (turn : Turn τ) (turns : List (Turn τ)) :
    runTurns service w (turn :: turns) = runTurns service (turn.run service w).2 turns := rfl

theorem runTurns_append (before after : List (Turn τ)) :
    runTurns service w (before ++ after) =
      runTurns service (runTurns service w before) after :=
  List.foldl_append

end

/-! ### Commands on their way -/

section
variable (service : Service τ) {w : Crew τ} (turn : Turn τ) {job : Errand}

/-- Where a command on its way comes from: it was before, it is asked, or it has gone on. -/
theorem mem_jobs_run_cases (hj : job ∈ (turn.run service w).2.jobs) :
    job ∈ w.jobs ∨
      (∃ command, turn = .ask command ∧ job.number = w.begun ∧ job.label = ⟨command, w.state⟩) ∨
        ∃ old ∈ w.jobs, turn = .go old.number ∧ old.number = job.number ∧ old.label = job.label := by
  cases turn with
  | ask command =>
    simp only [Turn.run, Crowd.begin] at hj
    obtain ⟨rest, state, -, ⟨-, -, hresume⟩ | ⟨-, hresume⟩⟩ :=
      Crowd.resume_cases service { w with begun := w.begun + 1 }
        ⟨w.begun, ⟨command, w.state⟩, none, command.program⟩
    · rw [hresume] at hj
      exact .inl hj
    · rw [hresume] at hj
      rcases List.mem_append.1 hj with hj | hj
      · exact .inl hj
      · rw [List.mem_singleton.1 hj]
        exact .inr (.inl ⟨command, rfl, rfl, rfl⟩)
  | go number =>
    simp only [Turn.run] at hj
    rcases w.go_cases service number with hgo | ⟨old, x, rest, remote, hold, -, hgo⟩
    · rw [hgo] at hj
      exact .inl hj
    · obtain ⟨hmem, rfl⟩ := Crowd.mem_of_job? hold
      rw [hgo] at hj
      obtain ⟨rest', state, -, ⟨-, -, hresume⟩ | ⟨-, hresume⟩⟩ :=
        Crowd.resume_cases service { w with remote, jobs := w.without old.number }
          { old with heard := some x, rest }
      · rw [hresume] at hj
        exact .inl (w.without_subset _ hj)
      · rw [hresume] at hj
        rcases List.mem_append.1 hj with hj | hj
        · exact .inl (w.without_subset _ hj)
        · rw [List.mem_singleton.1 hj]
          exact .inr (.inr ⟨old, hmem, rfl, rfl, rfl⟩)
  | _ => exact .inl hj

theorem mem_jobs_run (hj : job ∈ w.jobs) (hne : turn ≠ .go job.number) :
    job ∈ (turn.run service w).2.jobs := by
  cases turn with
  | ask command =>
    simp only [Turn.run, Crowd.begin]
    obtain ⟨rest, state, -, ⟨-, -, hresume⟩ | ⟨-, hresume⟩⟩ :=
      Crowd.resume_cases service { w with begun := w.begun + 1 }
        ⟨w.begun, ⟨command, w.state⟩, none, command.program⟩
    · rwa [hresume]
    · rw [hresume]
      exact List.mem_append_left _ hj
  | go number =>
    have hnumber : job.number ≠ number := fun heq => hne (heq ▸ rfl)
    have hleft : job ∈ w.without number :=
      (List.mem_eraseP_of_neg (by simpa using hnumber)).2 hj
    simp only [Turn.run]
    rcases w.go_cases service number with hgo | ⟨other, x, rest, remote, -, -, hgo⟩
    · rwa [hgo]
    · rw [hgo]
      obtain ⟨rest', state, -, ⟨-, -, hresume⟩ | ⟨-, hresume⟩⟩ :=
        Crowd.resume_cases service { w with remote, jobs := w.without number }
          { other with heard := some x, rest }
      · rwa [hresume]
      · rw [hresume]
        exact List.mem_append_left _ hleft
  | _ => exact hj

end

/-! ### Terms -/

/-- Terms that every command obeys, and that neither an event nor time breaks. -/
structure Upheld (T : Terms Session Start (Except SessionError Answer)) : Prop where
  asks : ∀ (command : Command) s, T.holds s → command.program.Obeys T ⟨command, s⟩ none s s
  acts : ∀ (event : Event) s, T.holds s → T.holds (s.handle event).2
  ticks : ∀ now s, T.holds s → T.holds { s with clock := now }

/-- The same terms with a service that always answers as they say. -/
structure Kept (T : Terms Session Start (Except SessionError Answer)) (service : Service τ) :
    Prop where
  comes : ∀ t c, T.comes c (service.answer t c).1
  asks : ∀ (command : Command) s, T.holds s → command.program.Obeys T ⟨command, s⟩ none s s
  acts : ∀ (event : Event) s, T.holds s → T.holds (s.handle event).2
  ticks : ∀ now s, T.holds s → T.holds { s with clock := now }

section
variable {T : Terms Session Start (Except SessionError Answer)} {service : Service τ} {w : Crew τ}

theorem Upheld.under_run (hu : Upheld T) (h : w.Under T) (turn : Turn τ)
    (hc : ∀ c, T.comes c (service.answer w.remote c).1) : (turn.run service w).2.Under T := by
  cases turn with
  | ask command => exact (h.begin service (hu.asks command w.state h.holds)).1
  | go number => exact h.go hc number
  | act event => exact h.mono (hu.acts event w.state h.holds) (List.Subset.refl _)
  | tick now => exact h.mono (hu.ticks now w.state h.holds) (List.Subset.refl _)
  | outside change => exact h.mono h.holds (List.Subset.refl _)

/-- The terms hold as long as the service has answered as they say. -/
theorem Upheld.under_runTurns (hu : Upheld T) (h : w.Under T) {turns : List (Turn τ)}
    (hc : ∀ before, before <+: turns →
      ∀ c, T.comes c (service.answer (runTurns service w before).remote c).1) :
    (runTurns service w turns).Under T := by
  induction turns generalizing w with
  | nil => exact h
  | cons turn turns ih =>
    exact ih (hu.under_run h turn (hc [] List.nil_prefix)) fun before hbefore =>
      hc (turn :: before) (List.cons_prefix_cons.2 ⟨rfl, hbefore⟩)

theorem Kept.upheld (hk : Kept T service) : Upheld T := ⟨hk.asks, hk.acts, hk.ticks⟩

theorem Kept.under_run (hk : Kept T service) (h : w.Under T) (turn : Turn τ) :
    (turn.run service w).2.Under T := hk.upheld.under_run h turn (hk.comes _)

theorem Kept.under_runTurns (hk : Kept T service) (h : w.Under T) (turns : List (Turn τ)) :
    (runTurns service w turns).Under T := hk.upheld.under_runTurns h fun _ _ => hk.comes _

theorem under_of {s : Session} (hs : T.holds s) (t : τ) : (Crew.of s t).Under T :=
  ⟨hs, by rintro _ ⟨⟩, by rintro _ ⟨⟩⟩

end

/-! ### Numbers -/

section
variable (service : Service τ) {w : Crew τ}

theorem numbered_of (s : Session) (t : τ) : (Crew.of s t).Numbered :=
  ⟨by rintro _ ⟨⟩, List.nodup_nil⟩

theorem numbered_run (h : w.Numbered) (turn : Turn τ) : (turn.run service w).2.Numbered := by
  cases turn with
  | ask command => exact h.begin service _ _
  | go number => exact h.go service number
  | _ => exact ⟨h.lt_begun, h.nodup⟩

theorem numbered_runTurns (h : w.Numbered) (turns : List (Turn τ)) :
    (runTurns service w turns).Numbered := by
  induction turns generalizing w with
  | nil => exact h
  | cons turn turns ih => exact ih (numbered_run service h turn)

theorem job?_run_eq_none {number : Nat} (hlt : number < w.begun) (h : w.job? number = none)
    (turn : Turn τ) :
    number < (turn.run service w).2.begun ∧ (turn.run service w).2.job? number = none := by
  rw [Crowd.job?_eq_none] at h ⊢
  -- a job of another number is resumed
  have hresume : ∀ (w' : Crew τ) (job : Errand), w'.jobs ⊆ w.jobs → w.begun ≤ w'.begun →
      job.number ≠ number → number < (w'.resume service job).2.begun ∧
        ∀ other ∈ (w'.resume service job).2.jobs, other.number ≠ number := by
    intro w' job hsub hle hne
    obtain ⟨rest, state, -, ⟨a, -, hw⟩ | ⟨-, hw⟩⟩ := w'.resume_cases service job
    · rw [hw]
      exact ⟨Nat.lt_of_lt_of_le hlt hle, fun other ho => h other (hsub ho)⟩
    · rw [hw]
      refine ⟨Nat.lt_of_lt_of_le hlt hle, fun other ho => ?_⟩
      rcases List.mem_append.1 ho with ho | ho
      · exact h other (hsub ho)
      · rw [List.mem_singleton.1 ho]
        exact hne
  cases turn with
  | ask command =>
    exact hresume { w with begun := w.begun + 1 } _ (List.Subset.refl _) (Nat.le_succ _)
      (Nat.ne_of_gt hlt)
  | go other =>
    show number < (w.go service other).2.begun ∧ _
    rcases w.go_cases service other with hgo | ⟨job, x, rest, remote, hjob, -, hgo⟩
    · simp only [Turn.run, hgo]
      exact ⟨hlt, h⟩
    · simp only [Turn.run, hgo]
      exact hresume { w with remote, jobs := w.without other } _ (w.without_subset other)
        (Nat.le_refl _) (h job (Crowd.mem_of_job? hjob).1)
  | _ => exact ⟨hlt, h⟩

theorem job?_runTurns_eq_none {number : Nat} (hlt : number < w.begun)
    (h : w.job? number = none) (turns : List (Turn τ)) :
    (runTurns service w turns).job? number = none := by
  induction turns generalizing w with
  | nil => exact h
  | cons turn turns ih =>
    obtain ⟨hlt', h'⟩ := job?_run_eq_none service hlt h turn
    exact ih hlt' h'

end

end CloudDrive.Session
