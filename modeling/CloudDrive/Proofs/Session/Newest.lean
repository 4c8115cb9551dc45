import CloudDrive.Proofs.Session.Held
import CloudDrive.Proofs.Session.Loads
import CloudDrive.Proofs.Session.Slips

/-!
# The newest load

Loads overtake one another, fail, and are cut off when everything is forgotten. What is shown follows
from what was asked all the same (`heading`), and only the load that was begun last speaks for it.

The invariant is `Steered`: the newest load carries the generation of the session, every older one an
earlier generation.

* `steered_go`, `steered_run`: one turn keeps the session on its heading.
* `only_newest_speaks`: so does every run, whatever the calls are answered and in whatever order.
-/

namespace CloudDrive.Session

variable {τ : Type}

/-! ## What was asked -/

/-- What was asked of a session so far. -/
structure Heading where
  /-- The directory of the last visit that was accepted since everything was forgotten. -/
  path : String
  /-- How many commands were asked. They are numbered in this order. -/
  asked : Nat
  /-- The load that was begun last since everything was forgotten. -/
  newest : Option Nat
  deriving DecidableEq

/-- What was asked, after one more turn. -/
def Heading.after (c : Config) (h : Heading) : Turn τ → Heading
  | .ask command =>
    match command.directory? h.path with
    | some path => ⟨path, h.asked + 1, some h.asked⟩
    | none => { h with asked := h.asked + 1 }
  | .act event => if event.isReset then { h with path := c.rootPath, newest := none } else h
  | _ => h

/-- What the turns ask of a fresh session. -/
def heading (c : Config) (turns : List (Turn τ)) : Heading :=
  turns.foldl (.after c) ⟨c.rootPath, 0, none⟩

section
variable {c : Config} {h : Heading} {command : Command}

theorem after_ask_of_none (hd : command.directory? h.path = none) :
    h.after c (.ask command : Turn τ) = { h with asked := h.asked + 1 } := by
  simp [Heading.after, hd]

theorem after_ask_of_some {path : String} (hd : command.directory? h.path = some path) :
    h.after c (.ask command : Turn τ) = ⟨path, h.asked + 1, some h.asked⟩ := by
  simp [Heading.after, hd]

end

/-! ## The invariant -/

/-- The newest load carries the generation of the session, and every older load an earlier one. -/
def Ranks (newest : Option Nat) (generation : Nat) (job : Errand) : Prop :=
  if newest = some job.number then
    job.label.command.isLoad = true ∧ job.label.session.generation + 1 = generation
  else
    job.label.command.isLoad = true → job.label.session.generation + 1 < generation

/-- The session is as was asked, and the newest load can be told from the others. -/
structure Steered (c : Config) (h : Heading) (w : Crew τ) : Prop where
  config : w.state.config = c
  path : w.state.path = h.path
  begun : w.begun = h.asked
  newest_lt : ∀ n, h.newest = some n → n < h.asked
  ranks : ∀ job ∈ w.jobs, Ranks h.newest w.state.generation job
  loading : w.state.loading = true ↔ ∃ n, h.newest = some n ∧ ∃ job ∈ w.jobs, job.number = n

section
variable {newest : Option Nat} {generation : Nat} {job : Errand}

theorem Ranks.le (h : Ranks newest generation job) (hload : job.label.command.isLoad = true) :
    job.label.session.generation + 1 ≤ generation := by
  unfold Ranks at h
  split at h
  · exact Nat.le_of_eq h.2
  · exact Nat.le_of_lt (h hload)

theorem Ranks.lt (h : Ranks newest generation job) (hload : job.label.command.isLoad = true)
    (hne : newest ≠ some job.number) : job.label.session.generation + 1 < generation := by
  unfold Ranks at h
  rw [if_neg hne] at h
  exact h hload

theorem Ranks.isLoad (h : Ranks newest generation job) (hnewest : newest = some job.number) :
    job.label.command.isLoad = true ∧ job.label.session.generation + 1 = generation := by
  unfold Ranks at h
  rwa [if_pos hnewest] at h

/-- Once the newest load is another one, every load has an earlier generation. -/
theorem Ranks.overtaken (h : Ranks newest generation job) {newest' : Option Nat}
    (hne : newest' ≠ some job.number) : Ranks newest' (generation + 1) job := by
  unfold Ranks
  rw [if_neg hne]
  exact fun hload => Nat.lt_succ_of_le (h.le hload)

end

section
variable {c : Config} {h : Heading} {w w' : Crew τ}

/-- A turn that neither begins nor ends the newest load, and leaves the session as it is but for what
has nothing to do with loads. -/
theorem Steered.same (hs : Steered c h w) (hsame : SameLoads w.state w'.state)
    (hbegun : w'.begun = w.begun)
    (hjobs : ∀ job ∈ w'.jobs, ∃ old ∈ w.jobs, old.number = job.number ∧ old.label = job.label)
    (hnewest : ∀ old ∈ w.jobs, h.newest = some old.number →
      ∃ job ∈ w'.jobs, job.number = old.number) : Steered c h w' where
  config := hsame.config.trans hs.config
  path := hsame.path.trans hs.path
  begun := hbegun.trans hs.begun
  newest_lt := hs.newest_lt
  ranks job hj := by
    obtain ⟨old, hold, hnumber, hlabel⟩ := hjobs job hj
    have hranks := hs.ranks old hold
    unfold Ranks at hranks ⊢
    rwa [← hnumber, ← hlabel, hsame.generation]
  loading := by
    rw [hsame.loading, hs.loading]
    refine exists_congr fun n => and_congr_right fun hn => ⟨fun hold => ?_, fun hjob => ?_⟩
    · obtain ⟨old, hold, rfl⟩ := hold
      exact hnewest old hold hn
    · obtain ⟨job, hj, rfl⟩ := hjob
      obtain ⟨old, hold, hnumber, -⟩ := hjobs job hj
      exact ⟨old, hold, hnumber⟩

/-! ## Turns -/

theorem LoadTurn.of_lt {start : Start} {x : Exchange} {s s' : Session}
    {rest : Program Session (Except SessionError Answer)}
    (hturn : LoadTurn start (some x) s s' rest) (hlt : start.session.generation + 1 < s.generation) :
    s' = { s with cache := s'.cache } := by
  cases hturn with
  | waits _ _ _ => rfl
  | arrives _ listing _ =>
    unfold loaded
    rw [if_neg (Nat.ne_of_gt hlt)]
  | fails _ f _ =>
    unfold loadFailed
    rw [if_neg (Nat.ne_of_gt hlt)]

/-- The newest load waits, and changes nothing, or it is not loading any more. -/
theorem LoadTurn.of_eq {start : Start} {x : Exchange} {s s' : Session}
    {rest : Program Session (Except SessionError Answer)}
    (hturn : LoadTurn start (some x) s s' rest) (heq : start.session.generation + 1 = s.generation) :
    s' = s ∧ rest.result? = none ∨
      (∃ a, rest = .done a) ∧ s'.loading = false ∧ s'.path = s.path ∧ s'.config = s.config ∧
        s'.generation = s.generation := by
  cases hturn with
  | waits _ _ hwaits => exact .inl ⟨rfl, hwaits⟩
  | arrives _ listing _ =>
    unfold loaded
    rw [if_pos heq.symm]
    exact .inr ⟨⟨_, rfl⟩, rfl, rfl, rfl, rfl⟩
  | fails _ f _ =>
    unfold loadFailed
    rw [if_pos heq.symm]
    exact .inr ⟨⟨_, rfl⟩, rfl, rfl, rfl, rfl⟩

/-- A command other than the newest load leaves alone what has to do with loads. -/
theorem Ranks.sameLoads {newest : Option Nat} {job : Errand} {s s' : Session}
    (hranks : Ranks newest s.generation job) (hne : newest ≠ some job.number) {x : Exchange}
    {rest : Program Session (Except SessionError Answer)}
    (hdoes : loads.does job.label (some x) s s' rest) : SameLoads s s' := by
  cases hload : job.label.command.isLoad with
  | true =>
    have hturn : LoadTurn job.label (some x) s s' rest := (if_pos hload).mp hdoes
    rw [hturn.of_lt (hranks.lt hload hne)]
    exact ⟨rfl, rfl, rfl, rfl⟩
  | false => exact (if_neg (by simp [hload])).mp hdoes

theorem Steered.ended_load (hs : Steered c h w) (hn : w.Numbered) {number : Nat}
    (hnewest : h.newest = some number) (remote : τ) {state : Session}
    (hloading : state.loading = false) (hpath : state.path = w.state.path)
    (hconfig : state.config = w.state.config)
    (hgeneration : state.generation = w.state.generation) :
    Steered c h (⟨state, remote, w.without number, w.begun⟩ : Crew τ) where
  config := hconfig.trans hs.config
  path := hpath.trans hs.path
  begun := hs.begun
  newest_lt := hs.newest_lt
  ranks other ho := hgeneration.symm ▸ hs.ranks other (w.without_subset _ ho)
  loading := by
    refine iff_of_false (fun htrue => Bool.false_ne_true (hloading.symm.trans htrue)) fun hother => ?_
    obtain ⟨n, hn', other, ho, rfl⟩ := hother
    exact hn.ne_of_mem_without ho (Option.some.inj (hn'.symm.trans hnewest))

/-- **A command that has heard something** keeps the session on its heading. -/
theorem steered_go (hs : Steered c h w) (hw : w.Under loads) (hn : w.Numbered) (service : Service τ)
    (number : Nat) : Steered c h (w.go service number).2 := by
  rcases hw.go_does (fun _ => trivial) number with
    hgo | ⟨job, x, next, remote, rest, state, hjob, -, hdoes, hresume⟩
  · rwa [hgo]
  · obtain ⟨hmem, rfl⟩ := Crowd.mem_of_job? hjob
    have hranks := hs.ranks job hmem
    have hstate : (w.go service job.number).2.state = state ∧
        (w.go service job.number).2.begun = w.begun := by
      obtain ⟨-, -, hresume⟩ | ⟨-, hresume⟩ := hresume <;> rw [hresume] <;> exact ⟨rfl, rfl⟩
    have holds : ∀ other ∈ (w.go service job.number).2.jobs,
        ∃ old ∈ w.jobs, old.number = other.number ∧ old.label = other.label := by
      intro other ho
      rcases mem_jobs_run_cases service (.go job.number) ho with
        ho | ⟨command, hask, -⟩ | ⟨old, hold, -, hsame⟩
      · exact ⟨other, ho, rfl, rfl⟩
      · cases hask
      · exact ⟨old, hold, hsame⟩
    by_cases hnewest : h.newest = some job.number
    · obtain ⟨hload, hgeneration⟩ := hranks.isLoad hnewest
      have hturn : LoadTurn job.label (some x) w.state state rest := (if_pos hload).mp hdoes
      rcases hturn.of_eq hgeneration with
        ⟨hsame, hnone⟩ | ⟨⟨a, ha⟩, hloading, hpath, hconfig, hgeneration'⟩
      · obtain ⟨a, ha, -⟩ | ⟨-, hresume⟩ := hresume
        · rw [ha] at hnone
          cases hnone
        · refine hs.same (hstate.1.trans hsame ▸ .refl _) hstate.2 holds fun old _ hold => ?_
          rw [hresume]
          exact ⟨_, List.mem_append_right _ (List.mem_singleton_self _),
            Option.some.inj (hnewest.symm.trans hold)⟩
      · obtain ⟨-, -, hresume⟩ | ⟨hnone, -⟩ := hresume
        · rw [hresume]
          exact hs.ended_load hn hnewest remote hloading hpath hconfig hgeneration'
        · rw [ha] at hnone
          cases hnone
    · refine hs.same (hstate.1.symm ▸ hranks.sameLoads hnewest hdoes) hstate.2 holds
        fun old ho hold => ⟨old, mem_jobs_run service (.go job.number) ho fun hgo => ?_, rfl⟩
      injection hgo with hnumber
      exact hnewest (hnumber ▸ hold)

theorem Steered.asked (hs : Steered c h w) {state : Session} (hsame : SameLoads w.state state)
    (remote : τ) {jobs : List Errand}
    (hjobs : ∀ job ∈ jobs, job ∈ w.jobs ∨ job.number = w.begun ∧ job.label.command.isLoad = false)
    (hsub : w.jobs ⊆ jobs) :
    Steered c { h with asked := h.asked + 1 } (⟨state, remote, jobs, w.begun + 1⟩ : Crew τ) where
  config := hsame.config.trans hs.config
  path := hsame.path.trans hs.path
  begun := congrArg (· + 1) hs.begun
  newest_lt n hn := Nat.lt_succ_of_lt (hs.newest_lt n hn)
  ranks job hj := by
    show Ranks h.newest state.generation job
    rw [hsame.generation]
    rcases hjobs job hj with hj | ⟨hnumber, hload⟩
    · exact hs.ranks job hj
    · unfold Ranks
      rw [if_neg fun hn => Nat.ne_of_lt (hs.newest_lt _ hn) (hnumber.trans hs.begun), hload]
      exact fun htrue => absurd htrue Bool.false_ne_true
  loading := by
    show state.loading = true ↔ _
    rw [hsame.loading, hs.loading]
    refine exists_congr fun n => and_congr_right fun hn => exists_congr fun job =>
      and_congr_left fun hnumber => ⟨fun hj => hsub hj, fun hj => ?_⟩
    rcases hjobs job hj with hj | ⟨hbegun, -⟩
    · exact hj
    · exact absurd (hnumber.symm.trans (hbegun.trans hs.begun)) (Nat.ne_of_lt (hs.newest_lt n hn))

theorem Steered.begun_load (hs : Steered c h w) (hn : w.Numbered) {path : String} {s : Session}
    (hvisits : Visits path w.state s) (remote : τ) {job : Errand} (hnumber : job.number = w.begun)
    (hload : job.label.command.isLoad = true)
    (hgeneration : job.label.session.generation = w.state.generation) :
    Steered c ⟨path, h.asked + 1, some h.asked⟩
      (⟨s.beginLoad.2, remote, w.jobs ++ [job], w.begun + 1⟩ : Crew τ) where
  config := hvisits.config.trans hs.config
  path := hvisits.path
  begun := congrArg (· + 1) hs.begun
  newest_lt n hn := Option.some.inj hn ▸ Nat.lt_succ_self _
  ranks other ho := by
    show Ranks _ (s.generation + 1) other
    rw [hvisits.generation]
    rcases List.mem_append.1 ho with ho | ho
    · refine (hs.ranks other ho).overtaken fun hnewest => ?_
      exact Nat.ne_of_lt (hn.lt_begun other ho)
        ((Option.some.inj hnewest).symm.trans hs.begun.symm)
    · rw [List.mem_singleton.1 ho]
      unfold Ranks
      rw [if_pos (by rw [hnumber, hs.begun]), hgeneration]
      exact ⟨hload, rfl⟩
  loading := by
    refine iff_of_true rfl ⟨h.asked, rfl, job, ?_, hnumber.trans hs.begun⟩
    exact List.mem_append_right _ (List.mem_singleton_self _)

/-- **A command that is asked** sets the heading. -/
theorem steered_ask (hs : Steered c h w) (hn : w.Numbered) (service : Service τ)
    (command : Command) :
    Steered c (h.after c (.ask command : Turn τ)) ((Turn.ask command).run service w).2 := by
  obtain ⟨rest, state, hdoes, hresume⟩ := Crowd.begin_does service w (obeys_loads command w.state)
  simp only [Turn.run]
  cases hload : command.isLoad with
  | false =>
    have hsame : SameLoads w.state state := (if_neg (by simp [hload])).mp hdoes
    rw [after_ask_of_none (directory?_of_not_isLoad hload _)]
    obtain ⟨-, -, hresume⟩ | ⟨-, hresume⟩ := hresume
    · rw [hresume]
      exact hs.asked hsame _ (fun job hj => .inl hj) (List.Subset.refl _)
    · rw [hresume]
      refine hs.asked hsame _ (fun job hj => ?_) (List.subset_append_left _ _)
      rcases List.mem_append.1 hj with hj | hj
      · exact .inl hj
      · rw [List.mem_singleton.1 hj]
        exact .inr ⟨rfl, hload⟩
  | true =>
    have hturn : LoadTurn ⟨command, w.state⟩ none w.state state rest := (if_pos hload).mp hdoes
    cases hturn with
    | refused e hpath =>
      rw [after_ask_of_none (hs.path ▸ hpath)]
      obtain ⟨-, -, hresume⟩ | ⟨hnone, -⟩ := hresume
      · rw [hresume]
        exact hs.asked (.refl _) _ (fun job hj => .inl hj) (List.Subset.refl _)
      · cases hnone
    | begins hpath hvisits hwaits =>
      rw [after_ask_of_some (hs.path ▸ hpath)]
      obtain ⟨a, ha, -⟩ | ⟨-, hresume⟩ := hresume
      · rw [ha] at hwaits
        cases hwaits
      · rw [hresume]
        exact hs.begun_load hn hvisits _ rfl hload rfl

/-- **An event** sets the heading only if it makes the session forget everything. -/
theorem steered_act (hs : Steered c h w) (event : Event) :
    Steered c (h.after c (.act event : Turn τ))
      { w with state := (w.state.handle event).2 } := by
  simp only [Heading.after]
  cases he : event.isReset with
  | false =>
    have hsame : SameLoads w.state (w.state.handle event).2 := by
      rw [(handle_eq w.state he).1]
      exact ⟨rfl, rfl, rfl, rfl⟩
    exact hs.same hsame rfl (fun job hj => ⟨job, hj, rfl, rfl⟩) fun old ho _ => ⟨old, ho, rfl⟩
  | true =>
    cases event with
    | reset =>
      exact ⟨hs.config, congrArg Config.rootPath hs.config, hs.begun, fun _ hn => (by cases hn),
        fun job hj => (hs.ranks job hj).overtaken (Option.some_ne_none _).symm,
        iff_of_false Bool.false_ne_true (by simp)⟩
    | _ => cases he

/-- **A load that was overtaken** changes nothing but the cache. -/
theorem overtaken_go (hs : Steered c h w) (hw : w.Under loads) (hn : w.Numbered)
    (service : Service τ) {job : Errand} (hj : job ∈ w.jobs) (hload : job.label.command.isLoad = true)
    (hnewest : h.newest ≠ some job.number) :
    (w.go service job.number).2.state =
      { w.state with cache := (w.go service job.number).2.state.cache } := by
  rcases hw.go_does (fun _ => trivial) job.number with
    hgo | ⟨job', x, next, remote, rest, state, hjob, -, hdoes, hresume⟩
  · rw [hgo]
  · obtain ⟨hmem, hnumber⟩ := Crowd.mem_of_job? hjob
    have heq : job' = job := List.inj_on_of_nodup_map hn.nodup hmem hj hnumber
    subst heq
    have hturn : LoadTurn job'.label (some x) w.state state rest := (if_pos hload).mp hdoes
    have hstate : state = { w.state with cache := state.cache } :=
      hturn.of_lt ((hs.ranks job' hj).lt hload hnewest)
    obtain ⟨-, -, hresume⟩ | ⟨-, hresume⟩ := hresume
    · rw [hresume]
      exact hstate
    · rw [hresume]
      exact hstate

/-- **One turn** keeps the session on its heading. -/
theorem steered_run (hs : Steered c h w) (hw : w.Under loads) (hn : w.Numbered)
    (service : Service τ) (turn : Turn τ) : Steered c (h.after c turn) (turn.run service w).2 := by
  cases turn with
  | ask command => exact steered_ask hs hn service command
  | go number => exact steered_go hs hw hn service number
  | act event => exact steered_act hs event
  | tick now =>
    exact hs.same ⟨rfl, rfl, rfl, rfl⟩ rfl (fun job hj => ⟨job, hj, rfl, rfl⟩)
      fun old ho _ => ⟨old, ho, rfl⟩
  | outside change =>
    exact hs.same (.refl _) rfl (fun job hj => ⟨job, hj, rfl, rfl⟩) fun old ho _ => ⟨old, ho, rfl⟩

theorem steered_of (c : Config) (now : Instant) (t : τ) :
    Steered c (heading c ([] : List (Turn τ))) (.of (start c now) t) :=
  ⟨rfl, rfl, rfl, nofun, by simp [Crew.of], iff_of_false Bool.false_ne_true (by simp [heading])⟩

theorem steered_runTurns (hs : Steered c h w) (hw : w.Under loads) (hn : w.Numbered)
    (service : Service τ) (turns : List (Turn τ)) :
    Steered c (turns.foldl (.after c) h) (runTurns service w turns) := by
  induction turns generalizing h w with
  | nil => exact hs
  | cons turn turns ih =>
    exact ih (steered_run hs hw hn service turn) ((kept_loads service).under_run hw turn)
      (numbered_run service hn turn)

end

/-- **Only the newest load speaks for the view.** Whatever commands are asked, whatever their calls
are answered and in whatever order: the directory that is shown is that of the last visit that was
accepted since everything was forgotten; the session is loading exactly if the load that was begun
last since then is on its way; and every other load on its way changes nothing but the cache when it
hears what it waits for. -/
theorem only_newest_speaks (service : Service τ) (c : Config) (now : Instant) (t : τ)
    (turns : List (Turn τ)) :
    let w := runTurns service (.of (start c now) t) turns
    w.state.path = (heading c turns).path ∧
      (w.state.loading = true ↔
        ∃ n, (heading c turns).newest = some n ∧ ∃ job ∈ w.jobs, job.number = n) ∧
      ∀ job ∈ w.jobs, job.label.command.isLoad = true →
        (heading c turns).newest ≠ some job.number →
        (w.go service job.number).2.state =
          { w.state with cache := (w.go service job.number).2.state.cache } := by
  have hw := (kept_loads service).under_runTurns (under_of (s := start c now) trivial t) turns
  have hn := numbered_runTurns service (numbered_of (start c now) t) turns
  have hs : Steered c (heading c turns) (runTurns service (.of (start c now) t) turns) :=
    steered_runTurns (steered_of c now t) (under_of trivial t) (numbered_of _ t) service turns
  exact ⟨hs.path, hs.loading, fun _ hj hload hnewest =>
    overtaken_go hs hw hn service hj hload hnewest⟩

/-- Two visits, one after the other, of which neither is answered. -/
def twoVisits : List (Turn Store) := [.ask (.navigate "/"), .ask (.navigate "/docs")]

/-- The session after the two visits. -/
def twiceVisited : Crew Store := runTurns .ofStore (.of (start {} default) fileStore) twoVisits

/-- The second of two visits is the newest load, and the answer to the first one changes nothing but
the cache. -/
theorem only_newest_speaks_twoVisits :
    twiceVisited.state.path = "/docs" ∧ twiceVisited.state.loading = true ∧
      ∃ job ∈ twiceVisited.jobs, job.number = 0 ∧ job.label.command.isLoad = true ∧
        (heading {} twoVisits).newest ≠ some job.number ∧
        (twiceVisited.go .ofStore job.number).2.state = { twiceVisited.state with
          cache := (twiceVisited.go .ofStore job.number).2.state.cache } := by
  obtain ⟨hpath, hloading, hothers⟩ :=
    only_newest_speaks .ofStore {} default fileStore twoVisits
  have hfirst : ∃ job ∈ twiceVisited.jobs, job.number = 0 ∧ job.label.command.isLoad = true ∧
      (heading {} twoVisits).newest ≠ some job.number := by decide
  have hnewest : ∃ job ∈ twiceVisited.jobs, job.number = 1 := by decide
  obtain ⟨job, hj, hnumber, hload, hne⟩ := hfirst
  exact ⟨hpath.trans (by decide), hloading.2 ⟨1, by decide, hnewest⟩,
    job, hj, hnumber, hload, hne, hothers job hj hload hne⟩

end CloudDrive.Session
