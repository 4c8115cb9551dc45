import CloudDrive.Proofs.Session.Endings

/-!
# What a reset forgets, and what comes back

A reset empties the cache, the ledger and the notice, but it does not stop the commands that are on
their way. Each of them can still bring something back: as long as its calls succeed it comes to its
end, and a successful end leaves a listing or a notice.

* `Ends.adds`: a command that ends in an empty session, and not with a failure, adds something.
* `returns_of_job?`: so every waiting command adds something in some continuation of the run.
* `never_adds_iff_ended`: after a reset, an earlier command adds nothing any more exactly if it has
  ended by then.
-/

namespace CloudDrive

open Remote (Call)

/-! ## Replies from outside -/

/-- A reply to every call. -/
abbrev Oracle := (c : Call) → c.Reply

/-- What an oracle says is replied, and never changes by itself. -/
def Service.ofOracle : Service Oracle := ⟨fun t _ => t, fun t c => (t c, t)⟩

/-- Every call succeeds. -/
def Oracle.yes : Oracle
  | .list path => .ok (.ofEntries path [])
  | .delete paths => .ok ⟨paths, []⟩
  | .move _ _ => .ok ()
  | .createDirectory _ _ => .ok ()
  | .upload _ _ => .ok ()

theorem Oracle.failure?_yes (c : Call) : (Exchange.reply c (Oracle.yes c)).failure? = none := by
  cases c <;> rfl

namespace Session

/-- The later session holds a listing, a task or a notice that the earlier one does not. -/
def Adds (s s' : Session) : Prop :=
  (∃ key l, s'.cache.get? key = some l ∧ s.cache.get? key ≠ some l) ∨
    (∃ task ∈ s'.ledger.tasks, task ∉ s.ledger.tasks) ∨
    ∃ notice, s'.notice = some notice ∧ s.notice ≠ some notice

theorem not_adds_self (s : Session) : ¬ Adds s s := by
  rintro (⟨key, l, h, hne⟩ | ⟨task, h, hne⟩ | ⟨notice, h, hne⟩) <;> exact hne h

/-- Nothing is cached, listed as a task or shown as a notice. -/
structure Blank (s : Session) : Prop where
  cache : ∀ key, s.cache.get? key = none
  tasks : s.ledger.tasks = []
  notice : s.notice = none

theorem blank_reset (s : Session) : Blank s.reset := ⟨fun _ => rfl, rfl, rfl⟩

/-! ## The last turn of a command -/

section
variable {s s' : Session} (h : Blank s)
include h

theorem Blank.adds_listing {key : String} {l : Listing} (hl : s'.cache.get? key = some l) :
    Adds s s' := .inl ⟨key, l, hl, by rw [h.cache key]; rintro ⟨⟩⟩

theorem Blank.adds_notice (hn : s'.notice.isSome = true) : Adds s s' := by
  obtain ⟨notice, hn⟩ := Option.isSome_iff_exists.1 hn
  exact .inr (.inr ⟨notice, hn, by rw [h.notice]; rintro ⟨⟩⟩)

theorem WorkEnds.adds {operation : Operation} {x : Exchange} (hw : WorkEnds operation x s s')
    (hx : x.failure? = none) : Adds s s' := by
  cases hw with
  | skipped x id label plan => exact h.adds_notice rfl
  | reported x _ s' hn => exact h.adds_notice hn
  | refetched path r =>
    cases r with
    | error f => cases hx
    | ok l =>
      have hl : (s.cache.insert l).get? l.path = some l := by simp
      exact h.adds_listing hl
  | _ => cases hx

/-- **A command that ends** in an empty session, and not with a failure, adds something. -/
theorem Ends.adds {start : Start} {x : Exchange} (he : Ends start (some x) s s')
    (hx : x.failure? = none) : Adds s s' := by
  cases he with
  | loaded path listing _ hr =>
    have hl : (Session.loaded (start.session.generation + 1) listing s).cache =
        s.cache.insert listing := by
      unfold Session.loaded
      simp only
      split <;> rfl
    have hget : (s.cache.insert listing).get? listing.path = some listing := by simp
    exact h.adds_listing (hl ▸ hget)
  | loadFailed path f _ hr => cases hx
  | worked operation x _ _ hw => exact hw.adds h hx

end

/-! ## Commands on their way -/

/-- From now on every call succeeds, and everything is forgotten. -/
def blankTurns : List (Turn Oracle) := [.outside fun _ => .yes, .act .reset]

/-- In some continuation of the run, a turn of the command of this number adds something. -/
def Returns (w : Crew Oracle) (number : Nat) : Prop :=
  ∃ later, Adds (runTurns .ofOracle w later).state
    (runTurns .ofOracle w (later ++ [.go number])).state

theorem Returns.of_runTurns {w : Crew Oracle} {number : Nat} (turns : List (Turn Oracle))
    (h : Returns (runTurns .ofOracle w turns) number) : Returns w number := by
  obtain ⟨later, h⟩ := h
  refine ⟨turns ++ later, ?_⟩
  rwa [List.append_assoc, runTurns_append, runTurns_append]

section
variable {w : Crew Oracle} (hw : w.Under conduct) (hn : w.Numbered) {number : Nat} {job : Errand}
  (hjob : w.job? number = some job)
include hw hn hjob

/-- A command that hears of a success in an emptied session adds something, or waits again. -/
theorem adds_or_waits {x : Exchange} {next : Program Session (Except SessionError Answer)}
    (hx : x.failure? = none)
    (hhear : job.rest.hear .ofOracle .yes = some (x, next, .yes)) :
    Adds (runTurns .ofOracle w blankTurns).state
        (runTurns .ofOracle w (blankTurns ++ [.go number])).state ∨
      ∃ s, (next.settle s).1.result? = none ∧
        (runTurns .ofOracle w (blankTurns ++ [.go number])).job? number =
          some { job with heard := some x, rest := (next.settle s).1 } := by
  obtain ⟨hmem, hnumber⟩ := Crowd.mem_of_job? hjob
  have hobeys : next.Obeys conduct job.label (some x) w.state.reset w.state.reset :=
    (hw.awaits job hmem).hear (fun _ => trivial) hhear trivial
  have hturn : runTurns .ofOracle w (blankTurns ++ [.go number]) =
      (Crowd.resume .ofOracle (⟨w.state.reset, .yes, w.without number, w.begun⟩ : Crew Oracle)
        { job with heard := some x, rest := next }).2 :=
    congrArg Prod.snd (Crowd.go_of_hear
      (w := (⟨w.state.reset, .yes, w.jobs, w.begun⟩ : Crew Oracle)) hjob hhear)
  obtain ⟨rest, state, hsettle, ⟨a, rfl, hresume⟩ | ⟨hnone, hresume⟩⟩ :=
    Crowd.resume_cases .ofOracle (⟨w.state.reset, .yes, w.without number, w.begun⟩ : Crew Oracle)
      { job with heard := some x, rest := next }
  · left
    have hends := hobeys.settle.2.1
    rw [show next.settle w.state.reset = _ from hsettle] at hends
    rw [hturn, hresume]
    exact Ends.adds (blank_reset w.state) hends hx
  · right
    have hrest : (next.settle w.state.reset).1 = rest := congrArg Prod.fst hsettle
    refine ⟨w.state.reset, hrest ▸ hnone, ?_⟩
    rw [hturn, hresume, hrest]
    exact Crowd.job?_append (w := ⟨w.state.reset, .yes, w.without number, w.begun⟩)
      (fun other ho => hn.ne_of_mem_without ho) _ _ _ _ hnumber

end

/-- A job that waits where a program does once it is run brings something back. The induction is on
that program: whatever the job waits for succeeds, in a session that was emptied just before, so
that it adds something or waits again with less to do. -/
theorem returns_of_settle (p : Program Session (Except SessionError Answer)) (s : Session)
    (hwaits : (p.settle s).1.result? = none) {w : Crew Oracle} (hw : w.Under conduct)
    (hn : w.Numbered) {number : Nat} {job : Errand} (hjob : w.job? number = some job)
    (hrest : job.rest = (p.settle s).1) : Returns w number := by
  induction p generalizing s w job with
  | done a => cases hwaits
  | get next ih => exact ih s s hwaits hw hn hjob hrest
  | put s' next ih => exact ih s' hwaits hw hn hjob hrest
  | call c next ih =>
    have hhear : job.rest.hear .ofOracle .yes =
        some (.reply c (Oracle.yes c), next (Oracle.yes c), .yes) := by
      rw [hrest]
      rfl
    rcases adds_or_waits hw hn hjob (Oracle.failure?_yes c) hhear with hadds | ⟨s', hs', hjob'⟩
    · exact ⟨blankTurns, hadds⟩
    · exact .of_runTurns _ (ih _ s' hs' ((kept_conduct .ofOracle).under_runTurns hw _)
        (numbered_runTurns .ofOracle hn _) hjob' rfl)
  | sleep d next ih =>
    have hhear : job.rest.hear .ofOracle .yes = some (.waited d, next, .yes) := by
      rw [hrest]
      rfl
    rcases adds_or_waits hw hn hjob rfl hhear with hadds | ⟨s', hs', hjob'⟩
    · exact ⟨blankTurns, hadds⟩
    · exact .of_runTurns _ (ih s' hs' ((kept_conduct .ofOracle).under_runTurns hw _)
        (numbered_runTurns .ofOracle hn _) hjob' rfl)

/-- **Every command on its way** can bring something back. -/
theorem returns_of_job? {w : Crew Oracle} (hw : w.Under conduct) (hn : w.Numbered) {number : Nat}
    {job : Errand} (hjob : w.job? number = some job) : Returns w number := by
  have hawaits := hw.awaits job (Crowd.mem_of_job? hjob).1
  have hsettled : job.rest.settle w.state = (job.rest, w.state) ∧ job.rest.result? = none := by
    cases hrest : job.rest with
    | call c next => exact ⟨rfl, rfl⟩
    | sleep d next => exact ⟨rfl, rfl⟩
    | _ =>
      rw [hrest] at hawaits
      exact hawaits.elim
  exact returns_of_settle job.rest w.state (by rw [hsettled.1]; exact hsettled.2) hw hn hjob
    (by rw [hsettled.1])

/-- **After a reset**, a command that was asked before adds nothing any more, whatever comes and in
whatever order, exactly if it has ended by then. -/
theorem never_adds_iff_ended (c : Config) (now : Instant) (t : Oracle) (turns : List (Turn Oracle))
    {number : Nat} (hlt : number < (runTurns .ofOracle (.of (start c now) t) turns).begun) :
    (∀ later,
        ¬ Adds (runTurns .ofOracle (.of (start c now) t) (turns ++ .act .reset :: later)).state
          (runTurns .ofOracle (.of (start c now) t)
            (turns ++ .act .reset :: later ++ [.go number])).state) ↔
      (runTurns .ofOracle (.of (start c now) t) turns).job? number = none := by
  have hw := (kept_conduct .ofOracle).under_runTurns (under_of (s := start c now) trivial t) turns
  have hn := numbered_runTurns .ofOracle (numbered_of (start c now) t) turns
  simp only [List.append_assoc, runTurns_append]
  generalize runTurns .ofOracle (.of (start c now) t) turns = w at hlt hw hn ⊢
  constructor
  · intro hnever
    cases hjob : w.job? number with
    | none => rfl
    | some job =>
      obtain ⟨later, hadds⟩ : Returns (runTurns .ofOracle w [.act .reset]) number :=
        returns_of_job? ((kept_conduct .ofOracle).under_runTurns hw _)
          (numbered_runTurns .ofOracle hn _) hjob
      rw [runTurns_append] at hadds
      exact absurd hadds (hnever later)
  · intro hended later
    have hlater := job?_runTurns_eq_none .ofOracle hlt hended (.act .reset :: later)
    have hgo : (Turn.run .ofOracle (runTurns .ofOracle w (.act .reset :: later))
        (.go number)).2 = runTurns .ofOracle w (.act .reset :: later) := by
      simp only [Turn.run, Crowd.go, hlater]
    show ¬ Adds _ (Turn.run .ofOracle (runTurns .ofOracle w (.act .reset :: later))
        (.go number)).2.state
    rw [hgo]
    exact not_adds_self _

/-- The load of a directory, which is on its way when everything is forgotten. -/
def overtakenLoad : List (Turn Oracle) := [.ask (.navigate "/")]

/-- The load of a directory, which has ended. -/
def endedLoad : List (Turn Oracle) := [.ask (.navigate "/"), .go 0]

/-- A load that has ended before the reset brings nothing back. -/
theorem never_adds_endedLoad :
    0 < (runTurns .ofOracle (.of (start {} default) .yes) endedLoad).begun ∧
      ∀ later,
        ¬ Adds (runTurns .ofOracle (.of (start {} default) .yes)
            (endedLoad ++ .act .reset :: later)).state
          (runTurns .ofOracle (.of (start {} default) .yes)
            (endedLoad ++ .act .reset :: later ++ [.go 0])).state := by
  have hlt : 0 < (runTurns .ofOracle (.of (start {} default) .yes) endedLoad).begun := by
    decide
  exact ⟨hlt, (never_adds_iff_ended {} default .yes endedLoad hlt).2 rfl⟩

/-- The listing of a load that was on its way is cached after the reset. -/
theorem overtaken_load_returns :
    0 < (runTurns .ofOracle (.of (start {} default) .yes) overtakenLoad).begun ∧
      Adds (runTurns .ofOracle (.of (start {} default) .yes)
          (overtakenLoad ++ [.act .reset])).state
        (runTurns .ofOracle (.of (start {} default) .yes)
          (overtakenLoad ++ [.act .reset] ++ [.go 0])).state := by
  have hcached : (runTurns .ofOracle (.of (start {} default) .yes)
      (overtakenLoad ++ [.act .reset] ++ [.go 0])).state.cache.get? "/" =
        some (.ofEntries "/" []) := by decide
  have hforgotten : (runTurns .ofOracle (.of (start {} default) .yes)
      (overtakenLoad ++ [.act .reset])).state.cache.get? "/" = none := by decide
  refine ⟨by decide, .inl ⟨"/", .ofEntries "/" [], hcached, ?_⟩⟩
  rw [hforgotten]
  exact nofun

end Session

end CloudDrive
