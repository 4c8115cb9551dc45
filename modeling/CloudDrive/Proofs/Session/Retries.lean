import CloudDrive.Proofs.Session.Names
import CloudDrive.Proofs.Session.Tracks
import Mathlib.Data.List.Infix

/-!
# Retries of a batch

A batch and its retries over a store, while anything else happens.

* `tracks_first`: the command that starts the task is asked. * `exists_tracks`: any turns after it.
* `retries_narrow`: each retry repeats only what failed before.
-/

namespace CloudDrive

open Path (IsComponent)

namespace Session

variable {τ : Type}

/-! ## The first run -/

/-- Every command on its way keeps to the rules for what comes after a check. -/
def AreChecked (w : Crew τ) : Prop :=
  ∀ errand ∈ w.jobs, ∃ k, ∀ s, errand.rest.Heeds checkedRules Cleared k s

theorem areChecked_of (s : Session) (t : τ) : AreChecked (Crew.of s t) := by rintro _ ⟨⟩

theorem heeds_checkedProgram (r : Except SessionError Request) :
    ∃ k, ∀ s, (checkedProgram r).Heeds checkedRules Cleared k s := by
  cases r with
  | error e => exact ⟨.fresh, fun _ => cleared_of_ne rfl (by simp)⟩
  | ok request => exact ⟨_, heeds_checked request⟩

section
variable {w : Crew τ} (h : AreChecked w) (service : Service τ)
include h

theorem areChecked_resume {errand : Errand} {k : Standing}
    (hk : errand.rest.Heeds checkedRules Cleared k w.state) :
    AreChecked (w.resume service errand).2 := by
  obtain ⟨k', -, -, hwaits⟩ := hk.settle (P := fun _ _ => True) (fun _ _ _ _ _ _ => trivial) trivial
  obtain ⟨rest, state, hsettle, ⟨a, -, hresume⟩ | ⟨hnone, hresume⟩⟩ := w.resume_cases service errand
  · rw [hresume]
    exact h
  · rw [hresume]
    rw [hsettle] at hwaits
    intro other ho
    rcases List.mem_append.1 ho with ho | ho
    · exact h other ho
    · exact List.mem_singleton.1 ho ▸ ⟨k', (hwaits hnone).2⟩

theorem areChecked_run (turn : Turn τ) : AreChecked (turn.run service w).2 := by
  cases turn with
  | ask command =>
    rw [run_ask]
    obtain ⟨k, hk⟩ := heeds_checkedProgram (accept command w.state).1
    have hw : AreChecked { w with state := (accept command w.state).2, begun := w.begun + 1 } := h
    exact areChecked_resume hw service (hk _)
  | go number =>
    simp only [Turn.run]
    rcases w.go_cases service number with hgo | ⟨errand, x, rest, remote, hjob, hx, hgo⟩
    · rwa [hgo]
    · rw [hgo]
      obtain ⟨k, hk⟩ := h errand (Crowd.mem_of_job? hjob).1
      have hw : AreChecked { w with remote, jobs := w.without number } :=
        fun other ho => h other (w.without_subset number ho)
      exact areChecked_resume hw service ((hk w.state).hear hx w.state)
  | _ => exact h

theorem areChecked_runTurns (turns : List (Turn τ)) : AreChecked (runTurns service w turns) := by
  induction turns generalizing w with
  | nil => exact h
  | cons turn turns ih => exact ih (areChecked_run h service turn)

end

namespace Batch

/-- The batch of a task that is about to start. -/
def next (s : Session) (kind : BatchKind) (sources : List String) : Batch :=
  ⟨s.config, ⟨s.ledger.nextId⟩, kind, sources⟩

section
variable {w : Crew τ}

/-- A command on its way owes no report of a task that is to start. -/
theorem employed_of_settled (hw : Settled w) (hc : AreChecked w) {kind : BatchKind}
    {sources : List String} {errand : Errand} (he : errand ∈ w.jobs) :
    (next w.state kind sources).Employed none (fun _ => none) errand := by
  obtain ⟨k, hk⟩ := hc errand he
  refine .other rfl (fun hdebt => ?_) hk
  have htask : ∀ s, errand.rest.Heeds taskRules Cleared k s := fun s =>
    (hk s).mono (fun _ _ _ _ h => h.leads) (fun _ h => h) fun _ _ h => h
  have hlt := hw.balanced.owed_lt _ ⟨errand, he, (owes_iff htask _).2 hdebt⟩
  exact Nat.lt_irrefl _ hlt

/-- **The first run** begins. -/
theorem tracks_first (hw : Settled w) (hc : AreChecked w) (hn : w.Numbered) (service : Service τ)
    {command : Command} {kind : BatchKind} {sources : List String}
    (hr : (accept command w.state).1 = .ok (.perform (kind.operation sources)))
    (hb : (next w.state kind sources).Named) :
    ∃ open?, (next w.state kind sources).Tracks open?
      ((Turn.ask command).runs service ⟨w.state.ledger.nextId⟩ w fun _ => none)
      ((Turn.ask command).run service w).2 := by
  have hsilent : (accept command w.state).2.ledger = w.state.ledger :=
    (leads_accept hr).of_fresh.2.1
  have hrun : Start.run? ⟨command, w.state⟩ =
      some (⟨w.state.ledger.nextId⟩, kind.operation sources) := by
    simp only [Start.run?, hr]
  have hruns : (Turn.ask command).runs service ⟨w.state.ledger.nextId⟩ w (fun _ => none) =
      Function.update (fun _ => none) w.begun (some ⟨kind.operation sources, []⟩) := by
    simp only [Turn.runs, hrun, if_pos]
  have hprogram : checkedProgram (.ok (.perform (kind.operation sources))) =
      modifyGet (beginTask (kind.operation sources)) >>= fun id =>
        work id (kind.operation sources) >>= fun _ => pure (.ok (.task id)) := by
    simp only [checkedProgram, Request.program, perform, bind_assoc, pure_bind]
  rw [hruns, run_ask, hr, hprogram, Crowd.resume_modifyGet]
  have hid : ((accept command w.state).2.beginTask (kind.operation sources)).1 =
      ⟨w.state.ledger.nextId⟩ := congrArg (fun l : Ledger => (⟨l.nextId⟩ : TaskId)) hsilent
  have hconfig : ((accept command w.state).2.beginTask (kind.operation sources)).2.config =
      w.state.config := (accept_keeps command w.state).1
  have hbooks : (next w.state kind sources).Books (some w.begun) (fun _ => none)
      ((accept command w.state).2.beginTask (kind.operation sources)).2.ledger := by
    unfold beginTask
    rw [hsilent]
    exact .start hw.balanced.lt_nextId rfl _ _
  simp only [hid]
  exact Tracks.begin hb (fun n run hn => by cases hn) hbooks hconfig
    (fun errand he => employed_of_settled hw hc he) hn (fun _ _ => rfl) (List.Sublist.refl _)
    (fun n run hn => by cases hn) service hrun _

end

/-! ## Any turns -/

section
variable {w : Crew Store} (hw : Settled w) (hc : AreChecked w) (hn : w.Numbered)
  (hu : w.Under (duty w.state.config)) {command : Command} {kind : BatchKind}
  {sources : List String}
  (hr : (accept command w.state).1 = .ok (.perform (kind.operation sources)))
  (hb : (next w.state kind sources).Named)
include hw hc hn hu hr hb

/-- **A batch and its retries**, whatever else happens. -/
theorem exists_tracks (after : List (Turn Store)) :
    ∃ open?, (next w.state kind sources).Tracks open?
      (taskRuns .ofStore ⟨w.state.ledger.nextId⟩ w (.ask command :: after))
      (runTurns .ofStore w (.ask command :: after)) := by
  induction after using List.reverseRecOn with
  | nil => exact tracks_first hw hc hn .ofStore hr hb
  | append_singleton after turn ih =>
    obtain ⟨open?, htracks⟩ := ih
    have hunder := (kept_duty w.state.config).under_runTurns hu (.ask command :: after)
    have hnumbered := numbered_runTurns .ofStore hn (.ask command :: after)
    rw [← List.cons_append, taskRuns_snoc, runTurns_append]
    exact htracks.run hb hunder hnumbered .ofStore turn

theorem taskRuns_of_success {before : List (Turn Store)} {task : Task}
    (ht : task ∈ (runTurns .ofStore w (.ask command :: before)).state.ledger.tasks)
    (hid : task.id = ⟨w.state.ledger.nextId⟩) (hsuccess : task.status = .success)
    (after : List (Turn Store)) :
    taskRuns .ofStore ⟨w.state.ledger.nextId⟩ w (.ask command :: (before ++ after)) =
      taskRuns .ofStore ⟨w.state.ledger.nextId⟩ w (.ask command :: before) := by
  obtain ⟨open?, htracks⟩ := exists_tracks hw hc hn hu hr hb before
  have hclosed : open? = none := by
    by_contra hopen
    rw [htracks.books.running hopen task ht hid] at hsuccess
    cases hsuccess
  subst hclosed
  have hdone : ∀ other ∈ (runTurns .ofStore w (.ask command :: before)).state.ledger.tasks,
      other.id = ⟨w.state.ledger.nextId⟩ → other.status = .success := fun other ho hid' =>
    htracks.books.unique other ho task ht hid' hid ▸ hsuccess
  suffices h : taskRuns .ofStore ⟨w.state.ledger.nextId⟩ w (.ask command :: (before ++ after)) =
        taskRuns .ofStore ⟨w.state.ledger.nextId⟩ w (.ask command :: before) ∧
      (next w.state kind sources).Tracks none
        (taskRuns .ofStore ⟨w.state.ledger.nextId⟩ w (.ask command :: before))
        (runTurns .ofStore w (.ask command :: (before ++ after))) ∧
      ∀ other ∈ (runTurns .ofStore w (.ask command :: (before ++ after))).state.ledger.tasks,
        other.id = ⟨w.state.ledger.nextId⟩ → other.status = .success from h.1
  induction after using List.reverseRecOn with
  | nil =>
    rw [List.append_nil]
    exact ⟨rfl, htracks, hdone⟩
  | append_singleton after turn ih =>
    obtain ⟨hruns, htracks, hdone⟩ := ih
    rw [← List.append_assoc, ← List.cons_append, taskRuns_snoc, runTurns_append, hruns]
    exact htracks.run_of_success hdone .ofStore turn

end

end Batch

/-! ## Over a store -/

/-- The items of a restoration are names of entries, if the store has always named its entries by
components. -/
theorem named_next {c : Config} {now : Instant} {store : Store} {before : List (Turn Store)}
    (hnames : ∀ turns, turns <+: before →
      ∀ e ∈ (runTurns .ofStore (.of (start c now) store) turns).remote.catalog.entries,
        IsComponent e.name) {command : Command} {kind : BatchKind} {sources : List String}
    (hr : (accept command (runTurns .ofStore (.of (start c now) store) before).state).1 =
      .ok (.perform (kind.operation sources))) :
    (Batch.next (runTurns .ofStore (.of (start c now) store) before).state kind sources).Named := by
  have hnamed := upheld_naming.under_runTurns (under_of (wellNamed_start c now) store)
    fun turns hturns call => tellsNames_ofStore (hnames turns hturns) call
  intro hkind
  obtain rfl : kind = .restore := hkind
  exact wellNamed_of_accept hnamed.holds hr _ (List.mem_singleton_self _)

/-- **A retry repeats only what failed.** A batch is started over a store whose entries have single
components as names. Whatever happens then, to the session and to the store, and whichever calls
fail: when some moves of the last run have failed, the task has failed, unless it is running. What
it lists then is just what the last run that moved anything was refused, in the order of the
request. Each move that a retry asks for was refused in every run before it that moved anything, and
accepted in none. Once the task has succeeded there are no more runs. -/
theorem retries_narrow {c : Config} {now : Instant} {store : Store} {before : List (Turn Store)}
    (hnames : ∀ turns, turns <+: before →
      ∀ e ∈ (runTurns .ofStore (.of (start c now) store) turns).remote.catalog.entries,
        IsComponent e.name) {command : Command} {kind : BatchKind} {sources : List String}
    (hr : (accept command (runTurns .ofStore (.of (start c now) store) before).state).1 =
      .ok (.perform (kind.operation sources))) (after : List (Turn Store)) :
    let w₀ := runTurns .ofStore (.of (start c now) store) before
    let id : TaskId := ⟨w₀.state.ledger.nextId⟩
    let w := runTurns .ofStore w₀ (.ask command :: after)
    let runs := taskRuns .ofStore id w₀ (.ask command :: after)
    (∀ task ∈ w.state.ledger.tasks, task.id = id →
      (task.status ≠ .running → ∀ n run, runs n = some run → (∀ m > n, runs m = none) →
        Attempt.refused run.attempts ≠ [] → task.status = .failed) ∧
      (task.status = .failed → ∀ n run, runs n = some run → run.attempts ≠ [] →
        (∀ m > n, ∀ later, runs m = some later → later.attempts = []) →
        ∃ items, task.retry = some (kind.operation items) ∧ items.Sublist sources ∧
          kind.paths c items = (Attempt.refused run.attempts).map (·.source))) ∧
    (∀ errand ∈ w.jobs, ∀ run, runs errand.number = some run → ∀ source destination,
      errand.rest.pending? = some (.move source destination) →
        ∀ n < errand.number, ∀ earlier, runs n = some earlier → earlier.attempts ≠ [] →
          ⟨source, destination⟩ ∈ Attempt.refused earlier.attempts ∧
            ⟨source, destination⟩ ∉ Attempt.accepted earlier.attempts) ∧
    ∀ middle later, after = middle ++ later →
      ∀ task ∈ (runTurns .ofStore w₀ (.ask command :: middle)).state.ledger.tasks,
        task.id = id → task.status = .success →
          runs = taskRuns .ofStore id w₀ (.ask command :: middle) := by
  intro w₀ id w runs
  have hunder : w₀.Under (duty c) :=
    (kept_duty c).under_runTurns (under_of (vetted_start c now) store) before
  have hconfig : w₀.state.config = c := hunder.holds.config
  have hnumbered : w₀.Numbered := numbered_runTurns .ofStore (numbered_of _ store) before
  have hsettled : Settled w₀ :=
    settled_runTurns (settled_of c now store) (numbered_of _ store) .ofStore before
  have hchecked : AreChecked w₀ :=
    areChecked_runTurns (areChecked_of (start c now) store) .ofStore before
  have hnamed : (Batch.next w₀.state kind sources).Named := named_next hnames hr
  have hduty : w₀.Under (duty w₀.state.config) := hconfig.symm ▸ hunder
  have hstarts : (accept command w₀.state).1 = .ok (.perform (kind.operation sources)) := hr
  clear_value w₀
  obtain ⟨open?, htracks⟩ :=
    Batch.exists_tracks hsettled hchecked hnumbered hduty hstarts hnamed after
  have hlater : w.Under (duty w₀.state.config) :=
    (kept_duty w₀.state.config).under_runTurns hduty (.ask command :: after)
  refine ⟨fun task ht hid => ⟨fun hstatus n run hrun hlast hrefused => ?_,
    fun hfailed n run hrun hne hlast => ?_⟩, fun errand hmem run hrun source destination hpending n
      hn earlier hearlier hne => ?_, fun middle later hafter task ht hid hsuccess => ?_⟩
  · have hleft : Attempt.left run.attempts ≠ [] := fun h => hrefused (Attempt.left_eq_nil.1 h)
    exact htracks.failed ht hid hstatus hrun hlast hleft
  · obtain ⟨items, hretry, hsublist, hpaths⟩ := htracks.lists_refused ht hid hfailed hrun hne hlast
    exact ⟨items, hretry, hsublist, hconfig ▸ hpaths⟩
  · exact htracks.move_refused hlater hmem hrun hpending hn hearlier hne
  · subst hafter
    exact Batch.taskRuns_of_success hsettled hchecked hnumbered hduty hstarts hnamed ht hid hsuccess
      later

/-- Two files in the trash of a store that refuses once to move the second one. -/
def trashedPair : Store :=
  (Store.ofCatalog (.ofEntries [.directory "/.trash" default, .file "/.trash/a" 1 default,
    .file "/.trash/b" 2 default]) default).addFault
    ⟨.move, some "/.trash/b", ⟨.server, "busy"⟩, true⟩

/-- The trash is opened. -/
def trashOpened : Crew Store :=
  runTurns .ofStore (.of (start {} default) trashedPair) [.ask (.navigate "/.trash"), .go 0]

/-- The trash is opened, and all that is in it is selected. -/
def selectTrash : List (Turn Store) := [.ask (.navigate "/.trash"), .go 0, .act .selectAll]

/-- A restoration moves the first file and is refused the second, and is then run again until it
asks for its first move. -/
def restoreAgain : List (Turn Store) := [.go 1, .go 1, .go 1, .go 1, .ask (.retry ⟨1⟩), .go 2]

theorem visibleNames_trashOpened : trashOpened.state.visibleNames = ["a", "b"] := by
  let entries : List Entry := [.file "/.trash/a" 1 default, .file "/.trash/b" 2 default]
  have hlisting : trashOpened.state.listing = some (.ofEntries "/.trash" entries) := by
    decide
  have hshown : entries.filter (trashOpened.state.options.accepts trashOpened.state.clock) =
      entries := by decide
  unfold visibleNames visible View.visible
  rw [hlisting]
  simp only [Listing.ofEntries]
  rw [hshown, List.mergeSort_of_pairwise (by decide)]
  decide

theorem runTurns_selectTrash :
    runTurns .ofStore (.of (start {} default) trashedPair) selectTrash =
      { trashOpened with
        state := { trashOpened.state with
          selection := trashOpened.state.selection.selectAll ["a", "b"] } } := by
  rw [← visibleNames_trashOpened]
  rfl

/-- The second run of the restoration moves what the first one was refused. -/
theorem retries_narrow_trashedPair :
    let w₀ := runTurns .ofStore (.of (start {} default) trashedPair) selectTrash
    let w := runTurns .ofStore w₀ (.ask .restore :: restoreAgain)
    let runs := taskRuns .ofStore ⟨w₀.state.ledger.nextId⟩ w₀ (.ask .restore :: restoreAgain)
    (∀ turns, turns <+: selectTrash →
      ∀ e ∈ (runTurns .ofStore (.of (start {} default) trashedPair) turns).remote.catalog.entries,
        IsComponent e.name) ∧
    (accept .restore w₀.state).1 = .ok (.perform (.restoreFromTrash ["a", "b"])) ∧
    ∃ errand ∈ w.jobs, errand.rest.pending? = some (.move "/.trash/b" "/b") ∧
      ∃ earlier, runs 1 = some earlier ∧ earlier.attempts ≠ [] ∧
        ⟨"/.trash/b", "/b"⟩ ∈ Attempt.refused earlier.attempts ∧
          ⟨"/.trash/b", "/b"⟩ ∉ Attempt.accepted earlier.attempts := by
  intro w₀ w runs
  have hinits : ∀ turns ∈ selectTrash.inits,
      ∀ e ∈ (runTurns .ofStore (.of (start {} default) trashedPair) turns).remote.catalog.entries,
        IsComponent e.name := by decide
  have hnames := fun turns (hturns : turns <+: selectTrash) =>
    hinits turns ((List.mem_inits turns selectTrash).2 hturns)
  have hr : (accept .restore w₀.state).1 =
      .ok (.perform (BatchKind.restore.operation ["a", "b"])) := by
    simp only [w₀, runTurns_selectTrash]
    decide
  have hwaits : ∃ errand ∈ w.jobs, errand.number = 2 ∧
      errand.rest.pending? = some (.move "/.trash/b" "/b") := by
    simp only [w, w₀, runTurns_selectTrash]
    decide +kernel
  have hfirst : ∃ earlier ∈ runs 1, earlier.attempts ≠ [] := by
    simp only [runs, w₀, runTurns_selectTrash]
    decide +kernel
  have hsecond : (runs 2).isSome = true := by
    simp only [runs, w₀, runTurns_selectTrash]
    decide +kernel
  obtain ⟨errand, hmem, hnumber, hpending⟩ := hwaits
  obtain ⟨earlier, hearlier, hne⟩ := hfirst
  obtain ⟨run, hrun⟩ := Option.isSome_iff_exists.1 hsecond
  obtain ⟨-, hmoves, -⟩ := retries_narrow hnames hr restoreAgain
  exact ⟨hnames, hr, errand, hmem, hpending, earlier, hearlier, hne,
    hmoves errand hmem run (hnumber ▸ hrun) _ _ hpending 1 (by rw [hnumber]; decide) earlier
      hearlier hne⟩

end Session

end CloudDrive
