import CloudDrive.Proofs.Session.Arrivals

/-!
# Entries that are being deleted

A deletion takes its entries out of every cached listing at once, and then waits for the store. A
listing that arrives meanwhile is taken as it is: the store still has the entries, and nothing takes
them out again.

* `asked_deletion`: at first no cached listing shows them.
* `shows_iff_arrived`: later one does exactly if the listing that has arrived last for it does.
-/

namespace CloudDrive.Session

variable {τ : Type}

/-- There is a listing, and it shows an entry of one of the paths. -/
def Shows (paths : List String) (listing : Option Listing) : Prop :=
  ∃ l, listing = some l ∧ ∃ e ∈ l.entries, e.path ∈ paths

/-- The work is to delete the entries of these paths for good, for a new task or for an old one. -/
def Request.Deletes (paths : List String) (request : Request) : Prop :=
  request = .perform (.deleteEntries paths) ∨ ∃ id, request = .rerun id (.deleteEntries paths)

theorem not_shows_removePaths (c : Cache) (paths : List String) (key : String) :
    ¬ Shows paths ((c.removePaths paths).get? key) := by
  intro hshows
  obtain ⟨l, hl, e, he, hpath⟩ := hshows
  rw [Cache.get?_removePaths] at hl
  split at hl
  · cases hl
  · obtain ⟨old, -, rfl⟩ := Option.map_eq_some_iff.1 hl
    have hkept := (List.mem_filter.1 he).2
    rw [List.contains_iff_mem.2 hpath] at hkept
    cases hkept

theorem shows_or {paths : List String} {first second : Option Listing}
    (h : ¬ Shows paths second) : Shows paths (first.or second) ↔ Shows paths first := by
  cases first with
  | some l => exact Iff.rfl
  | none => exact iff_of_false h fun hnone => by cases hnone.choose_spec.1

section
variable {w : Crew τ} {command : Command} {request : Request} {paths : List String}

/-- A deletion that is asked takes its entries out of the cache, and waits for the store. -/
theorem settle_deletion {s : Session} (hrequest : (accept command s).1 = .ok request)
    (hdelete : request.Deletes paths) :
    (command.program.settle s).1.pending? = some (.delete paths) ∧
      (command.program.settle s).2.cache = s.cache.removePaths paths := by
  have hcache := (accept_keeps command s).2
  have hsettle : command.program.settle s = request.program.settle (accept command s).2 := by
    unfold Command.program
    rw [Program.settle_modifyGet_bind, hrequest]
  rw [hsettle, ← hcache]
  obtain rfl | ⟨id, rfl⟩ := hdelete
  · exact ⟨rfl, rfl⟩
  · exact ⟨rfl, rfl⟩

/-- **A deletion that is asked** waits for the store, and its entries are not shown any more. -/
theorem asked_deletion (service : Service τ) (honly : OnlyLoads none w)
    (hrequest : (accept command w.state).1 = .ok request) (hdelete : request.Deletes paths) :
    (∃ job ∈ ((Turn.ask command).run service w).2.jobs, job.number = w.begun ∧
        job.rest.pending? = some (.delete paths)) ∧
      OnlyLoads (some w.begun) ((Turn.ask command).run service w).2 ∧
      ∀ key, ¬ Shows paths (((Turn.ask command).run service w).2.state.cache.get? key) := by
  obtain ⟨hpending, hcache⟩ := settle_deletion hrequest hdelete
  simp only [Turn.run, Crowd.begin]
  obtain ⟨rest, state, hsettle, ⟨a, ha, -⟩ | ⟨-, hresume⟩⟩ :=
    Crowd.resume_cases service { w with begun := w.begun + 1 }
      ⟨w.begun, ⟨command, w.state⟩, none, command.program⟩
  · rw [hsettle, ha] at hpending
    cases hpending
  · rw [hsettle] at hpending hcache
    rw [hresume]
    refine ⟨⟨_, List.mem_append_right _ (List.mem_singleton_self _), rfl, hpending⟩,
      fun job hj hne => ?_, fun key => ?_⟩
    · rcases List.mem_append.1 hj with hj | hj
      · exact honly job hj (Option.some_ne_none _).symm
      · rw [List.mem_singleton.1 hj] at hne
        exact absurd rfl hne
    · show ¬ Shows paths (state.cache.get? key)
      rw [hcache]
      exact not_shows_removePaths _ _ _

end

/-- **While a deletion waits** for the store, and nothing but loads and changes of the view happens: a
cached listing shows an entry that is being deleted exactly if the listing shows it that has arrived
last for this directory since the deletion was asked. -/
theorem shows_iff_arrived (service : Service τ) (c : Config) (now : Instant) (t : τ)
    {before during : List (Turn τ)} {command : Command} {request : Request} {paths : List String}
    (honly : OnlyLoads none (runTurns service (.of (start c now) t) before))
    (hrequest : (accept command (runTurns service (.of (start c now) t) before).state).1 =
      .ok request)
    (hdelete : request.Deletes paths)
    (hduring : ∀ turn ∈ during,
      turn.browses (some (runTurns service (.of (start c now) t) before).begun) = true) :
    let w := runTurns service (.of (start c now) t) (before ++ .ask command :: during)
    (∃ job ∈ w.jobs, job.number = (runTurns service (.of (start c now) t) before).begun ∧
        job.rest.pending? = some (.delete paths)) ∧
      ∀ key, Shows paths (w.state.cache.get? key) ↔
        Shows paths (latest key (arrivals service
          (runTurns service (.of (start c now) t) (before ++ [.ask command])) during)) := by
  intro w
  have hw := (kept_loads service).under_runTurns (under_of (s := start c now) trivial t) before
  have hrun : w = runTurns service (runTurns service (.of (start c now) t) before)
      (.ask command :: during) := runTurns_append _ _ _ _
  rw [hrun, runTurns_append]
  generalize runTurns service (.of (start c now) t) before = w₀ at honly hrequest hduring hw ⊢
  obtain ⟨⟨job, hj, hnumber, hpending⟩, hasked, hhidden⟩ :=
    asked_deletion service honly hrequest hdelete
  refine ⟨⟨job, mem_jobs_runTurns service hj (hnumber ▸ hduring), hnumber, hpending⟩, fun key => ?_⟩
  rw [runTurns_cons, runTurns_cons, runTurns_nil,
    get?_runTurns service ((kept_loads service).under_run hw _) hasked hduring]
  exact shows_or (hhidden key)

/-- The root is visited, and the one file in it is selected. -/
def selectedFile : List (Turn Store) := [.ask (.navigate "/"), .go 0, .act .selectAll]

/-- The session in which the file is selected. -/
def fileSelected : Crew Store := runTurns .ofStore (.of (start {} default) fileStore) selectedFile

/-- A refresh that is not answered. -/
def refreshAsked : List (Turn Store) := [.ask .refresh]

theorem onlyLoads_fileSelected : OnlyLoads none fileSelected := by
  unfold OnlyLoads
  decide

/-- As long as no listing arrives, none shows the file. -/
theorem shows_iff_arrived_refreshAsked :
    OnlyLoads none fileSelected ∧
      (accept .deletePermanently fileSelected.state).1 = .ok (.perform (.deleteEntries ["/a"])) ∧
      (∀ turn ∈ refreshAsked, turn.browses (some fileSelected.begun) = true) ∧
      ∀ key, ¬ Shows ["/a"] ((runTurns .ofStore (.of (start {} default) fileStore)
        (selectedFile ++ .ask .deletePermanently :: refreshAsked)).state.cache.get? key) := by
  have hrequest : (accept .deletePermanently fileSelected.state).1 =
      .ok (.perform (.deleteEntries ["/a"])) := by decide +kernel
  have hduring : ∀ turn ∈ refreshAsked, turn.browses (some fileSelected.begun) = true := by
    decide
  refine ⟨onlyLoads_fileSelected, hrequest, hduring, fun key hshows => ?_⟩
  obtain ⟨l, hl, -⟩ := ((shows_iff_arrived .ofStore {} default fileStore onlyLoads_fileSelected
    hrequest (.inl rfl) hduring).2 key).1 hshows
  have hnone : arrivals .ofStore (runTurns .ofStore (.of (start {} default) fileStore)
      (selectedFile ++ [.ask .deletePermanently])) refreshAsked = [] := by decide +kernel
  rw [hnone] at hl
  cases hl

/-- Once the refresh is answered before the deletion, the file is shown again. -/
theorem answered_refresh_shows :
    OnlyLoads none fileSelected ∧
      (accept .deletePermanently fileSelected.state).1 = .ok (.perform (.deleteEntries ["/a"])) ∧
      (∀ turn ∈ refreshAsked ++ [.go 2], turn.browses (some fileSelected.begun) = true) ∧
      (∃ job ∈ (runTurns .ofStore (.of (start {} default) fileStore)
          (selectedFile ++ .ask .deletePermanently :: (refreshAsked ++ [.go 2]))).jobs,
        job.number = fileSelected.begun ∧ job.rest.pending? = some (.delete ["/a"])) ∧
      Shows ["/a"] ((runTurns .ofStore (.of (start {} default) fileStore)
        (selectedFile ++ .ask .deletePermanently :: (refreshAsked ++ [.go 2]))).state.cache.get?
          "/") := by
  refine ⟨onlyLoads_fileSelected, by decide +kernel, by decide, by decide +kernel,
    .ofEntries "/" [.file "/a" 3 default], ?_⟩
  exact ⟨by decide +kernel, .file "/a" 3 default, by decide, by decide⟩

end CloudDrive.Session
