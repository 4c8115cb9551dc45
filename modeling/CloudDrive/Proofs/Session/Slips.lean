import CloudDrive.Proofs.Session.Endings

/-!
# Selection and focus when commands overlap

While commands are on their way, selection and focus may be out of view for some time. Once none is,
they are in view, unless a command slipped (`Slips`): a refused move put a listing back that lacks
what was selected meanwhile, or a load that is not the newest any more changed the listing.

* `inView_or_slips`: one turn.
* `inView_iff_mended`: a run that leaves no command on its way.
-/

namespace CloudDrive.Session

variable {τ : Type}

/-- A command that ended with the refusal of a move, or a load that ended with a listing when it was
not the newest any more; the session is the one after its last turn. -/
def Slips (errand : Errand) (s : Session) : Prop :=
  (∃ x ∈ errand.heard, x.RefusesMove) ∨
    ∃ path listing, errand.heard = some (.reply (.list path) (.ok listing)) ∧
      (accept errand.label.command errand.label.session).1 = .ok (.load path) ∧
      s.generation ≠ errand.label.session.generation + 1

/-- Selection and focus are in view, or some command is going to mend them. -/
def Tended (w : Crew τ) : Prop := InView w.state ∨ ∃ job ∈ w.jobs, job.rest.WillTidy

/-! ## One turn -/

theorem Ends.inView_or_slips (errand : Errand) {s s' : Session}
    (h : Ends errand.label errand.heard s s') : (InView s → InView s') ∨ Slips errand s' := by
  obtain ⟨number, label, heard, rest⟩ := errand
  cases h with
  | atOnce => exact .inl fun hs => inView_accept hs label.command
  | loaded path listing s hr =>
    by_cases hg : s.generation = label.session.generation + 1
    · refine .inl fun _ => ?_
      unfold Session.loaded
      rw [if_pos hg]
      exact inView_prune _
    · refine .inr (.inr ⟨path, listing, rfl, hr, ?_⟩)
      unfold Session.loaded
      rwa [if_neg hg]
  | loadFailed path f s hr =>
    refine .inl fun hs => ?_
    unfold Session.loadFailed
    split
    · exact ⟨hs.selected, hs.focused⟩
    · exact hs
  | worked operation x s s' hw =>
    exact hw.inView.symm.imp_right fun hx => .inl ⟨x, rfl, hx.1⟩

/-- What a resumed job does keeps a crew tended, unless the job ends and slips. -/
theorem tended_resume {w : Crew τ} {service : Service τ} {job : Errand}
    (hdoes : Conducts job.label job.heard w.state (w.resume service job).2.state
      (job.rest.settle w.state).1)
    (h : Tended w ∨ job.rest.Tidies w.state) :
    Tended (w.resume service job).2 ∨
      ∃ errand, (w.resume service job).1 = some errand ∧
        Slips errand (w.resume service job).2.state := by
  obtain ⟨rest, state, hsettle, ⟨a, rfl, hresume⟩ | ⟨hnone, hresume⟩⟩ := w.resume_cases service job
  · -- the job has ended
    rw [hresume] at hdoes ⊢
    rw [hsettle] at hdoes
    rcases h with (hs | ⟨other, ho, htidy⟩) | htidies
    · exact (Ends.inView_or_slips { job with rest := .done a } hdoes).imp
        (fun hv => .inl (hv hs)) fun hslips => ⟨_, rfl, hslips⟩
    · exact .inl (.inr ⟨other, ho, htidy⟩)
    · have hmended := htidies.settle
      rw [hsettle] at hmended
      exact .inl (.inl (hmended.resolve_right id))
  · -- the job waits again
    rw [hresume] at hdoes ⊢
    rw [hsettle] at hdoes
    have hnew : ({ job with rest } : Errand) ∈ w.jobs ++ [{ job with rest }] :=
      List.mem_append_right _ (List.mem_singleton_self _)
    rcases h with (hs | ⟨other, ho, htidy⟩) | htidies
    · have hdoes : (InView w.state → InView state) ∨ rest.WillTidy := by
        cases rest with
        | done a => cases hnone
        | _ => exact hdoes
      exact .inl (hdoes.imp (fun hv => hv hs) fun htidy => ⟨_, hnew, htidy⟩)
    · exact .inl (.inr ⟨other, List.mem_append_left _ ho, htidy⟩)
    · have hmended := htidies.settle
      rw [hsettle] at hmended
      exact .inl (hmended.imp_right fun htidy => ⟨_, hnew, htidy⟩)

/-- **One turn** keeps a crew tended, unless it ends a command that slips. -/
theorem inView_or_slips {w : Crew τ} {service : Service τ} (h : w.Under conduct)
    (hn : w.Numbered) (ht : Tended w) {turn : Turn τ} (hclock : turn.isTick = false) :
    Tended (turn.run service w).2 ∨
      ∃ errand, (turn.run service w).1 = some errand ∧
        Slips errand (turn.run service w).2.state := by
  cases turn with
  | ask command =>
    have hobeys := obeys_program command w.state
    have hasked : Crowd.Under conduct { w with begun := w.begun + 1 } :=
      h.mono trivial (List.Subset.refl _)
    exact tended_resume (hasked.resume service ⟨w.begun, _, none, _⟩ hobeys).2 (.inl ht)
  | go number =>
    show Tended (w.go service number).2 ∨ ∃ errand, (w.go service number).1 = some errand ∧
      Slips errand (w.go service number).2.state
    rcases w.go_cases service number with hgo | ⟨job, x, rest, remote, hjob, hx, hgo⟩
    · rw [hgo]
      exact .inl ht
    · obtain ⟨hmem, hnumber⟩ := Crowd.mem_of_job? hjob
      rw [hgo]
      have hleft : Crowd.Under conduct { w with remote, jobs := w.without number } :=
        h.mono trivial (w.without_subset number)
      have hrest : rest.Obeys conduct job.label (some x) w.state w.state :=
        (h.awaits job hmem).hear (fun _ => trivial) hx trivial
      refine tended_resume (hleft.resume service { job with heard := some x, rest } hrest).2 ?_
      rcases ht with hs | ⟨other, ho, htidy⟩
      · exact .inl (.inl hs)
      · by_cases hother : other.number = number
        · have heq := List.inj_on_of_nodup_map hn.nodup ho hmem (hother.trans hnumber.symm)
          subst heq
          exact .inr (htidy.hear hx w.state)
        · exact .inl (.inr ⟨other,
            (List.mem_eraseP_of_neg (by simpa using hother)).2 ho, htidy⟩)
  | act event => exact .inl (ht.imp_left fun hs => inView_handle hs event)
  | tick now => cases hclock
  | outside change => exact .inl ht

/-! ## Runs -/

/-- A run from a tended crew, or one that is mended later. The induction is on the turns; what it
carries is that some moment from now on is in view, or that the crew is tended now. -/
theorem inView_of_mended {service : Service τ} {turns : List (Turn τ)} {w : Crew τ}
    (h : w.Under conduct) (hn : w.Numbered)
    (ht : Tended w ∨ ∃ mid, mid <+: turns ∧ InView (runTurns service w mid).state)
    (hclock : ∀ turn ∈ turns, turn.isTick = false)
    (hidle : (runTurns service w turns).jobs = [])
    (hmended : ∀ before turn after errand, before ++ turn :: after = turns →
      (turn.run service (runTurns service w before)).1 = some errand →
      Slips errand (runTurns service w (before ++ [turn])).state →
      ∃ mid, mid <+: after ∧ InView (runTurns service w (before ++ turn :: mid)).state) :
    InView (runTurns service w turns).state := by
  induction turns generalizing w with
  | nil =>
    rcases ht with (hs | ⟨job, hjob, -⟩) | ⟨mid, hmid, hs⟩
    · exact hs
    · rw [show w.jobs = [] from hidle] at hjob
      cases hjob
    · rwa [List.prefix_nil.1 hmid] at hs
  | cons turn turns ih =>
    obtain ⟨hturn, hturns⟩ := List.forall_mem_cons.1 hclock
    refine ih ((kept_conduct service).under_run h turn) (numbered_run service hn turn) ?_ hturns
      hidle fun before turn' after errand hsplit => hmended (turn :: before) turn' after errand
        (congrArg (turn :: ·) hsplit)
    have hstep : Tended w → Tended (turn.run service w).2 ∨
        ∃ mid, mid <+: turns ∧ InView (runTurns service (turn.run service w).2 mid).state :=
      fun ht => (inView_or_slips h hn ht hturn).imp_right fun ⟨errand, hended, hslips⟩ =>
        hmended [] turn turns errand rfl hended hslips
    rcases ht with ht | ⟨mid, hmid, hs⟩
    · exact hstep ht
    · cases mid with
      | nil => exact hstep (.inl hs)
      | cons turn' mid =>
        obtain ⟨rfl, hrest⟩ := List.cons_prefix_cons.1 hmid
        exact .inr ⟨mid, hrest, hs⟩

/-- **Selection and focus in view.** Whatever the calls are answered, and in whatever order: when a
run at a fixed time leaves no command on its way, selection and focus are in view exactly if after
each command that slipped there was a moment at which they were. -/
theorem inView_iff_mended (service : Service τ) (c : Config) (now : Instant) (t : τ)
    {turns : List (Turn τ)} (hclock : ∀ turn ∈ turns, turn.isTick = false)
    (hidle : (runTurns service (.of (start c now) t) turns).jobs = []) :
    InView (runTurns service (.of (start c now) t) turns).state ↔
      ∀ before turn after errand, before ++ turn :: after = turns →
        (turn.run service (runTurns service (.of (start c now) t) before)).1 = some errand →
        Slips errand (runTurns service (.of (start c now) t) (before ++ [turn])).state →
        ∃ mid, mid <+: after ∧
          InView (runTurns service (.of (start c now) t) (before ++ turn :: mid)).state := by
  constructor
  · rintro hs before turn after errand rfl - -
    exact ⟨after, List.prefix_refl _, hs⟩
  · exact inView_of_mended (under_of trivial t) (numbered_of _ t)
      (.inl (.inl (inView_start c now))) hclock hidle

/-- A store with one file. -/
def fileStore : Store := .ofCatalog (.ofEntries [.file "/a" 3 default]) default

/-- A file that is renamed while everything in view is selected; the move is refused. -/
def refusedRename : List (Turn Store) :=
  [.ask (.navigate "/"), .go 0, .ask (.rename "a" "b"), .act .selectAll,
    .outside (·.addFault ⟨.move, none, ⟨.server, "refused"⟩, true⟩), .go 1]

/-- Once everything is cleared, the refused rename is mended. -/
theorem inView_clearSelection :
    (∀ turn ∈ refusedRename ++ [.act .clearSelection], turn.isTick = false) ∧
      (runTurns .ofStore (.of (start {} default) fileStore)
        (refusedRename ++ [.act .clearSelection])).jobs = [] ∧
      ∀ before turn after errand,
        before ++ turn :: after = refusedRename ++ [.act .clearSelection] →
        (turn.run .ofStore (runTurns .ofStore (.of (start {} default) fileStore) before)).1 =
          some errand →
        Slips errand
          (runTurns .ofStore (.of (start {} default) fileStore) (before ++ [turn])).state →
        ∃ mid, mid <+: after ∧ InView
          (runTurns .ofStore (.of (start {} default) fileStore) (before ++ turn :: mid)).state := by
  have hclock : ∀ turn ∈ refusedRename ++ [.act .clearSelection], turn.isTick = false := by decide
  have hidle : (runTurns .ofStore (.of (start {} default) fileStore)
      (refusedRename ++ [.act .clearSelection])).jobs = [] := by decide
  exact ⟨hclock, hidle, (inView_iff_mended .ofStore {} default fileStore hclock hidle).1
    (by decide)⟩

/-- The name that was selected while the rename was on its way is not visible any more. -/
theorem refused_rename_leaves_selection :
    (∀ turn ∈ refusedRename, turn.isTick = false) ∧
      (runTurns .ofStore (.of (start {} default) fileStore) refusedRename).jobs = [] ∧
      ¬ InView (runTurns .ofStore (.of (start {} default) fileStore) refusedRename).state := by
  refine ⟨by decide, ?_, ?_⟩
  · decide
  · decide +kernel

end CloudDrive.Session
