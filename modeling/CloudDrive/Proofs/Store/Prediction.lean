import CloudDrive.Proofs.Store.Restore

/-!
# Plans and what becomes of them

A plan is made from one listing of the destination, and each of its moves changes the store under
the later ones. On a store without faults it tells all the same what will happen: a move is refused
exactly if its source is a directory above the destination.

* `BatchOutcome.runOn_run_of_clear`: moves with nothing in their way but that the destination may
  lie beneath their source.
* `MovePlan.clear_ofSources`: the moves of a plan are such moves.
* `runOn_execute_prepare`: the outcome of a batch.
-/

namespace CloudDrive

open Path (Canonical IsComponent)
open Remote (Failure)
open Store (Catalog)

variable {σ : Type}

/-- Is `path` a directory on the way from the root to `directory`, and not `directory`? -/
def Path.isAbove (directory path : String) : Bool :=
  Path.isWithin directory path && path != directory

/-! ## Runs of moves -/

theorem Store.move_of_isWithin {t : Store} (hf : t.faults = []) {source destination : String}
    (h : Path.isWithin destination source = true) :
    ∃ f, t.move source destination = (.error f, t) := by
  cases hm : t.moveFailure? source destination with
  | none =>
    obtain ⟨-, -, hapart, -⟩ := moveFailure?_eq_none.1 hm
    rw [h] at hapart
    cases hapart
  | some f =>
    have hfree := takeFault_of_freeOf (freeOf_of_faults_eq_nil hf .move) (some source)
    exact ⟨f, by simp [Store.move, hfree, hm]⟩

/-- **A run of moves into a directory**: those of sources that the directory lies beneath are refused,
and the others are accepted one after another. -/
theorem BatchOutcome.runOn_run_of_clear {p d : String} {moves : List (String × String)}
    (hi : IntoDirectory p d moves) {t : Store} (hf : t.faults = [])
    (h : t.catalog.Clear p d (moves.filter (! Path.isWithin d ·.1))) (o : BatchOutcome) (s : σ) :
    ∃ o' t', ((o.run (moves.map fun m => ⟨m.1, m.2⟩) : Program σ _).runOn .ofStore s t) =
        (o', s, t') ∧
      t.catalog.MovesTo (moves.filter (! Path.isWithin d ·.1)) t'.catalog ∧
      o'.failedSources = o.failedSources ++ (moves.filter (Path.isWithin d ·.1)).map (·.1) ∧
      o'.successCount = o.successCount + (moves.filter (! Path.isWithin d ·.1)).length := by
  induction moves generalizing o t with
  | nil => exact ⟨o, t, rfl, .nil _, by simp, rfl⟩
  | cons m moves ih =>
    have hi' := hi.sublist (List.sublist_cons_self m moves)
    -- the move is logged, answered, and the others follow
    have hstep : ((o.run ((m :: moves).map fun m => ⟨m.1, m.2⟩) : Program σ _).runOn .ofStore s t) =
        ((o.add ⟨m.1, m.2⟩ ((t.record (.move m.1 m.2)).move m.1 m.2).1).run
          (moves.map fun m => ⟨m.1, m.2⟩)).runOn .ofStore s
          ((t.record (.move m.1 m.2)).move m.1 m.2).2 := rfl
    cases hw : Path.isWithin d m.1 with
    | true =>
      obtain ⟨hsc, hdc⟩ := hi.canonical List.mem_cons_self
      have hpar := (hi.parents List.mem_cons_self).2
      have hself := Path.isWithin_trans hdc hdc.parent hsc (Path.isWithin_parent hdc) (hpar.symm ▸ hw)
      obtain ⟨f, hmove⟩ := Store.move_of_isWithin (t := t.record (.move m.1 m.2)) hf hself
      rw [List.filter_cons_of_neg (by simp [hw])] at h ⊢
      obtain ⟨o', t', hrun, hmoves, hfailed, hcount⟩ :=
        ih hi' (t := t.record (.move m.1 m.2)) hf h (o.add ⟨m.1, m.2⟩ (.error f))
      refine ⟨o', t', ?_, hmoves, ?_, hcount⟩
      · rw [hstep, hmove, hrun]
      · rw [hfailed]
        simp [hw, BatchOutcome.add, failedSources]
    | false =>
      rw [List.filter_cons_of_pos (by simp [hw])] at h ⊢
      have hmove := Store.move_of_movable (t := t.record (.move m.1 m.2)) hf h.movable
      obtain ⟨o', t', hrun, hmoves, hfailed, hcount⟩ := ih hi'
        (t := { t.record (.move m.1 m.2) with catalog := t.catalog.move m.1 m.2 }) hf h.tail
        (o.add ⟨m.1, m.2⟩ (.ok ()))
      refine ⟨o', t', ?_, .cons h.movable hmoves, ?_, ?_⟩
      · rw [hstep, hmove]
        exact hrun
      · rw [hfailed]
        simp [hw, BatchOutcome.add, failedSources]
      · rw [hcount, List.length_cons]
        simp only [BatchOutcome.add]
        omega

/-! ## Plans -/

namespace MovePlan

theorem ne_of_mem_pairs {sources : List String} {listing : Listing} {m : String × String}
    (h : m ∈ (ofSources sources listing).pairs) : m.1 ≠ listing.path := by
  simp only [pairs, ofSources, List.map_map, List.mem_map, Function.comp_apply,
    MoveRequest.intoDirectory] at h
  obtain ⟨s, hs, rfl⟩ := h
  rintro rfl
  have hc := (List.mem_filter.1 hs).2
  simp [conflict?] at hc

section
variable {c : Catalog} (hc : c.WellShaped) {p d : String} (hd : c.IsDirectory d)
  {entries : List Entry} (hp : ∀ e ∈ entries, e ∈ c.children p)
include hc hd hp

/-- The entries of a directory, and the directory: what they lie in, unless there are none. -/
theorem exists_intoDirectory : ∃ p', c.IsDirectory p' ∧
    IntoDirectory p' d (ofSources (entries.map (·.path)) (.ofEntries d (c.children d))).pairs := by
  have hdc := hc.tree.canonical_of_isDirectory hd
  cases entries with
  | nil => exact ⟨d, hd, hdc, hdc, by simp [pairs, ofSources, distinct], .nil⟩
  | cons e entries =>
    have hdir : c.IsDirectory p := by
      obtain ⟨hf, rfl, -⟩ := Catalog.mem_children.1 (hp e List.mem_cons_self)
      exact hc.tree.parent _ e hf
    have hs : ∀ x ∈ (e :: entries).map (·.path), ∃ n, IsComponent n ∧ x = Path.join p n := by
      intro x hx
      obtain ⟨e', he', rfl⟩ := List.mem_map.1 hx
      exact ⟨e'.name, hc.eq_join_of_mem_children (hp e' he')⟩
    have hinto : IntoDirectory p (Listing.ofEntries d (c.children d)).path _ :=
      intoDirectory_ofSources (hc.tree.canonical_of_isDirectory hdir) hdc hs
    exact ⟨p, hdir, hinto⟩

/-- **Nothing stands in the way of a plan**, but that the destination may lie beneath a source. -/
theorem clear_ofSources : ∃ p',
    IntoDirectory p' d (ofSources (entries.map (·.path)) (.ofEntries d (c.children d))).pairs ∧
      c.Clear p' d ((ofSources (entries.map (·.path)) (.ofEntries d (c.children d))).pairs.filter
        (! Path.isWithin d ·.1)) := by
  obtain ⟨p', hp', hi⟩ := exists_intoDirectory hc hd hp
  refine ⟨p', hi, hc.tree, hi.sublist List.filter_sublist, hp', hd, fun m hm => ?_,
    fun m hm q hq => ?_, fun m hm => ?_⟩
  · obtain ⟨hs, -⟩ := mem_pairs_ofSources (List.mem_filter.1 hm).1
    obtain ⟨e, he, hpath⟩ := List.mem_map.1 hs
    rw [← hpath, (Catalog.mem_children.1 (hp e he)).1]
    rfl
  · exact find?_eq_none hc hi (List.mem_filter.1 hm).1 hq
  · simpa using (List.mem_filter.1 hm).2

theorem apart_of_mem_children {e : Entry} (he : e ∈ c.children d) :
    ∀ m ∈ (ofSources (entries.map (·.path)) (.ofEntries d (c.children d))).pairs.filter
        (! Path.isWithin d ·.1),
      Path.isWithin e.path m.1 = false ∧ Path.isWithin e.path m.2 = false := by
  obtain ⟨p', hi, hclear⟩ := clear_ofSources hc hd hp
  intro m hm
  obtain ⟨hf, hpar, hne⟩ := Catalog.mem_children.1 he
  have hec := hc.tree.canonical _ e hf
  refine ⟨Bool.eq_false_iff.2 fun hw => ?_, Bool.eq_false_iff.2 fun hw => ?_⟩
  · rcases (Path.isWithin_iff_parent hec (hc.tree.ne_root _ e hf)
        (hclear.into.canonical hm).1).1 hw with heq | hw
    · -- the name of a source is not taken at the destination
      obtain ⟨-, -, hfree⟩ := mem_pairs_ofSources (List.mem_filter.1 hm).1
      refine hfree (List.mem_map.2 ⟨e, he, ?_⟩)
      rw [hc.named _ e hf, heq]
    · have happart := hclear.apart m hm
      rw [hpar] at hw
      rw [hw] at happart
      cases happart
  · rw [hclear.free m hm e.path hw] at hf
    cases hf

end

end MovePlan

/-- At most one of the sources lies above the destination. -/
theorem IntoDirectory.length_filter_isWithin {p d : String} {moves : List (String × String)}
    (hi : IntoDirectory p d moves) : (moves.filter (Path.isWithin d ·.1)).length ≤ 1 := by
  have hdistinct := (hi.sublist (List.filter_sublist (p := (Path.isWithin d ·.1)))).distinct
  have hwithin : ∀ m ∈ moves.filter (Path.isWithin d ·.1),
      m ∈ moves ∧ Path.isWithin d m.1 = true := fun m => List.mem_filter.1
  generalize moves.filter (Path.isWithin d ·.1) = above at hdistinct hwithin
  match above with
  | [] => simp
  | [_] => simp
  | a :: b :: _ =>
    have ha := hwithin a List.mem_cons_self
    have hb := hwithin b (List.mem_cons_of_mem _ List.mem_cons_self)
    obtain rfl := hi.eq_of_source ha.1 hb.1 hi.destination ha.2 hb.2
    exact absurd rfl ((List.pairwise_cons.1 hdistinct).1 a List.mem_cons_self)

/-- **A plan predicts its execution.** Entries of one directory are moved into a directory of a store
without faults. A planned move is refused exactly if its source lies above the destination, which is
true of one at most; the others are accepted one after another; and what the destination held before
it holds afterwards. -/
theorem runOn_execute_prepare {t : Store} (hf : t.faults = []) (ht : t.catalog.WellShaped)
    {d p : String} (hd : t.catalog.IsDirectory d) {entries : List Entry}
    (hp : ∀ e ∈ entries, e ∈ t.catalog.children p) (policy : RetryPolicy) (s : σ) :
    ∃ plan outcome t', (MovePlan.execute (MovePlan.prepare policy (entries.map (·.path)) d)).runOn
        .ofStore s t = (.ok (plan, outcome), s, t') ∧
      plan = .ofSources (entries.map (·.path)) (.ofEntries d (t.catalog.children d)) ∧
      outcome.failedSources = plan.sources.filter (Path.isAbove d) ∧
      outcome.failures.length ≤ 1 ∧
      t.catalog.MovesTo (plan.pairs.filter (! Path.isAbove d ·.1)) t'.catalog ∧
      outcome.successCount = (plan.sources.filter (! Path.isAbove d ·)).length ∧
      ∀ e ∈ t.catalog.children d, e ∈ t'.catalog.children d := by
  obtain ⟨p', hi, hclear⟩ := MovePlan.clear_ofSources ht hd hp
  obtain ⟨r, t₁, hlist, hsame, hlists⟩ :=
    Remote.runOn_list (Store.freeOf_of_faults_eq_nil hf .list) d policy s
  cases r with
  | error f => exact absurd hd hlists
  | ok listing =>
    obtain ⟨-, rfl⟩ := hlists
    generalize hplan : MovePlan.ofSources (entries.map (·.path))
      (.ofEntries d (t.catalog.children d)) = plan at hi hclear
    -- no planned source is the destination, so that to lie above it is to have it within
    have habove : ∀ m ∈ plan.pairs, Path.isAbove d m.1 = Path.isWithin d m.1 := fun m hm => by
      have hne : m.1 ≠ d := MovePlan.ne_of_mem_pairs (hplan ▸ hm)
      simp [Path.isAbove, hne]
    have hsources : plan.sources = plan.pairs.map (·.1) := by
      simp [MovePlan.sources, MovePlan.pairs]
    have habove' : plan.pairs.filter (! Path.isAbove d ·.1) =
        plan.pairs.filter (! Path.isWithin d ·.1) :=
      List.filter_congr fun m hm => by rw [habove m hm]
    have hmapped : plan.moves = plan.pairs.map fun m => ⟨m.1, m.2⟩ := by
      rw [MovePlan.pairs, List.map_map]
      exact (List.map_id _).symm
    obtain ⟨o, t', hrun, hmoves, hfailed, hcount⟩ := BatchOutcome.runOn_run_of_clear hi
      (hsame.faults.trans hf) (hsame.catalog ▸ hclear) { total := plan.moves.length } s
    have hrefused : o.failedSources = (plan.pairs.filter (Path.isWithin d ·.1)).map (·.1) :=
      hfailed.trans (List.nil_append _)
    refine ⟨plan, { o with conflicts := plan.conflicts.length }, t', ?_, rfl, ?_, ?_, ?_, ?_,
      fun e he => ?_⟩
    · have hprepare : (MovePlan.prepare policy (entries.map (·.path)) d).runOn .ofStore s t =
          (.ok plan, s, t₁) := by
        rw [MovePlan.prepare, Program.runOn_bind, hlist, ← hplan]
        rfl
      rw [MovePlan.execute, Program.runOn_bind, hprepare]
      rw [← hmapped] at hrun
      simp only [BatchOutcome.ofPlan, BatchOutcome.ofMoves, Program.runOn_bind, hrun]
      rfl
    · show o.failedSources = _
      rw [hrefused, hsources, List.filter_map]
      exact congrArg _ (List.filter_congr fun m hm => (habove m hm).symm)
    · show o.failures.length ≤ 1
      have hlength : o.failures.length = o.failedSources.length := (List.length_map _).symm
      rw [hlength, hrefused, List.length_map]
      exact hi.length_filter_isWithin
    · rw [habove', ← hsame.catalog]
      exact hmoves
    · show o.successCount = _
      rw [hcount, hsources, List.filter_map, List.length_map, Nat.zero_add, ← habove']
      rfl
    · obtain ⟨hfind, hrest⟩ := Catalog.mem_children.1 he
      have hapart := MovePlan.apart_of_mem_children ht hd hp he
      rw [hplan] at hapart
      refine Catalog.mem_children.2 ⟨?_, hrest⟩
      rw [hmoves.find?_apart (hsame.catalog.symm ▸ ht.tree) hapart, hsame.catalog, hfind]

/-- A directory with a directory in it, and one beside it. -/
def nestedShelves : Store :=
  .ofCatalog (.ofEntries [.directory "/a" default, .directory "/a/b" default,
    .directory "/a/b/x" default, .directory "/c" default]) default

/-- The outer directory does not go into the inner one; the other does, and is there with what was
there before. -/
theorem runOn_execute_prepare_nestedShelves :
    ∃ plan outcome t', (MovePlan.execute (MovePlan.prepare (Config.readRetry {}) ["/a", "/c"]
        "/a/b")).runOn .ofStore () nestedShelves = (.ok (plan, outcome), (), t') ∧
      outcome.failedSources = ["/a"] ∧
      Entry.directory "/a/b/x" default ∈ t'.catalog.children "/a/b" := by
  obtain ⟨plan, outcome, t', hrun, hplan, hfailed, -, -, -, hkept⟩ :=
    @runOn_execute_prepare Unit nestedShelves rfl (by decide) "/a/b" "/" (by decide)
      [.directory "/a" default, .directory "/c" default] (by decide) (Config.readRetry {}) ()
  refine ⟨plan, outcome, t', hrun, ?_, hkept _ (by decide)⟩
  rw [hfailed, hplan]
  decide

end CloudDrive
