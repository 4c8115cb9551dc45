import CloudDrive.Proofs.Session.Refetch
import CloudDrive.Proofs.Session.Sound

/-!
# Plans and moves on a store

* `prepared_prepare`: to plan a batch creates the trash at most (`Prepared`), and a plan moves
  entries to where nothing is stored.
* `runOn_ofPlan`: of the moves of a plan, the store accepts some and refuses the others.
-/

namespace CloudDrive

open Path (Canonical IsComponent)
open Remote (Failure)
open Store (Catalog)

variable {σ : Type}

/-! ## The trash on demand -/

namespace Trash

/-- Where the trash is created. -/
def place (c : Config) : String := Path.join c.trashParent c.trashName

/-- The directory that holds the trash, if the trash has come into being in between. -/
def outdated (c : Config) (before after : Catalog) : List String :=
  if after.contains (place c) && ! before.contains (place c) then [c.trashParent] else []

theorem mem_outdated {c : Config} {before after : Catalog} {k : String} :
    k ∈ outdated c before after ↔
      k = c.trashParent ∧ after.contains (place c) = true ∧ before.contains (place c) = false := by
  unfold outdated
  split
  · next h => simp_all
  · next h =>
    simp only [List.not_mem_nil, false_iff]
    rintro ⟨-, ha, hb⟩
    simp [ha, hb] at h

@[simp] theorem outdated_self (c : Config) (t : Catalog) : outdated c t t = [] := by
  simp [outdated]

end Trash

/-- The store after a batch was planned: at most the trash was created. -/
structure Prepared (c : Config) (t t' : Store) : Prop where
  shaped : t'.catalog.WellShaped
  free : t'.FreeOf .list
  mirrors : ∀ cache, Cache.Mirrors cache t.catalog →
    Cache.MirrorsExcept (Trash.outdated c t.catalog t'.catalog) cache t'.catalog

section
variable {c : Config} {t t' : Store}

theorem Store.Same.prepared (h : t.Same t') (ht : t.catalog.WellShaped) (hf : t.FreeOf .list) :
    Prepared c t t' := by
  refine ⟨h.catalog ▸ ht, h.freeOf hf, fun cache hc => ?_⟩
  rw [h.catalog, Trash.outdated_self]
  exact Cache.mirrorsExcept_nil.2 hc

theorem Prepared.same {t'' : Store} (h : Prepared c t t') (hs : t'.Same t'') :
    Prepared c t t'' :=
  ⟨hs.catalog ▸ h.shaped, hs.freeOf h.free, hs.catalog ▸ h.mirrors⟩

/-- An outdated listing lacks the trash. -/
theorem not_listed_of_outdated {cache : Cache} (hc : Cache.Mirrors cache t.catalog) {k : String}
    (hk : k ∈ Trash.outdated c t.catalog t'.catalog) {l : Listing} (hl : cache.get? k = some l) :
    ∀ e ∈ l.entries, e.path ≠ Trash.place c := by
  intro e he hp
  obtain ⟨-, -, hb⟩ := Trash.mem_outdated.1 hk
  have hf := (Catalog.mem_children.1 (((Cache.perm_children.1 (hc k l hl).2).2 e).1 he)).1
  rw [hp] at hf
  simp [Catalog.contains, hf] at hb

end

theorem Trash.store_ensure (c : Config) (t : Store) (s : σ) :
    ((Trash.ensure c : Program σ _).runOn .ofStore s t).2.2 =
      ((t.record (.createDirectory c.trashParent c.trashName)).createDirectory c.trashParent
        c.trashName).2 := by
  unfold Trash.ensure
  refine (congrArg (fun r : _ × σ × Store => r.2.2) (Program.runOn_request_bind .ofStore s t
    (.createDirectory c.trashParent c.trashName) _)).trans ?_
  show _ = (Port.ofStore.answer t (.createDirectory c.trashParent c.trashName)).2
  generalize Port.ofStore.answer t (.createDirectory c.trashParent c.trashName) = answer
  obtain ⟨r, t'⟩ := answer
  cases r <;> rfl

theorem Trash.prepared_ensure (c : Config) {t : Store} (ht : t.catalog.WellShaped)
    (hf : t.FreeOf .list) (s : σ) :
    Prepared c t ((Trash.ensure c : Program σ _).runOn .ofStore s t).2.2 := by
  rw [Trash.store_ensure]
  have hcat : (t.record (.createDirectory c.trashParent c.trashName)).catalog = t.catalog := rfl
  have hfaults : (t.record (.createDirectory c.trashParent c.trashName)).faults = t.faults := rfl
  generalize t.record (.createDirectory c.trashParent c.trashName) = u at hcat hfaults
  have hshaped := @Store.wellShaped_createDirectory u (hcat ▸ ht) c.trashParent c.trashName
    (Path.isComponent_name_or c.trashPath)
  obtain ⟨hsub, hcases⟩ := u.createDirectory_cases c.trashParent c.trashName
  refine ⟨hshaped, fun f hmem => hf f (hfaults ▸ hsub hmem), fun cache hc => ?_⟩
  rw [hcat] at hcases
  rcases hcases with ⟨f, -, hsame⟩ | ⟨-, hdir, hfree, hins⟩
  · rw [hsame, Trash.outdated_self]
    exact Cache.mirrorsExcept_nil.2 hc
  · have hplace : Path.join c.trashParent c.trashName = Trash.place c := rfl
    have hname := Path.isComponent_name_or c.trashPath
    have hparent := @Path.parent_join c.trashParent c.trashName
      (ht.tree.canonical_of_isDirectory hdir)
    rw [show Path.join (Path.parent c.trashPath) (Path.name c.trashPath) = Trash.place c from rfl]
      at hname
    rw [hplace] at hfree hins hparent
    rw [hins]
    have hne := Catalog.ne_root_of_contains hfree
    have hmir := Cache.mirrorsExcept_insert hc (e := .directory (Trash.place c) u.clock) hne
      fun x hx => by
        rw [Catalog.contains, show t.catalog.find? (Trash.place c) = some x from hx] at hfree
        simp at hfree
    refine hmir.mono (List.cons_subset.2 ⟨?_, List.nil_subset _⟩)
    rw [show Path.parent (Entry.directory (Trash.place c) u.clock).path = c.trashParent from
      hparent (hname.resolve_right hne)]
    refine Trash.mem_outdated.2 ⟨rfl, ?_, hfree⟩
    simp [Catalog.contains, Entry.directory]

/-- A cache mirrors a store in which the trash was created exactly if the directory that holds the
trash is not cached. -/
theorem Prepared.mirrors_iff {c : Config} {t t' : Store} (h : Prepared c t t') {cache : Cache}
    (hc : Cache.Mirrors cache t.catalog) :
    Cache.Mirrors cache t'.catalog ↔
      ¬ ∃ k ∈ Trash.outdated c t.catalog t'.catalog, (cache.get? k).isSome = true := by
  constructor
  · rintro hm ⟨k, hk, hs⟩
    obtain ⟨l, hl⟩ := Option.isSome_iff_exists.1 hs
    obtain ⟨hkp, hafter, hbefore⟩ := Trash.mem_outdated.1 hk
    have hne := Catalog.ne_root_of_contains hbefore
    have hname := (Path.isComponent_name_or c.trashPath).resolve_right hne
    have hkc := h.shaped.tree.canonical_of_isDirectory (hm k l hl).1
    obtain ⟨e, he⟩ : ∃ e, t'.catalog.find? (Trash.place c) = some e := by
      simpa [Catalog.contains, hne, Option.isSome_iff_exists] using hafter
    have hep := Catalog.path_of_find? he
    refine not_listed_of_outdated hc hk hl e ?_ hep
    refine ((Cache.perm_children.1 (hm k l hl).2).2 e).2 (Catalog.mem_children.2 ⟨hep ▸ he, ?_, ?_⟩)
    · rw [hep, hkp]
      exact Path.parent_join (hkp ▸ hkc) hname
    · rw [hep, hkp]
      exact Path.join_ne_self (hkp ▸ hkc) hname
  · intro hno key l hl
    obtain ⟨hd, hp⟩ := h.mirrors cache hc key l hl
    exact ⟨hd, hp fun hk => hno ⟨key, hk, by rw [hl]; rfl⟩⟩

/-! ## Plans -/

theorem MovePlan.runOn_prepare (policy : RetryPolicy) (paths : List String) (d : String)
    {t : Store} (hf : t.FreeOf .list) (s : σ) :
    ∃ r t', ((MovePlan.prepare policy paths d : Program σ _).runOn .ofStore s t) = (r, s, t') ∧
      t.Same t' ∧ ∀ plan, r = .ok plan → t.catalog.IsDirectory d ∧
        plan = .ofSources paths (.ofEntries d (t.catalog.children d)) := by
  obtain ⟨r, t', hrun, hsame, hl⟩ := Remote.runOn_list hf d policy s
  unfold MovePlan.prepare
  rw [Program.runOn_bind, hrun]
  cases r with
  | error f => exact ⟨_, t', rfl, hsame, by rintro _ ⟨⟩⟩
  | ok l =>
    obtain ⟨hd, rfl⟩ := hl
    exact ⟨_, t', rfl, hsame, by rintro _ ⟨⟩; exact ⟨hd, rfl⟩⟩

/-- Nothing is stored where a plan takes its sources. -/
theorem MovePlan.find?_eq_none {t : Catalog} (ht : t.WellShaped) {paths : List String} {p d : String}
    (hi : IntoDirectory p d (ofSources paths (.ofEntries d (t.children d))).pairs)
    {m : String × String} (hm : m ∈ (ofSources paths (.ofEntries d (t.children d))).pairs)
    {q : String} (hq : Path.isWithin q m.2 = true) : t.find? q = none := by
  obtain ⟨n, hn, rfl⟩ := hi.named m hm
  obtain ⟨-, -, hnames⟩ := mem_pairs_ofSources hm
  rw [Path.name_join hi.source hn] at hnames
  have hj := Path.canonical_join hi.destination hn
  have hfree : t.find? (Path.join d n) = none := by
    cases hf : t.find? (Path.join d n) with
    | none => rfl
    | some e =>
      have hpath := Catalog.path_of_find? hf
      refine absurd (List.mem_map.2 ⟨e, Catalog.mem_children.2 ⟨hpath ▸ hf, ?_, ?_⟩, ?_⟩) hnames
      · rw [hpath, Path.parent_join hi.destination hn]
      · rw [hpath]
        exact Path.join_ne_self hi.destination hn
      · rw [ht.named _ e hf, Path.name_join hi.destination hn]
  exact ht.tree.find?_eq_none_within hj (Path.join_ne_root hi.destination hn) hfree hq

namespace Session

section
variable {kind : BatchKind} {c : Config} {sources : List String}

theorem siblings_paths (hp : (kind.operation sources).Proper c) :
    Siblings (kind.paths c sources) := by
  cases kind with
  | directory destination => exact hp
  | trash => exact hp
  | restore => exact siblings_map hp

/-- **To plan a batch** creates the trash at most. -/
theorem prepared_prepare {t : Store} (ht : t.catalog.WellShaped) (hf : t.FreeOf .list)
    (s : Session) :
    ∃ r t', (kind.prepare c sources).runOn .ofStore s t = (r, s, t') ∧ Prepared c t t' ∧
      ∀ plan, r = .ok plan → t'.catalog.IsDirectory (kind.target c) ∧
        plan = .ofSources (kind.paths c sources)
          (.ofEntries (kind.target c) (t'.catalog.children (kind.target c))) ∧
        ∀ k ∈ Trash.outdated c t.catalog t'.catalog, kind.target c = c.trashPath := by
  have hlist : ∀ (paths : List String) (d : String), ∃ r t',
      (MovePlan.prepare c.readRetry paths d).runOn .ofStore s t = (r, s, t') ∧ Prepared c t t' ∧
        ∀ plan, r = .ok plan → t'.catalog.IsDirectory d ∧
          plan = .ofSources paths (.ofEntries d (t'.catalog.children d)) ∧
          ∀ k ∈ Trash.outdated c t.catalog t'.catalog, d = c.trashPath := by
    intro paths d
    obtain ⟨r, t', hrun, hsame, hplan⟩ := MovePlan.runOn_prepare c.readRetry paths d hf s
    refine ⟨r, t', hrun, hsame.prepared ht hf, fun plan hr => ?_⟩
    rw [hsame.catalog, Trash.outdated_self]
    exact ⟨(hplan plan hr).1, (hplan plan hr).2, by simp⟩
  cases kind with
  | directory destination => exact hlist _ _
  | restore => exact hlist _ _
  | trash =>
    have hprep := Trash.prepared_ensure c ht hf s
    have hstate := (Trash.quiet_ensure c).state_runOn .ofStore s t
    show ∃ r t', (Trash.prepareTrash c c.readRetry sources).runOn .ofStore s t = _ ∧ _
    unfold Trash.prepareTrash
    rw [Program.runOn_bind, hstate]
    generalize (Trash.ensure c).runOn .ofStore s t = x at hprep
    obtain ⟨r, s', t₁⟩ := x
    cases r with
    | error f => exact ⟨_, t₁, rfl, hprep, by rintro _ ⟨⟩⟩
    | ok _ =>
      obtain ⟨r, t', hrun, hsame, hplan⟩ :=
        MovePlan.runOn_prepare c.readRetry sources c.trashPath hprep.free s
      refine ⟨r, t', hrun, hprep.same hsame, fun plan hr => ?_⟩
      rw [hsame.catalog]
      exact ⟨(hplan plan hr).1, (hplan plan hr).2, fun _ _ => rfl⟩

theorem batchStart {t t' : Store} {cache : Cache} (hc : Cache.Mirrors cache t.catalog)
    (hprep : Prepared c t t') (hp : (kind.operation sources).Proper c)
    (hd : t'.catalog.IsDirectory (kind.target c))
    (ho : ∀ k ∈ Trash.outdated c t.catalog t'.catalog, kind.target c = c.trashPath) :
    ∃ p, Cache.BatchStart cache t'.catalog p (kind.target c)
      (MovePlan.ofSources (kind.paths c sources) (.ofEntries (kind.target c)
        (t'.catalog.children (kind.target c)))).pairs
      (Trash.outdated c t.catalog t'.catalog) := by
  obtain ⟨p, hpc, hs⟩ := siblings_paths hp
  have hdc := hprep.shaped.tree.canonical_of_isDirectory hd
  have hi := @MovePlan.intoDirectory_ofSources (kind.paths c sources)
    (.ofEntries (kind.target c) (t'.catalog.children (kind.target c))) p hpc hdc hs
  refine ⟨p, hprep.shaped, hi, fun m hm q hq => MovePlan.find?_eq_none hprep.shaped hi hm hq,
    hprep.mirrors cache hc, fun k hk => ?_⟩
  obtain ⟨hkp, hafter, hbefore⟩ := Trash.mem_outdated.1 hk
  have hne := Catalog.ne_root_of_contains hbefore
  have hplace : Trash.place c = kind.target c := by
    rw [ho k hk] at hdc ⊢
    refine Path.Canonical.join_parent_name hdc fun hr => ?_
    have hname := (Path.isComponent_name_or c.trashPath).resolve_right hne
    rw [hr] at hname
    exact hname.1 (by decide)
  refine ⟨?_, ?_, ?_⟩
  · rw [hkp, ho k hk]
    rfl
  · rw [← hplace]
    simpa [Catalog.contains, hne] using hafter
  · intro l hl e he
    rw [← hplace]
    exact not_listed_of_outdated hc hk hl e he

end

end Session

/-! ## Moves -/

/-- Of some moves, the store has accepted `acc`, and refused those of the sources `rej`. -/
structure Moved (moves acc : List (String × String)) (rej : List String) (t t' : Store) : Prop where
  run : t.catalog.MovesTo acc t'.catalog
  faults : t'.faults ⊆ t.faults
  accepted : acc.Sublist moves
  sources : (acc.map (·.1) ++ rej).Perm (moves.map (·.1))

section
variable {moves acc : List (String × String)} {rej : List String} {t t' : Store}
  (h : Moved moves acc rej t t')
include h

theorem Moved.freeOf (hf : t.FreeOf .list) : t'.FreeOf .list := fun f hm => hf f (h.faults hm)

theorem Moved.eq_of_nil (hr : rej = []) : acc = moves := by
  subst hr
  refine h.accepted.eq_of_length ?_
  simpa using h.sources.length_eq

/-- What is not refused is accepted, if no source is moved twice. -/
theorem Moved.mem_iff (hd : moves.Pairwise (·.1 ≠ ·.1)) {m : String × String} :
    m ∈ acc ↔ m ∈ moves ∧ m.1 ∉ rej := by
  have hn : (acc.map (·.1) ++ rej).Nodup :=
    h.sources.nodup_iff.2 (List.pairwise_map.2 hd)
  have hdisj := (List.nodup_append.1 hn).2.2
  constructor
  · intro hm
    exact ⟨h.accepted.subset hm, fun hr => hdisj m.1 (List.mem_map_of_mem hm) m.1 hr rfl⟩
  · rintro ⟨hm, hr⟩
    have hmem := h.sources.mem_iff.2 (List.mem_map_of_mem hm)
    obtain ⟨x, hx, hxm⟩ := List.mem_map.1 ((List.mem_append.1 hmem).resolve_right hr)
    have hmap : (moves.map (·.1)).Nodup := List.pairwise_map.2 hd
    exact List.inj_on_of_nodup_map hmap (h.accepted.subset hx) hm hxm ▸ hx

end

namespace BatchOutcome

/-- **A run of moves**: the outcome counts those that the store accepts, and tells the others. -/
theorem runOn_run (moves : List MoveRequest) (o : BatchOutcome) (s : σ) {t : Store}
    (ht : t.catalog.WellShaped) (hd : ∀ m ∈ moves, Canonical m.destination) :
    ∃ acc rej o' t', ((o.run moves : Program σ _).runOn .ofStore s t) = (o', s, t') ∧
      Moved (moves.map fun m => (m.source, m.destination)) acc rej t t' ∧
      o'.successCount = o.successCount + acc.length ∧
      o'.failedSources = o.failedSources ++ rej := by
  induction moves generalizing o t with
  | nil => exact ⟨[], [], o, t, rfl, ⟨.nil _, List.Subset.refl _, .slnil, .refl _⟩, rfl, by simp⟩
  | cons m moves ih =>
    have hrun : ((o.run (m :: moves) : Program σ _).runOn .ofStore s t) =
        ((o.add m ((t.record (.move m.source m.destination)).move m.source m.destination).1).run
          moves).runOn .ofStore s
          ((t.record (.move m.source m.destination)).move m.source m.destination).2 := rfl
    have hcat : (t.record (.move m.source m.destination)).catalog = t.catalog := rfl
    have hfaults : (t.record (.move m.source m.destination)).faults = t.faults := rfl
    rw [hrun]
    generalize t.record (.move m.source m.destination) = u at hcat hfaults
    have hshaped := @Store.wellShaped_move u (hcat ▸ ht) m.source m.destination fun _ =>
      hd m List.mem_cons_self
    obtain ⟨hsub, hcases⟩ := u.move_cases m.source m.destination
    obtain ⟨acc, rej, o', t', hrun, hmoved, hcount, hfailed⟩ :=
      ih (o.add m (u.move m.source m.destination).1) hshaped
        fun x hx => hd x (List.mem_cons_of_mem _ hx)
    have hsub' := List.Subset.trans hmoved.faults (hfaults ▸ hsub)
    rcases hcases with ⟨f, hf, hsame⟩ | ⟨hok, hm, hmove⟩
    · refine ⟨acc, m.source :: rej, o', t', hrun, ⟨?_, hsub', ?_, ?_⟩, ?_, ?_⟩
      · rw [← hcat, ← hsame]
        exact hmoved.run
      · exact hmoved.accepted.cons _
      · exact List.perm_middle.trans (hmoved.sources.cons _)
      · rw [hcount, hf]
        rfl
      · rw [hfailed, hf]
        simp [BatchOutcome.add, failedSources]
    · have hmov := Store.movable_of_moveFailure? (hd m List.mem_cons_self) hm
      refine ⟨(m.source, m.destination) :: acc, rej, o', t', hrun, ⟨?_, hsub', ?_, ?_⟩, ?_, ?_⟩
      · refine .cons (hcat ▸ hmov) ?_
        rw [← hcat, ← hmove]
        exact hmoved.run
      · exact hmoved.accepted.cons_cons _
      · exact hmoved.sources.cons _
      · rw [hcount, hok, List.length_cons]
        simp only [BatchOutcome.add]
        omega
      · rw [hfailed, hok]
        rfl

theorem runOn_ofPlan (plan : MovePlan) (s : σ) {t : Store} (ht : t.catalog.WellShaped)
    (hd : ∀ m ∈ plan.pairs, Canonical m.2) :
    ∃ acc rej o t', ((ofPlan plan : Program σ _).runOn .ofStore s t) = (o, s, t') ∧
      Moved plan.pairs acc rej t t' ∧ o.successCount = acc.length ∧ o.failedSources = rej := by
  obtain ⟨acc, rej, o, t', hrun, hmoved, hcount, hfailed⟩ :=
    runOn_run plan.moves { total := plan.moves.length } s ht fun m hm =>
      hd (m.source, m.destination) (List.mem_map_of_mem hm)
  refine ⟨acc, rej, { o with conflicts := plan.conflicts.length }, t', ?_, hmoved, ?_, hfailed⟩
  · unfold ofPlan ofMoves
    rw [Program.runOn_bind, hrun]
    rfl
  · rw [hcount]
    exact Nat.zero_add _

end BatchOutcome

end CloudDrive
