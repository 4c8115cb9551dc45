import CloudDrive.Proofs.Session.Plan
import CloudDrive.Proofs.Store.Undo

/-!
# Into the trash and back

Entries of the root are moved into the trash by one batch, and restored by another.

* `runOn_execute`: a batch with nothing in its way is planned without a conflict, and every move of
  it is accepted.
* `clear_trash`: nothing stands in the way of a batch into the trash.
* `restore_trash`: afterwards the store holds what it held, and the trash.
-/

namespace CloudDrive

open Path (Canonical IsComponent)
open Remote (Failure)
open Store (Catalog)

variable {σ : Type}

/-! ## Batches with nothing in their way -/

/-- A batch planned and carried out. -/
def MovePlan.execute (prepare : Program σ (Except Failure MovePlan)) :
    Program σ (Except Failure (MovePlan × BatchOutcome)) := do
  match ← prepare with
  | .error f => return .error f
  | .ok plan => return .ok (plan, ← BatchOutcome.ofPlan plan)

/-- What has nothing in its way conflicts with nothing in the directory that it is moved into. -/
theorem MovePlan.conflict?_of_clear {c : Catalog} {p d : String} {moves : List (String × String)}
    (h : c.Clear p d moves) (hc : c.Named) {m : String × String} (hm : m ∈ moves)
    (hself : Path.name m.1 ≠ Path.name d) :
    conflict? (.ofEntries d (c.children d)) m.1 = none := by
  have hne : m.1 ≠ d := fun he => by
    have happart := h.apart m hm
    rw [he, Path.isWithin_refl h.into.destination] at happart
    cases happart
  have hfree : Listing.contains (.ofEntries d (c.children d)) (Path.name m.1) = false := by
    refine Bool.eq_false_iff.2 fun hin => ?_
    obtain ⟨e, he, hname⟩ := List.mem_map.1 ((Listing.contains_iff _ _).1 hin)
    obtain ⟨n, hn, rfl⟩ := h.into.named m hm
    have hpath := (Catalog.WellShaped.eq_join_of_mem_children ⟨h.tree, hc⟩ he).2
    rw [hname, Path.name_join h.into.source hn] at hpath
    have hnone := h.free _ hm e.path
      (hpath.symm ▸ Path.isWithin_refl (Path.canonical_join h.into.destination hn))
    rw [(Catalog.mem_children.1 he).1] at hnone
    cases hnone
  have hnot : ¬ (m.1 = d ∨ Path.name m.1 = Path.name d) := not_or.2 ⟨hne, hself⟩
  exact (if_neg hnot).trans (by rw [hfree]; rfl)

theorem MovePlan.ofSources_of_clear {c : Catalog} {p d : String} {moves : List (String × String)}
    (h : c.Clear p d moves) (hc : c.Named) (hself : ∀ m ∈ moves, Path.name m.1 ≠ Path.name d) :
    ofSources (moves.map (·.1)) (.ofEntries d (c.children d)) =
      ⟨d, moves.map fun m => ⟨m.1, m.2⟩, []⟩ := by
  have hdistinct : distinct (moves.map (·.1)) = moves.map (·.1) := by
    refine eraseDupsBy_eq_self (List.pairwise_map.2 (h.into.distinct.imp_of_mem ?_))
    intro a b ha hb hne
    obtain ⟨n, hn, rfl⟩ := h.into.named a ha
    obtain ⟨n', hn', rfl⟩ := h.into.named b hb
    rw [Path.name_join h.into.source hn, Path.name_join h.into.source hn', beq_eq_false_iff_ne]
    exact fun he => hne (congrArg (Path.join p) he.symm)
  have hnone : ∀ m ∈ moves, conflict? (.ofEntries d (c.children d)) m.1 = none :=
    fun m hm => conflict?_of_clear h hc hm (hself m hm)
  have hdest : ∀ m ∈ moves, MoveRequest.intoDirectory m.1 d = ⟨m.1, m.2⟩ := by
    intro m hm
    obtain ⟨n, hn, rfl⟩ := h.into.named m hm
    rw [MoveRequest.intoDirectory, Path.name_join h.into.source hn]
  unfold ofSources
  rw [hdistinct]
  congr 1
  · rw [List.filter_eq_self.2 (by simpa using fun a b hm => by simp [hnone (a, b) hm]),
      List.map_map]
    exact List.map_congr_left hdest
  · rw [List.filterMap_eq_nil_iff]
    intro s hs
    obtain ⟨m, hm, rfl⟩ := List.mem_map.1 hs
    rw [hnone m hm]
    rfl

theorem Store.freeOf_of_faults_eq_nil {t : Store} (h : t.faults = []) (kind : Remote.CallKind) :
    t.FreeOf kind :=
  fun _ hmem => absurd (h ▸ hmem) List.not_mem_nil

theorem Store.move_of_movable {t : Store} (hf : t.faults = []) {source destination : String}
    (h : t.catalog.Movable source destination) :
    t.move source destination =
      (.ok (), { t with catalog := t.catalog.move source destination }) := by
  have hok := moveFailure?_eq_none.2 ⟨h.stored, h.free, h.apart, h.parent⟩
  simp only [Store.move, takeFault_of_freeOf (freeOf_of_faults_eq_nil hf .move), hok]

theorem BatchOutcome.runOn_run_of_movesTo {t : Store} (hf : t.faults = [])
    {moves : List (String × String)} {c' : Catalog} (h : t.catalog.MovesTo moves c')
    (o : BatchOutcome) (s : σ) :
    ∃ t', ((o.run (moves.map fun m => ⟨m.1, m.2⟩) : Program σ _).runOn .ofStore s t) =
        ({ o with successCount := o.successCount + moves.length }, s, t') ∧
      t'.catalog = c' ∧ t'.faults = [] := by
  induction moves generalizing o t with
  | nil =>
    cases h
    exact ⟨t, rfl, rfl, hf⟩
  | cons m moves ih =>
    cases h with
    | cons hm hrest =>
      have hmove : (t.record (.move m.1 m.2)).move m.1 m.2 =
          (.ok (), { t.record (.move m.1 m.2) with catalog := t.catalog.move m.1 m.2 }) :=
        Store.move_of_movable (t := t.record _) hf hm
      obtain ⟨t', hrun, hcat, hfaults⟩ := ih (t := { t.record (.move m.1 m.2) with
        catalog := t.catalog.move m.1 m.2 }) hf hrest (o.add ⟨m.1, m.2⟩ (.ok ()))
      refine ⟨t', ?_, hcat, hfaults⟩
      have hstep : ((o.run ((m :: moves).map fun m => ⟨m.1, m.2⟩) : Program σ _).runOn .ofStore s t) =
          ((o.add ⟨m.1, m.2⟩ ((t.record (.move m.1 m.2)).move m.1 m.2).1).run
            (moves.map fun m => ⟨m.1, m.2⟩)).runOn .ofStore s
            ((t.record (.move m.1 m.2)).move m.1 m.2).2 := rfl
      rw [hstep, hmove, hrun]
      simp [BatchOutcome.add, Nat.add_assoc, Nat.add_comm 1]

/-- **A batch with nothing in its way** is planned without a conflict, and every move is accepted. -/
theorem runOn_execute {t : Store} (hf : t.faults = []) {p d : String}
    {moves : List (String × String)} (h : t.catalog.Clear p d moves) (hn : t.catalog.Named)
    (hself : ∀ m ∈ moves, Path.name m.1 ≠ Path.name d) (policy : RetryPolicy) (s : σ) :
    ∃ t', (MovePlan.execute (MovePlan.prepare policy (moves.map (·.1)) d)).runOn .ofStore s t =
        (.ok (⟨d, moves.map fun m => ⟨m.1, m.2⟩, []⟩,
          { successCount := moves.length, total := moves.length }), s, t') ∧
      t.catalog.MovesTo moves t'.catalog ∧ t'.faults = [] := by
  obtain ⟨r, t₁, hlist, hsame, hlists⟩ :=
    Remote.runOn_list (Store.freeOf_of_faults_eq_nil hf .list) d policy s
  cases r with
  | error f => exact absurd h.destination hlists
  | ok listing =>
    obtain ⟨-, rfl⟩ := hlists
    obtain ⟨c', hmoves⟩ := h.movesTo
    obtain ⟨t', hrun, rfl, hfaults⟩ := BatchOutcome.runOn_run_of_movesTo (t := t₁)
      (hsame.faults.trans hf) (hsame.catalog ▸ hmoves) { total := moves.length } s
    refine ⟨t', ?_, hmoves, hfaults⟩
    have hprepare : (MovePlan.prepare policy (moves.map (·.1)) d).runOn .ofStore s t =
        (.ok ⟨d, moves.map fun m => ⟨m.1, m.2⟩, []⟩, s, t₁) := by
      rw [MovePlan.prepare, Program.runOn_bind, hlist, ← MovePlan.ofSources_of_clear h hn hself]
      rfl
    rw [MovePlan.execute, Program.runOn_bind, hprepare]
    simp only [BatchOutcome.ofPlan, BatchOutcome.ofMoves, List.length_map, Program.runOn_bind, hrun]
    simp

/-! ## The trash on demand -/

/-- The catalog once the trash exists. -/
def Store.Catalog.withTrash (c : Catalog) (now : Instant) : Catalog :=
  if c.contains "/.trash" then c else c.insert (.directory "/.trash" now)

theorem Trash.runOn_ensure {t : Store} (hf : t.faults = []) (s : σ) :
    ∃ t', (Trash.ensure {} : Program σ _).runOn .ofStore s t = (.ok (), s, t') ∧
      t'.catalog = t.catalog.withTrash t.clock ∧ t'.faults = [] := by
  have hparent : ({} : Config).trashParent = "/" := by decide
  have hname : ({} : Config).trashName = ".trash" := by decide
  have hplace : Path.join "/" ".trash" = "/.trash" := by decide
  have hfree : (t.record (.createDirectory "/" ".trash")).FreeOf .createDirectory :=
    Store.freeOf_of_faults_eq_nil hf _
  have hcreate : Port.ofStore.answer t (.createDirectory "/" ".trash") =
      if t.catalog.contains "/.trash" then
        (.error (.alreadyExists "/.trash"), t.record (.createDirectory "/" ".trash"))
      else
        (.ok (), (t.record (.createDirectory "/" ".trash")).insert
          (.directory "/.trash" t.clock)) := by
    show (t.record _).createDirectory "/" ".trash" = _
    simp only [Store.createDirectory, hplace, Store.takeFault_of_freeOf hfree]
    rfl
  rw [Trash.ensure, hparent, hname]
  cases hc : t.catalog.contains "/.trash" with
  | true =>
    rw [hc] at hcreate
    refine ⟨t.record (.createDirectory "/" ".trash"), ?_,
      by simp [Catalog.withTrash, hc, Store.record], hf⟩
    refine (Program.runOn_request_bind .ofStore s t (.createDirectory "/" ".trash") _).trans ?_
    rw [hcreate]
    rfl
  | false =>
    rw [hc] at hcreate
    refine ⟨(t.record (.createDirectory "/" ".trash")).insert (.directory "/.trash" t.clock), ?_,
      by simp [Catalog.withTrash, hc, Store.record, Store.insert], hf⟩
    refine (Program.runOn_request_bind .ofStore s t (.createDirectory "/" ".trash") _).trans ?_
    rw [hcreate]
    rfl

namespace Store.Catalog

section
variable {c : Catalog} (now : Instant)

theorem find?_withTrash {p : String} (hp : p ≠ "/.trash") :
    (c.withTrash now).find? p = c.find? p := by
  unfold withTrash
  split
  · rfl
  · exact (find?_insert c _ p).trans (if_neg hp)

theorem WellShaped.withTrash (hc : c.WellShaped) : (c.withTrash now).WellShaped := by
  unfold Catalog.withTrash
  split
  · exact hc
  · next hnew =>
    have hparent : Path.parent "/.trash" = Path.root := by decide
    have hnone : c.find? "/.trash" = none := by
      simp only [contains, Bool.not_eq_true, Bool.or_eq_false_iff, Option.isSome_eq_false_iff,
        Option.isNone_iff_eq_none] at hnew
      exact hnew.2
    have hcan : Canonical "/.trash" := by decide
    refine ⟨hc.tree.insert (e := .directory "/.trash" now) hcan ?_ ?_ ?_, hc.named.insert rfl⟩
    · exact show "/.trash" ≠ Path.root by decide
    · exact show c.IsDirectory (Path.parent "/.trash") from hparent ▸ c.isDirectory_root
    · exact fun x hx => absurd (hnone.symm.trans hx) (by simp)

theorem isDirectory_withTrash (htrash : ∀ e, c.find? "/.trash" = some e → e.isDirectory = true) :
    (c.withTrash now).IsDirectory "/.trash" := by
  unfold withTrash
  split
  · next hstored =>
    have hroot : ("/.trash" == Path.root) = false := by decide
    rw [contains, hroot, Bool.false_or] at hstored
    obtain ⟨e, he⟩ := Option.isSome_iff_exists.1 hstored
    exact .inr ⟨e, he, htrash e he⟩
  · exact .inr ⟨_, by rw [find?_insert]; exact if_pos rfl, rfl⟩

/-- **Nothing stands in the way into the trash.** -/
theorem clear_trash (hc : c.WellShaped)
    (htrash : ∀ e, c.find? "/.trash" = some e → e.isDirectory = true) {entries : List Entry}
    (hnodup : entries.Nodup) (hroot : ∀ e ∈ entries, e ∈ c.children "/" ∧ e.path ≠ "/.trash")
    (hfree : ∀ e ∈ entries, c.find? (Path.join "/.trash" e.name) = none) :
    (c.withTrash now).Clear "/" "/.trash"
      (entries.map fun e => (e.path, Path.join "/.trash" e.name)) := by
  have hcan : Canonical "/.trash" := by decide
  have htree := (hc.withTrash now).tree
  have hstored : ∀ e ∈ entries, c.find? e.path = some e := fun e he =>
    (mem_children.1 (hroot e he).1).1
  have hname : ∀ e ∈ entries, IsComponent e.name ∧ e.path = Path.join "/" e.name :=
    fun e he => hc.eq_join_of_mem_children (hroot e he).1
  refine ⟨htree, ⟨Path.canonical_root, hcan, List.forall_mem_map.2 fun e he => ?_, ?_⟩,
    isDirectory_root _, isDirectory_withTrash now htrash, List.forall_mem_map.2 fun e he => ?_,
    List.forall_mem_map.2 fun e he q hw => ?_, List.forall_mem_map.2 fun e he => ?_⟩
  · obtain ⟨hcomp, hpath⟩ := hname e he
    exact ⟨e.name, hcomp, by rw [hpath]⟩
  · refine List.pairwise_map.2 (hnodup.imp_of_mem fun {a b} ha hb hne hpath => hne ?_)
    have hb := hstored b hb
    rw [← show a.path = b.path from hpath, hstored a ha] at hb
    exact Option.some.inj hb
  · show ((c.withTrash now).find? e.path).isSome = true
    rw [find?_withTrash now (hroot e he).2, hstored e he]
    rfl
  · obtain ⟨hcomp, -⟩ := hname e he
    have hnone : (c.withTrash now).find? (Path.join "/.trash" e.name) = none := by
      rw [find?_withTrash now (Path.join_ne_self hcan hcomp), hfree e he]
    exact htree.find?_eq_none_within (Path.canonical_join hcan hcomp)
      (Path.join_ne_root hcan hcomp) hnone hw
  · -- the trash is an entry of the root itself, and none of those that are moved
    obtain ⟨hcomp, hpath⟩ := hname e he
    have htop : Path.join Path.root ".trash" = "/.trash" := by decide
    refine Bool.eq_false_iff.2 fun hw => (hroot e he).2 ?_
    rw [show (e.path, Path.join "/.trash" e.name).1 = Path.join Path.root e.name from hpath] at hw
    rw [hpath, name_eq_of_isWithin Path.canonical_root hcan hcomp (by decide) hw
      (htop ▸ Path.isWithin_refl hcan)]
    exact htop

end

end Store.Catalog

/-- **Trash and restore undo each other at the root.** In a store without faults, entries of the root
are moved into the trash, where none of their names is taken, and then restored: both batches are
planned without a conflict, every move is accepted, and afterwards the store holds what it held, and
the trash if it did not exist before. -/
theorem restore_trash {t : Store} (hf : t.faults = []) (hc : t.catalog.WellShaped)
    (htrash : ∀ e, t.catalog.find? "/.trash" = some e → e.isDirectory = true)
    {entries : List Entry} (hnodup : entries.Nodup)
    (hroot : ∀ e ∈ entries, e ∈ t.catalog.children "/" ∧ e.path ≠ "/.trash")
    (hfree : ∀ e ∈ entries, t.catalog.find? (Path.join "/.trash" e.name) = none)
    (policy : RetryPolicy) (s : σ) :
    ∃ plan plan' t₁ t₂,
      (MovePlan.execute (Trash.prepareTrash {} policy (entries.map (·.path)))).runOn .ofStore s t =
        (.ok (plan, { successCount := entries.length, total := entries.length }), s, t₁) ∧
      (MovePlan.execute (Trash.prepareRestore {} policy (entries.map (·.name)))).runOn .ofStore s t₁ =
        (.ok (plan', { successCount := entries.length, total := entries.length }), s, t₂) ∧
      plan.conflicts = [] ∧ plan'.conflicts = [] ∧
      t₂.catalog = t.catalog.withTrash t.clock ∧
      ∀ e ∈ t.catalog.entries, t₂.catalog.find? e.path = some e := by
  let moves := entries.map fun e => (e.path, Path.join "/.trash" e.name)
  obtain ⟨t₀, hensure, hcat, hfaults⟩ := Trash.runOn_ensure hf s
  have hshaped : t₀.catalog.WellShaped := hcat ▸ hc.withTrash t.clock
  have hclear : t₀.catalog.Clear "/" "/.trash" moves :=
    hcat ▸ Catalog.clear_trash t.clock hc htrash hnodup hroot hfree
  -- no entry of the root has the name of the trash, and none of the trash that of the root
  have hself : ∀ m ∈ moves, Path.name m.1 ≠ Path.name "/.trash" := by
    intro m hm he
    obtain ⟨e, hmem, rfl⟩ := List.mem_map.1 hm
    obtain ⟨hcomp, hpath⟩ := hc.eq_join_of_mem_children (hroot e hmem).1
    have hname : e.name = ".trash" := by
      rw [← Path.name_join Path.canonical_root hcomp]
      exact (hpath ▸ he).trans (by decide)
    exact (hroot e hmem).2 (hpath.trans (hname ▸ by decide))
  obtain ⟨t₁, htrashed, hmoves, hfaults₁⟩ := runOn_execute hfaults hclear hshaped.named hself policy s
  have hback := hclear.back hmoves
  have hself' : ∀ m ∈ moves.map Prod.swap, Path.name m.1 ≠ Path.name "/" := by
    intro m hm
    obtain ⟨n, hn, rfl⟩ := hback.into.named m hm
    rw [Path.name_join hback.into.source hn, show Path.name "/" = "" by decide]
    exact hn.1
  obtain ⟨t₂, hrestored, hmoves', -⟩ := runOn_execute hfaults₁ hback
    (hmoves.wellShaped hshaped).named hself' policy s
  have hcat₂ : t₂.catalog = t.catalog.withTrash t.clock :=
    (hmoves.eq_of_back hmoves' hclear hshaped.named).trans hcat
  have hpaths : moves.map (·.1) = entries.map (·.path) := by simp [moves]
  have hplaces : (moves.map Prod.swap).map (·.1) = Trash.entries {} (entries.map (·.name)) := by
    simp [moves, Trash.entries]
  rw [hpaths] at htrashed
  rw [hplaces] at hrestored
  simp only [moves, List.length_map] at htrashed hrestored
  have hensured : (MovePlan.execute (Trash.prepareTrash {} policy (entries.map (·.path)))).runOn
      .ofStore s t =
      (MovePlan.execute (MovePlan.prepare policy (entries.map (·.path)) "/.trash")).runOn
        .ofStore s t₀ := by
    simp only [MovePlan.execute, Trash.prepareTrash, Program.runOn_bind, hensure]
  refine ⟨_, _, t₁, t₂, hensured.trans htrashed, hrestored, rfl, rfl, hcat₂, fun e he => ?_⟩
  have hfind := Catalog.find?_of_mem he
  rw [hcat₂]
  by_cases hp : e.path = "/.trash"
  · have hstored : t.catalog.contains "/.trash" = true := by
      simp [Catalog.contains, ← hp, hfind]
    rw [Catalog.withTrash, if_pos hstored, hfind]
  · rw [Catalog.find?_withTrash _ hp, hfind]

/-- A directory with a file, and a file beside it; there is no trash yet. -/
def shelfStore : Store :=
  .ofCatalog (.ofEntries [.directory "/box" default, .file "/box/key" 1 default,
    .file "/note" 3 default]) default

/-- The directory and the file beside it go into the trash and back. -/
theorem restore_trash_shelf :
    shelfStore.faults = [] ∧ shelfStore.catalog.WellShaped ∧
      ∃ plan plan' t₁ t₂,
        (MovePlan.execute (Trash.prepareTrash {} .standard ["/box", "/note"])).runOn .ofStore ()
          shelfStore = (.ok (plan, { successCount := 2, total := 2 }), (), t₁) ∧
        (MovePlan.execute (Trash.prepareRestore {} .standard ["box", "note"])).runOn .ofStore () t₁ =
          (.ok (plan', { successCount := 2, total := 2 }), (), t₂) ∧
        plan.conflicts = [] ∧ plan'.conflicts = [] ∧
        t₂.catalog = shelfStore.catalog.withTrash default := by
  have hshaped : shelfStore.catalog.WellShaped := by decide
  have hnone : shelfStore.catalog.find? "/.trash" = none := by decide
  let entries : List Entry := [.directory "/box" default, .file "/note" 3 default]
  have hpaths : entries.map (·.path) = ["/box", "/note"] := rfl
  have hnames : entries.map (·.name) = ["box", "note"] := by decide
  obtain ⟨plan, plan', t₁, t₂, htrash, hrestore, hplan, hplan', hcat, -⟩ :=
    @restore_trash Unit shelfStore rfl hshaped
      (fun e he => by rw [hnone] at he; cases he) entries (by decide) (by decide)
      (by decide) .standard ()
  rw [hpaths] at htrash
  rw [hnames] at hrestore
  exact ⟨rfl, hshaped, plan, plan', t₁, t₂, htrash, hrestore, hplan, hplan', hcat⟩

end CloudDrive
