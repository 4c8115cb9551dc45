import CloudDrive.Proofs.Session.Coherence

/-!
# Coherence of whole runs

A session runs on a store that nobody else changes: its commands come one after another, each to its
end, with events, faults of the store and the passing of time in between. Faults of listings are
left out.

* `ready_run`: one step keeps the session sound, and keeps the cache coherent exactly if it does no
  harm.
* `not_harms_of_isSingle`: only batches, deletions and retries can do harm.
* `coherent_iff_harmless`: the cache of a run is coherent after each command exactly if no command
  does harm.
-/

namespace CloudDrive.Session

open Path (Canonical IsComponent)
open Store (Catalog)

/-! ## Steps -/

/-- Something that happens to a session and its store. -/
inductive Step where
  | ask (command : Command)
  | act (event : Event)
  | inject (fault : Store.Fault)
  | tick (now : Instant)

/-- Files to be stored have components as their names, and listings meet no faults. -/
def Step.Allowed : Step → Prop
  | .ask command => command.Proper
  | .inject fault => fault.kind ≠ .list
  | _ => True

/-- A session and its store after a step. A command runs to its end. -/
def Step.run (w : World Session) : Step → World Session
  | .ask command => (command.program.finish w).2
  | .act event => { w with state := (w.state.handle event).2 }
  | .inject fault => { w with store := w.store.addFault fault }
  | .tick now =>
    { w with state := { w.state with clock := now }, store := { w.store with clock := now } }

/-- A session and its store after several steps. -/
def runSteps (w : World Session) (steps : List Step) : World Session := steps.foldl Step.run w

/-- Only commands do harm. -/
def Step.Harms (w : World Session) : Step → Prop
  | .ask command => command.Harms w.state w.store
  | _ => False

/-- Every cached listing holds what the store itself lists there, in any order. -/
def Coherent (w : World Session) : Prop :=
  ∀ key l, w.state.cache.get? key = some l →
    ∃ l', (w.store.list key).1 = .ok l' ∧ l.entries.Perm l'.entries

theorem coherent_iff {w : World Session} (hf : w.store.FreeOf .list) :
    Coherent w ↔ Cache.Mirrors w.state.cache w.store.catalog := by
  refine forall_congr' fun key => forall_congr' fun l => imp_congr_right fun _ => ?_
  by_cases hd : w.store.catalog.IsDirectory key
  · rw [Store.list_of_isDirectory hf hd]
    simp [hd, Listing.ofEntries]
  · obtain ⟨f, hlist⟩ := Store.list_of_not_isDirectory hf hd
    rw [hlist]
    simp [hd]

/-! ## One step -/

section
variable {c : Config} {w : World Session} (h : Ready c w.state w.store) (hc : Coherent w)
include h hc

theorem isComponent_of_mem_visibleNames :
    ∀ n ∈ w.state.visibleNames, Canonical w.state.path ∧ IsComponent n := by
  intro n hn
  obtain ⟨e, he, rfl⟩ := List.mem_map.1 hn
  unfold visible at he
  cases hl : w.state.listing with
  | none =>
    rw [hl] at he
    cases he
  | some l =>
    rw [hl] at he
    obtain ⟨hd, hperm⟩ := (coherent_iff h.free).1 hc w.state.path l hl
    obtain ⟨hfind, -, -⟩ := Catalog.mem_children.1 (hperm.mem_iff.1 (View.mem_visible.1 he).1)
    refine ⟨h.shaped.tree.canonical_of_isDirectory hd, ?_⟩
    rw [h.shaped.named e.path e hfind]
    exact (h.shaped.tree.canonical e.path e hfind).isComponent_name
      (h.shaped.tree.ne_root e.path e hfind)

/-- **One step** keeps the session sound and the store as it should be, and the cache is coherent
after it exactly if it does no harm. -/
theorem ready_run {step : Step} (hs : step.Allowed) :
    Ready c (step.run w).state (step.run w).store ∧ (Coherent (step.run w) ↔ ¬ step.Harms w) := by
  have hm := (coherent_iff h.free).1 hc
  cases step with
  | ask command =>
    obtain ⟨-, hstate, hstore⟩ := Program.finish_eq_runOn command.program w
    have hleaves := leaves_program h hm hs
    have hsound := sound_program h.sound hs .ofStore w.store
    rw [← hstate] at hsound
    have hready : Ready c (command.program.finish w).2.state (command.program.finish w).2.store :=
      ⟨hsound, hstore ▸ hleaves.shaped, hstore ▸ hleaves.free⟩
    refine ⟨hready, (coherent_iff hready.free).trans ?_⟩
    show Cache.Mirrors (command.program.finish w).2.state.cache
      (command.program.finish w).2.store.catalog ↔ _
    rw [hstate, hstore]
    exact hleaves.mirrors_iff
  | act event =>
    have hsound := sound_handle h.sound (isComponent_of_mem_visibleNames h hc) event
    have hready : Ready c ((Step.act event).run w).state ((Step.act event).run w).store :=
      ⟨hsound, h.shaped, h.free⟩
    refine ⟨hready, iff_of_true ((coherent_iff hready.free).2 ?_) id⟩
    obtain ⟨-, hcache | hcache, -⟩ := w.state.handle_keeps event
    · show Cache.Mirrors (w.state.handle event).2.cache w.store.catalog
      rwa [hcache]
    · show Cache.Mirrors (w.state.handle event).2.cache w.store.catalog
      rw [hcache]
      intro key l hl
      cases hl
  | inject fault =>
    have hfree : (w.store.addFault fault).FreeOf .list := by
      intro f hf
      rcases List.mem_append.1 hf with hf | hf
      · exact h.free f hf
      · rw [List.mem_singleton.1 hf]
        exact hs
    exact ⟨⟨h.sound, h.shaped, hfree⟩, iff_of_true ((coherent_iff hfree).2 hm) id⟩
  | tick now =>
    have hready : Ready c ((Step.tick now).run w).state ((Step.tick now).run w).store :=
      ⟨⟨h.sound.config, h.sound.reachable, h.sound.held, h.sound.retries⟩, h.shaped, h.free⟩
    exact ⟨hready, iff_of_true ((coherent_iff hready.free).2 hm) id⟩

end

/-! ## Harmless commands -/

/-- The commands that neither move several entries nor remove any. -/
def Command.isSingle : Command → Bool
  | .navigate _ | .refresh | .createDirectory _ | .rename _ _ | .upload _ => true
  | _ => false

/-- Visits, creations, renames and uploads do no harm, wherever they come. -/
theorem not_harms_of_isSingle {command : Command} (h : command.isSingle = true) (s : Session)
    (t : Store) : ¬ command.Harms s t := by
  rintro ⟨request, hr, operation, ho, hharm⟩
  obtain ⟨s', hruling⟩ := exists_ruling hr
  cases hruling with
  | createDirectory =>
    cases ho
    exact hharm
  | rename =>
    cases ho
    exact hharm
  | trash _ hcommand => rcases hcommand with rfl | ⟨rfl, -⟩ <;> cases h
  | delete _ hcommand => rcases hcommand with rfl | ⟨rfl, -⟩ <;> cases h
  | visit => cases ho
  | refresh => cases ho
  | sameName => cases ho
  | upload => cases ho
  | _ => cases h

/-! ## Runs -/

/-- What holds at every command of a run holds at the first step, if it is one, and at every command
of the rest. -/
theorem forall_command_cons {P : List Step → Command → Prop} {step : Step} {steps : List Step} :
    (∀ before command, before ++ [.ask command] <+: step :: steps → P before command) ↔
      (∀ command, step = .ask command → P [] command) ∧
        ∀ before command, before ++ [.ask command] <+: steps →
          P (step :: before) command := by
  constructor
  · intro h
    refine ⟨fun command hs => ?_, fun before command hp => ?_⟩
    · subst hs
      exact h [] command (List.prefix_append [_] steps)
    · exact h (step :: before) command ((List.prefix_cons_inj step).2 hp)
  · rintro ⟨hfirst, hrest⟩ before command hp
    cases before with
    | nil => exact hfirst command (List.cons_prefix_cons.1 hp).1.symm
    | cons step' before =>
      rw [List.cons_append] at hp
      obtain ⟨rfl, hbefore⟩ := List.cons_prefix_cons.1 hp
      exact hrest before command hbefore

/-- A run from a coherent cache. The induction is on the steps, and carries what `Ready` says of the
session and its store. -/
theorem coherent_iff_of_ready {c : Config} {w : World Session} (h : Ready c w.state w.store)
    (hc : Coherent w) {steps : List Step} (hs : ∀ step ∈ steps, step.Allowed) :
    (∀ before command, before ++ [.ask command] <+: steps →
        Coherent (runSteps w (before ++ [.ask command]))) ↔
      ∀ before command, before ++ [.ask command] <+: steps →
        ¬ command.Harms (runSteps w before).state (runSteps w before).store := by
  induction steps generalizing w with
  | nil => simp
  | cons step steps ih =>
    obtain ⟨hstep, hs⟩ := List.forall_mem_cons.1 hs
    obtain ⟨hready, hiff⟩ := ready_run h hc hstep
    rw [forall_command_cons, forall_command_cons]
    by_cases hharm : step.Harms w
    · -- the first step is a command, and it does harm
      cases step with
      | ask command =>
        refine iff_of_false (fun hall => ?_) fun hall => hall.1 command rfl hharm
        exact hiff.1 (hall.1 command rfl) hharm
      | act event => exact hharm.elim
      | inject fault => exact hharm.elim
      | tick now => exact hharm.elim
    · refine and_congr (iff_of_true ?_ ?_) (ih hready (hiff.2 hharm) hs)
      · rintro command rfl
        exact hiff.2 hharm
      · rintro command rfl
        exact hharm

/-- A fresh session on a store. -/
def begin (c : Config) (store : Store) (now : Instant) : World Session :=
  ⟨start c now, store, 0⟩

/-- **Coherence of a run.** On a store of tree shape without faults of listings, the cache of a
session that began afresh is coherent after each command exactly if no command does harm where it
comes. -/
theorem coherent_iff_harmless (c : Config) (now : Instant) {store : Store}
    (ht : store.catalog.WellShaped) (hf : store.FreeOf .list) {steps : List Step}
    (hs : ∀ step ∈ steps, step.Allowed) :
    (∀ before command, before ++ [.ask command] <+: steps →
        Coherent (runSteps (begin c store now) (before ++ [.ask command]))) ↔
      ∀ before command, before ++ [.ask command] <+: steps →
        ¬ command.Harms (runSteps (begin c store now) before).state
          (runSteps (begin c store now) before).store := by
  refine coherent_iff_of_ready (c := c) ⟨sound_start c now, ht, hf⟩ ?_ hs
  intro key l hl
  cases hl

/-- A directory with a file. -/
def docsStore : Store :=
  .ofCatalog (.ofEntries [.directory "/docs" default, .file "/docs/a" 3 default]) default

/-- A directory created in the root, at the second attempt. -/
def creationSteps : List Step :=
  [.ask (.navigate "/"), .inject ⟨.createDirectory, none, ⟨.server, "refused"⟩, true⟩,
    .ask (.createDirectory "new"), .ask (.createDirectory "new")]

theorem coherent_creationSteps :
    (∀ step ∈ creationSteps, step.Allowed) ∧
      Coherent (runSteps (begin {} docsStore default) creationSteps) := by
  have hallowed : ∀ step ∈ creationSteps, step.Allowed := by
    intro step hstep
    simp only [creationSteps, List.mem_cons, List.not_mem_nil, or_false] at hstep
    rcases hstep with rfl | rfl | rfl | rfl
    · trivial
    · show Remote.CallKind.createDirectory ≠ .list
      decide
    · trivial
    · trivial
  refine ⟨hallowed, (coherent_iff_harmless {} default (by decide) (by rintro f ⟨⟩)
    hallowed).2 ?_ (creationSteps.take 3) (.createDirectory "new") (List.prefix_refl _)⟩
  intro before command hp
  have hmem := hp.subset (List.mem_append_right before (List.mem_singleton_self _))
  simp only [creationSteps, List.mem_cons, List.not_mem_nil, or_false, Step.ask.injEq,
    reduceCtorEq, false_or] at hmem
  rcases hmem with rfl | rfl | rfl <;> exact not_harms_of_isSingle rfl _ _

/-- The file of the directory put into the trash, which did not exist before. -/
def trashSteps : List Step :=
  [.ask (.navigate "/"), .ask (.navigate "/docs"), .act .selectAll, .ask .trash]

/-- The listing of the root, cached before the trash was created in it, is not fetched again. -/
theorem trash_leaves_root_behind :
    docsStore.catalog.WellShaped ∧ docsStore.FreeOf .list ∧ (∀ step ∈ trashSteps, step.Allowed) ∧
      ¬ Coherent (runSteps (begin {} docsStore default) trashSteps) := by
  refine ⟨by decide, by rintro f ⟨⟩, ?_, fun hc => ?_⟩
  · intro step hstep
    simp only [trashSteps, List.mem_cons, List.not_mem_nil, or_false] at hstep
    rcases hstep with rfl | rfl | rfl | rfl <;> trivial
  · have hfaults : (runSteps (begin {} docsStore default) trashSteps).store.faults = [] := by
      decide +kernel
    refine absurd ((coherent_iff ?_).1 hc) (by decide +kernel)
    intro f hf
    rw [hfaults] at hf
    cases hf

end CloudDrive.Session
