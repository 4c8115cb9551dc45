import CloudDrive.Proofs.Selection
import CloudDrive.Session.Event
import Mathlib.Data.List.Basic

/-!
# The names that a session holds

A session holds names in its selection, its gesture and the drop that waits for consent. All of
them are names of the directory that is shown.

* `Handled`, `handled_handle`: what an event can do to a session.
* `held_handle`: an event holds no name that was neither held nor visible before.
* `handle_keeps`, `handle_eq`: what an event leaves as it is.
-/

namespace CloudDrive

namespace Selection

variable (s : Selection)

theorem names_toggle_subset (name : String) (index : Nat) :
    (s.toggle name index).names ⊆ name :: s.names := by
  unfold toggle
  split
  · rw [names_dropIdleAnchor]
    exact List.Subset.trans List.erase_subset (List.subset_cons_self _ _)
  · exact List.insertIdx_subset_cons _ _ _

theorem between_subset (first second : Nat) (visible : List String) :
    between first second visible ⊆ visible :=
  List.Subset.trans (List.take_subset _ _) (List.drop_subset _ _)

theorem names_extendTo_subset (target : Nat) (visible : List String) :
    (s.extendTo target visible).names ⊆ s.names ++ visible := by
  unfold extendTo
  split
  · intro n hn
    rcases mem_foldl_insertNew.1 hn with hn | hn
    · exact List.mem_append_left _ hn
    · exact List.mem_append_right _ (between_subset _ _ _ hn)
  · split
    · next hv =>
      exact List.cons_subset.2
        ⟨List.mem_append_right _ (List.mem_of_getElem? hv), List.nil_subset _⟩
    · exact List.subset_append_left _ _

theorem names_ensureSelected_subset (name : String) (index : Nat) :
    (s.ensureSelected name index).names ⊆ name :: s.names := by
  unfold ensureSelected
  split
  · exact List.subset_cons_self _ _
  · intro n hn
    rcases List.mem_append.1 hn with hn | hn
    · exact List.mem_cons_of_mem _ hn
    · exact List.mem_singleton.1 hn ▸ List.mem_cons_self

theorem foldl_ensureSelected_subset (place : String → Nat) (added : List String) :
    (added.foldl (fun s name => s.ensureSelected name (place name)) s).names ⊆
      s.names ++ added := by
  induction added generalizing s with
  | nil => simp
  | cons a added ih =>
    intro n hn
    rcases List.mem_append.1 (ih (s.ensureSelected a (place a)) hn) with hn | hn
    · rcases List.mem_cons.1 (s.names_ensureSelected_subset a _ hn) with rfl | hn
      · exact List.mem_append_right _ List.mem_cons_self
      · exact List.mem_append_left _ hn
    · exact List.mem_append_right _ (List.mem_cons_of_mem _ hn)

theorem names_selectAll_subset (visible : List String) :
    (s.selectAll visible).names ⊆ visible := by
  unfold selectAll
  rw [names_dropIdleAnchor]
  exact fun n hn => List.mem_eraseDups.1 hn

theorem names_retainVisible_subset (visible : List String) :
    (s.retainVisible visible).names ⊆ s.names := by
  rw [names_retainVisible]
  exact List.filter_subset_self _

end Selection

namespace Pointer.Gesture

/-- The names that a gesture holds. -/
def names (g : Gesture) : List String :=
  match g.state with
  | .idle => []
  | .armed _ name _ _ => [name]
  | .dragging payload _ => payload

theorem names_press_subset (g : Gesture) (name : String) (index : Nat) (origin : Point)
    (modifiers : Modifiers) : (g.press name index origin modifiers).names ⊆ name :: g.names := by
  unfold press
  split
  · exact List.cons_subset.2 ⟨List.mem_cons_self, List.nil_subset _⟩
  · exact List.subset_cons_self _ _

theorem payload_subset (name : String) (selection : Selection) :
    payload name selection ⊆ name :: selection.names := by
  unfold payload
  split
  · exact List.subset_cons_self _ _
  · exact List.cons_subset.2 ⟨List.mem_cons_self, List.nil_subset _⟩

theorem names_startDrag_subset (g : Gesture) (name : String) (selection : Selection) :
    (g.startDrag name selection).2.names ⊆ name :: selection.names :=
  payload_subset name selection

theorem names_move_subset (g : Gesture) (point : Point) (selection : Selection) :
    (g.move point selection).2.names ⊆ g.names ++ selection.names := by
  unfold move
  split
  · next name _ _ hg =>
    split
    · exact List.subset_append_left _ _
    · have hname : g.names = [name] := by
        unfold names
        rw [hg]
      rw [hname]
      exact payload_subset name selection
  · exact List.subset_append_left _ _

theorem names_hover (g : Gesture) (entry : Option Entry) : (g.hover entry).names = g.names := by
  obtain ⟨threshold, state⟩ := g
  cases state <;> rfl

/-- A drop takes names that the gesture held. -/
theorem sources_release_subset {g : Gesture} {directory : String} {drop : Drop}
    (h : (g.release directory).1 = .dropped drop) : drop.sources ⊆ g.names := by
  obtain ⟨threshold, state⟩ := g
  rcases state with _ | _ | ⟨payload, _ | target⟩
  · cases h
  · cases h
  · cases h
  · simp only [release, drop?] at h
    split at h
    · next hd =>
      split at hd
      · cases hd
      · split at hd
        · cases hd
        · cases hd
          cases h
          exact fun n hn => List.mem_eraseDups.1 hn
    · cases h

end Pointer.Gesture

namespace Session

/-- The names that a session holds. -/
def held (s : Session) : List String :=
  s.selection.names ++ s.gesture.names ++ (s.pendingDrop.map (·.sources)).getD []

theorem mem_held {s : Session} {n : String} :
    n ∈ s.held ↔ n ∈ s.selection.names ∨ n ∈ s.gesture.names ∨
      ∃ drop ∈ s.pendingDrop, n ∈ drop.sources := by
  unfold held
  cases s.pendingDrop <;> simp

theorem held_subset {s s' : Session} {names : List String}
    (hs : s'.selection.names ⊆ s.selection.names ++ names)
    (hg : s'.gesture.names ⊆ s.held ++ names)
    (hd : ∀ drop ∈ s'.pendingDrop, drop.sources ⊆ s.held ++ names) : s'.held ⊆ s.held ++ names := by
  intro n hn
  rcases mem_held.1 hn with hn | hn | ⟨drop, hdrop, hn⟩
  · rcases List.mem_append.1 (hs hn) with hn | hn
    · exact List.mem_append_left _ (mem_held.2 (.inl hn))
    · exact List.mem_append_right _ hn
  · exact hg hn
  · exact hd drop hdrop hn

section
variable (s : Session)

theorem gesture_subset_held : s.gesture.names ⊆ s.held := fun _ hn => mem_held.2 (.inr (.inl hn))

theorem drop_subset_held : ∀ drop ∈ s.pendingDrop, drop.sources ⊆ s.held :=
  fun drop hdrop _ hn => mem_held.2 (.inr (.inr ⟨drop, hdrop, hn⟩))

theorem held_spent_subset : { s with pendingDrop := none }.held ⊆ s.held := by
  intro n hn
  rcases mem_held.1 hn with hn | hn | ⟨_, ⟨⟩, -⟩
  · exact mem_held.2 (.inl hn)
  · exact s.gesture_subset_held hn

theorem held_prune : s.prune.held ⊆ s.held := by
  intro n hn
  rcases mem_held.1 hn with hn | hn
  · exact mem_held.2 (.inl (s.selection.names_retainVisible_subset _ hn))
  · exact mem_held.2 (.inr hn)

end

/-! ## What an event can do -/

/-- A selection and a focus without any name that was neither there before nor is visible. -/
structure Selects (s : Session) (selection : Selection) (focused : Option String) : Prop where
  names : selection.names ⊆ s.selection.names ++ s.visibleNames
  focused : focused = s.focused ∨ ∃ name ∈ s.visibleNames, focused = some name

/-- What an event can do to a session. -/
inductive Handled (s : Session) (e : Event) : Session → Prop where
  /-- Names are selected, taken along or dropped; each of them was held or is visible. -/
  | holds (selection : Selection) (focused : Option String) (gesture : Pointer.Gesture)
      (pendingDrop : Option Pointer.Drop) (notice : Option Notice)
      (hselects : s.Selects selection focused)
      (hgesture : gesture.names ⊆ s.held ++ s.visibleNames)
      (hdrop : ∀ drop ∈ pendingDrop, drop.sources ⊆ s.held ++ s.visibleNames) :
      Handled s e { s with selection, focused, gesture, pendingDrop, notice }
  | prunes (options : View.Options) : Handled s e { s with options }.prune
  /-- Tasks are forgotten, or the notice is hidden. -/
  | tidies (ledger : Ledger) (notice : Option Notice) (hnext : ledger.nextId = s.ledger.nextId)
      (htasks : ledger.tasks ⊆ s.ledger.tasks) : Handled s e { s with ledger, notice }
  | resets (he : e = .reset) : Handled s e s.reset

section
variable {s : Session} {e : Event}

theorem Selects.refl (s : Session) : s.Selects s.selection s.focused :=
  ⟨List.subset_append_left _ _, .inl rfl⟩

/-- The entry of a row is selected, together with what was selected before or without it. -/
theorem Selects.row {selection : Selection} {name : String} (hn : name ∈ s.visibleNames)
    (h : selection.names ⊆ name :: s.selection.names) : s.Selects selection (some name) :=
  ⟨List.Subset.trans h
    (List.cons_subset.2 ⟨List.mem_append_right _ hn, List.subset_append_left _ _⟩),
    .inr ⟨name, hn, rfl⟩⟩

theorem Handled.stays : Handled s e s := .tidies s.ledger s.notice rfl (List.Subset.refl _)

theorem Handled.selects {selection : Selection} {focused : Option String}
    (h : s.Selects selection focused) : Handled s e { s with selection, focused } :=
  .holds selection focused s.gesture s.pendingDrop s.notice h
    (List.subset_append_of_subset_left _ s.gesture_subset_held)
    fun drop hdrop => List.subset_append_of_subset_left _ (s.drop_subset_held drop hdrop)

theorem Handled.takes {gesture : Pointer.Gesture}
    (h : gesture.names ⊆ s.held ++ s.visibleNames) : Handled s e { s with gesture } :=
  .holds s.selection s.focused gesture s.pendingDrop s.notice (.refl s) h
    fun drop hdrop => List.subset_append_of_subset_left _ (s.drop_subset_held drop hdrop)

end

section
variable (s : Session)

theorem mem_visibleNames_of_idxOf? {names : List String} {name : String} {index : Nat}
    (h : names.idxOf? name = some index) : name ∈ names := by
  obtain ⟨hi, he, -⟩ := List.idxOf?_eq_some_iff.1 h
  exact he ▸ List.getElem_mem hi

theorem click_selects (index : Nat) (modifiers : Pointer.Modifiers) :
    ∃ selection focused, s.click index modifiers = { s with selection, focused } ∧
      s.Selects selection focused := by
  unfold click
  split
  · exact ⟨s.selection, s.focused, rfl, .refl s⟩
  · next name hv =>
    have hname := List.mem_of_getElem? hv
    refine ⟨_, _, rfl, ?_, .inr ⟨name, hname, rfl⟩⟩
    split
    · exact s.selection.names_extendTo_subset _ _
    · split
      · exact (Selects.row hname (s.selection.names_toggle_subset _ _)).names
      · exact List.cons_subset.2 ⟨List.mem_append_right _ hname, List.nil_subset _⟩

section
variable {e : Event}

theorem handled_click (index : Nat) (modifiers : Pointer.Modifiers) :
    Handled s e (s.click index modifiers) := by
  obtain ⟨_, _, hclick, hselects⟩ := s.click_selects index modifiers
  rw [hclick]
  exact .selects hselects

theorem handled_selectNames (names : List String) : Handled s e (s.selectNames names).2 := by
  refine .selects ⟨List.subset_append_of_subset_right _ ?_, .inl rfl⟩
  -- the selection is begun anew, with those of the names that have a row
  refine List.Subset.trans (Selection.foldl_ensureSelected_subset _ _ _) fun n hn => ?_
  have hn := (List.mem_append.1 hn).resolve_left List.not_mem_nil
  simpa using (List.mem_filter.1 hn).2

theorem handled_moveFocus (delta : Int) : Handled s e (s.moveFocus delta) := by
  simp only [moveFocus]
  split
  · exact .stays
  · next name hv =>
    exact .selects (.row (List.mem_of_getElem? hv)
      (List.cons_subset.2 ⟨List.mem_cons_self, List.nil_subset _⟩))

theorem handled_toggleFocused : Handled s e s.toggleFocused := by
  unfold toggleFocused
  split
  · exact .stays
  · split
    · exact .stays
    · next index hv =>
      have hrow := Selects.row (mem_visibleNames_of_idxOf? hv)
        (s.selection.names_toggle_subset _ index)
      exact .selects ⟨hrow.names, .inl rfl⟩

theorem handled_contextSelect (name : String) : Handled s e (s.contextSelect name) := by
  unfold contextSelect
  split
  · exact .stays
  · next hv =>
    exact .selects (.row (mem_visibleNames_of_idxOf? hv)
      (s.selection.names_ensureSelected_subset _ _))

theorem handled_pointerDown (index : Nat) (point : Pointer.Point) (modifiers : Pointer.Modifiers) :
    Handled s e (s.pointerDown index point modifiers) := by
  unfold pointerDown
  split
  · exact .stays
  · next name hv =>
    refine .takes (List.Subset.trans (s.gesture.names_press_subset _ _ _ _) ?_)
    exact List.cons_subset.2 ⟨List.mem_append_right _ (List.mem_of_getElem? hv),
      List.subset_append_of_subset_left _ s.gesture_subset_held⟩

theorem handled_pointerMove (point : Pointer.Point) : Handled s e (s.pointerMove point).2 := by
  refine .takes (List.Subset.trans (s.gesture.names_move_subset _ _) ?_)
  refine List.subset_append_of_subset_left _ fun n hn => mem_held.2 ?_
  rcases List.mem_append.1 hn with hn | hn
  · exact .inr (.inl hn)
  · exact .inl hn

theorem handled_startDrag (index : Nat) : Handled s e (s.startDrag index).2 := by
  unfold startDrag
  split
  · exact .stays
  · next name hv =>
    refine .takes (List.Subset.trans (s.gesture.names_startDrag_subset _ _) ?_)
    exact List.cons_subset.2 ⟨List.mem_append_right _ (List.mem_of_getElem? hv),
      fun n hn => List.mem_append_left _ (mem_held.2 (.inl hn))⟩

theorem handled_hover (index : Option Nat) : Handled s e (s.hover index) := by
  refine .takes ?_
  rw [Pointer.Gesture.names_hover]
  exact List.subset_append_of_subset_left _ s.gesture_subset_held

theorem handled_pointerUp : Handled s e s.pointerUp.2 := by
  unfold pointerUp
  simp only
  split
  · next index modifiers _ =>
    obtain ⟨selection, focused, hclick, hselects⟩ :=
      { s with gesture := (s.gesture.release s.path).2 }.click_selects index modifiers
    rw [hclick]
    exact .holds selection focused _ s.pendingDrop s.notice ⟨hselects.names, hselects.focused⟩
      (List.nil_subset _) fun drop hdrop =>
        List.subset_append_of_subset_left _ (s.drop_subset_held drop hdrop)
  · next drop hout =>
    refine .holds s.selection s.focused _ (some drop) s.notice (.refl s) (List.nil_subset _) ?_
    rintro _ ⟨⟩
    exact List.subset_append_of_subset_left _ fun n hn =>
      s.gesture_subset_held (Pointer.Gesture.sources_release_subset hout hn)
  · exact .takes (List.nil_subset _)

theorem handled_cancelDrop : Handled s e s.cancelDrop := by
  unfold cancelDrop
  split
  · exact .stays
  · exact .holds s.selection s.focused s.gesture none _ (.refl s)
      (List.subset_append_of_subset_left _ s.gesture_subset_held) (by rintro _ ⟨⟩)

theorem handled_dismissTask (id : TaskId) : Handled s e (s.dismissTask id).2 := by
  simp only [dismissTask, Ledger.dismiss]
  split
  · exact .tidies _ s.notice rfl (List.filter_subset_self _)
  · exact .stays

theorem handled_clearFinished : Handled s e s.clearFinished.2 := by
  simp only [Session.clearFinished, Ledger.clearFinished]
  split
  · exact .tidies _ s.notice rfl (List.filter_subset_self _)
  · exact .stays

end

/-- What each event does; the lemmas about events below it do not look at them one by one. -/
theorem handled_handle (e : Event) : Handled s e (s.handle e).2 := by
  cases e with
  | setOptions options => exact .prunes options
  | click index modifiers => exact s.handled_click index modifiers
  | selectAll =>
    exact .selects ⟨List.subset_append_of_subset_right _ (s.selection.names_selectAll_subset _),
      .inl rfl⟩
  | selectNames names => exact s.handled_selectNames names
  | clearSelection => exact .selects ⟨List.nil_subset _, .inl rfl⟩
  | moveFocus delta => exact s.handled_moveFocus delta
  | toggleFocused => exact s.handled_toggleFocused
  | contextSelect name => exact s.handled_contextSelect name
  | pointerDown index point modifiers => exact s.handled_pointerDown index point modifiers
  | pointerMove point => exact s.handled_pointerMove point
  | startDrag index => exact s.handled_startDrag index
  | hover index => exact s.handled_hover index
  | pointerUp => exact s.handled_pointerUp
  | cancelDrag => exact .takes (List.nil_subset _)
  | cancelDrop => exact s.handled_cancelDrop
  | dismissTask id => exact s.handled_dismissTask id
  | clearFinished => exact s.handled_clearFinished
  | dismissNotice => exact .tidies s.ledger none rfl (List.Subset.refl _)
  | reset => exact .resets rfl

/-- **An event** holds no name that was neither held nor visible before, or forgets them all. -/
theorem held_handle (e : Event) :
    (s.handle e).2.path = s.path ∧ (s.handle e).2.held ⊆ s.held ++ s.visibleNames ∨
      (s.handle e).2.held = [] := by
  have h := s.handled_handle e
  generalize (s.handle e).2 = s' at h ⊢
  cases h with
  | holds _ _ _ _ _ hselects hgesture hdrop =>
    exact .inl ⟨rfl, held_subset hselects.names hgesture hdrop⟩
  | prunes options =>
    exact .inl ⟨rfl, List.subset_append_of_subset_left _ { s with options }.held_prune⟩
  | tidies => exact .inl ⟨rfl, List.subset_append_left _ _⟩
  | resets => exact .inr rfl

/-- Does the event forget everything? -/
def Event.isReset : Event → Bool
  | .reset => true
  | _ => false

/-- An event other than a reset leaves alone the settings, which directory is shown, its loads and
the cache. It gives out no number of a task, and may only forget tasks. -/
theorem handle_eq {e : Event} (he : e.isReset = false) :
    (s.handle e).2 = { s with
        options := (s.handle e).2.options
        selection := (s.handle e).2.selection
        focused := (s.handle e).2.focused
        pendingDrop := (s.handle e).2.pendingDrop
        ledger := (s.handle e).2.ledger
        notice := (s.handle e).2.notice
        gesture := (s.handle e).2.gesture } ∧
      (s.handle e).2.ledger.nextId = s.ledger.nextId ∧
      (s.handle e).2.ledger.tasks ⊆ s.ledger.tasks := by
  have h := s.handled_handle e
  generalize (s.handle e).2 = s' at h ⊢
  cases h with
  | holds | prunes => exact ⟨rfl, rfl, List.Subset.refl _⟩
  | tidies _ _ hnext htasks => exact ⟨rfl, hnext, htasks⟩
  | resets hreset =>
    subst hreset
    cases he

/-- An event changes neither the settings nor a cached listing; it may forget them, and tasks. -/
theorem handle_keeps (e : Event) :
    (s.handle e).2.config = s.config ∧
      ((s.handle e).2.cache = s.cache ∨ (s.handle e).2.cache = s.cache.clear) ∧
      (s.handle e).2.ledger.tasks ⊆ s.ledger.tasks := by
  cases he : e.isReset with
  | true =>
    cases e with
    | reset => exact ⟨rfl, .inr rfl, List.nil_subset _⟩
    | _ => cases he
  | false =>
    obtain ⟨hrest, -, htasks⟩ := s.handle_eq he
    refine ⟨?_, .inl ?_, htasks⟩ <;> rw [hrest]

end

end Session

end CloudDrive
