import CloudDrive.Proofs.Session.Drops
import CloudDrive.Proofs.View.Sequence

/-!
# Where a click lands

A press notes the name and the index of the row that it hits. The click that it comes to tells the
name, but selects whatever stands at the index by then; so it lands on what was pressed only if that
still stands there, or if nobody can tell the difference.

* `gesture_run`: a turn does to the gesture what an event of the pointer does.
* `armed_runTurns`: without another press, an armed gesture is the one that was armed.
* `names_pointerUp`: what a click selects.
* `lands_pointerUp_iff`, `click_lands_iff`: when it lands on what was pressed.
-/

namespace CloudDrive.Session

open Pointer (Gesture Point Modifiers)

variable {τ : Type}

/-! ## The gesture of a session -/

/-- Is the pointer pressed? -/
def Turn.isPress : Turn τ → Bool
  | .act (.pointerDown _ _ _) => true
  | _ => false

/-- The gesture stays, or takes one event of the pointer, which is a press only if the turn is. -/
inductive Turn.Moves (turn : Turn τ) (g g' : Gesture) : Prop where
  | stays (h : g' = g)
  | takes (e : Gesture.Event) (hpress : e.isPress = true → turn.isPress = true)
      (h : g' = (g.step e).2)

theorem gesture_handle (event : Event) (s : Session) :
    (Turn.act event : Turn τ).Moves s.gesture (s.handle event).2.gesture := by
  cases event with
  | pointerDown index point modifiers =>
    simp only [handle, pointerDown]
    split
    · exact .stays rfl
    · next name _ => exact .takes (.press name index point modifiers) (fun _ => rfl) rfl
  | pointerMove point => exact .takes (.move point s.selection) (by cases ·) rfl
  | startDrag index =>
    simp only [handle, startDrag]
    split
    · exact .stays rfl
    · next name _ => exact .takes (.startDrag name s.selection) (by cases ·) rfl
  | hover index => exact .takes (.hover (index.bind (s.visible[·]?))) (by cases ·) rfl
  | pointerUp =>
    refine .takes (.release s.path) (by cases ·) ?_
    simp only [handle, pointerUp]
    split
    · exact (sameHand_click _ _ _).gesture
    · rfl
    · rfl
  | cancelDrag => exact .takes .cancel (by cases ·) rfl
  | reset => exact .takes .cancel (by cases ·) rfl
  | click index modifiers => exact .stays (sameHand_click s index modifiers).gesture
  | moveFocus delta =>
    simp only [handle, moveFocus]
    split <;> exact .stays rfl
  | toggleFocused =>
    simp only [handle, toggleFocused]
    repeat' split
    all_goals exact .stays rfl
  | contextSelect name =>
    simp only [handle, contextSelect]
    split <;> exact .stays rfl
  | cancelDrop =>
    simp only [handle, cancelDrop]
    split <;> exact .stays rfl
  | _ => exact .stays rfl

/-- **A turn** does to the gesture what one event of the pointer does, or nothing. -/
theorem gesture_run (service : Service τ) {w : Crew τ} (hw : Steady w) (turn : Turn τ) :
    turn.Moves w.state.gesture (turn.run service w).2.state.gesture := by
  cases turn with
  | ask command =>
    rw [(steady_ask service hw command).1.gesture]
    rcases accept_cases command w.state with ⟨path, -, hvisit⟩ | ⟨_, _, hstays⟩
    · exact .takes .cancel (by cases ·) (congrArg Session.gesture hvisit)
    · exact .stays (by rw [hstays])
  | go number => exact .stays (steady_go service hw number).1.gesture
  | act event => exact gesture_handle event w.state
  | tick now => exact .stays rfl
  | outside change => exact .stays rfl

/-- Only a press can arm the gesture anew. -/
theorem armed_run (service : Service τ) {w : Crew τ} (hw : Steady w) {turn : Turn τ}
    (hturn : turn.isPress = false) {origin : Point} {name : String} {index : Nat}
    {modifiers : Modifiers} (h : (turn.run service w).2.state.gesture.state =
      .armed origin name index modifiers) :
    w.state.gesture.state = .armed origin name index modifiers := by
  rcases gesture_run service hw turn with hsame | ⟨e, hpress, hstep⟩
  · exact hsame ▸ h
  · rw [hstep] at h
    cases Gesture.stepped w.state.gesture e with
    | rests hafter => rw [h] at hafter; cases hafter
    | arms _ _ _ _ _ he =>
      rw [he, hturn] at hpress
      cases hpress rfl
    | stays _ _ _ _ hbefore hafter =>
      rw [h] at hafter
      cases hafter
      exact hbefore
    | begins _ _ hafter => rw [h] at hafter; cases hafter
    | drags _ _ _ hafter => rw [h] at hafter; cases hafter
    | hovers _ _ _ _ _ hafter => rw [h] at hafter; cases hafter

theorem steady_runTurns (service : Service τ) {w : Crew τ} (hw : Steady w) (turns : List (Turn τ)) :
    Steady (runTurns service w turns) := by
  induction turns using List.reverseRecOn with
  | nil => exact hw
  | append_singleton turns turn ih =>
    rw [runTurns_snoc]
    exact (turned service ih turn).2

/-- A gesture that is armed after turns without a press was armed before them. The induction is on the
turns, the last one first. -/
theorem armed_runTurns (service : Service τ) {w : Crew τ} (hw : Steady w) {turns : List (Turn τ)}
    (hturns : ∀ turn ∈ turns, turn.isPress = false) {origin : Point} {name : String} {index : Nat}
    {modifiers : Modifiers} (h : (runTurns service w turns).state.gesture.state =
      .armed origin name index modifiers) :
    w.state.gesture.state = .armed origin name index modifiers := by
  induction turns using List.reverseRecOn with
  | nil => exact h
  | append_singleton turns turn ih =>
    rw [runTurns_snoc] at h
    exact ih (fun other ho => hturns other (List.mem_append_left _ ho))
      (armed_run service (steady_runTurns service hw turns) (hturns turn (by simp)) h)

/-! ## The click -/

/-- The click has selected exactly the entry of this name if it is visible, and nothing new
otherwise. -/
def Lands (name : String) (s s' : Session) : Prop :=
  (name ∈ s.visibleNames → s'.selection.names = [name]) ∧
    (name ∉ s.visibleNames → ∀ other ∈ s'.selection.names,
      other = name ∨ other ∈ s.selection.names)

section
variable {s : Session} {origin : Point} {name : String} {index : Nat}

/-- A press over a row arms the gesture with the name that the row shows. -/
theorem pointerDown_of_idle (hname : s.visibleNames[index]? = some name)
    (hidle : s.gesture.state = .idle) (point : Point) (modifiers : Modifiers) :
    s.pointerDown index point modifiers =
      { s with gesture := { s.gesture with state := .armed point name index modifiers } } := by
  simp only [pointerDown, hname, Gesture.press_of_idle hidle]

/-- The release of a plain press tells the name that was pressed, and selects what stands at the index
that was pressed. -/
theorem pointerUp_of_armed {modifiers : Modifiers}
    (h : s.gesture.state = .armed origin name index modifiers) :
    s.pointerUp = (.click name index modifiers,
      { s with gesture := s.gesture.cancel }.click index modifiers) := by
  simp only [pointerUp, Gesture.release, h]
  rfl

theorem names_pointerUp (h : s.gesture.state = .armed origin name index {}) :
    s.pointerUp.2.selection.names = s.visibleNames[index]?.elim s.selection.names ([·]) := by
  rw [pointerUp_of_armed h]
  show (click index {} { s with gesture := s.gesture.cancel }).selection.names = _
  unfold click
  have hvisible : ({ s with gesture := s.gesture.cancel } : Session).visibleNames =
      s.visibleNames := rfl
  rw [hvisible]
  cases s.visibleNames[index]? <;> rfl

/-- **A click lands on what was pressed** exactly if it still stands where it was pressed, or it is
gone and what stands there is selected already, or nothing stands there and it is all that is
selected. -/
theorem lands_pointerUp_iff (h : s.gesture.state = .armed origin name index {}) :
    Lands name s s.pointerUp.2 ↔ s.visibleNames[index]? = some name ∨
      (name ∉ s.visibleNames ∧ ∀ other ∈ s.visibleNames[index]?, other ∈ s.selection.names) ∨
      (s.visibleNames[index]? = none ∧ s.selection.names = [name]) := by
  unfold Lands
  rw [names_pointerUp h]
  cases hat : s.visibleNames[index]? with
  | none =>
    by_cases hname : name ∈ s.visibleNames
    · simp [hname]
    · simp only [hname, IsEmpty.forall_iff, true_and, not_false_eq_true, true_implies]
      exact iff_of_true (fun _ => .inr) (.inr (.inl fun _ h => by cases h))
  | some other =>
    have hother : other ∈ s.visibleNames := List.mem_of_getElem? hat
    by_cases hname : name ∈ s.visibleNames
    · simp [hname, eq_comm]
    · have hne : other ≠ name := fun heq => hname (heq ▸ hother)
      simp [hname, hne]

end

/-- **Whatever happens between a press and its release**, be it that commands go on, listings arrive or
other entries are shown: if the release comes to a click, then it tells the name and the index that
were pressed and selects what stands at that index now, if anything does. It lands on what was pressed
exactly if that still stands there, or it is gone and what stands there is selected already, or nothing
stands there and it is all that is selected. -/
theorem click_lands_iff (service : Service τ) (c : Config) (now : Instant) (t : τ)
    {before during : List (Turn τ)} {index : Nat} {point : Point} {name : String} :
    let w := Crew.of (start c now) t
    let pressed := (runTurns service w before).state
    let s := (runTurns service w
      (before ++ .act (.pointerDown index point {}) :: during)).state
    pressed.visibleNames[index]? = some name → pressed.gesture.state = .idle →
    (∀ turn ∈ during, turn.isPress = false) →
    ∀ clicked row modifiers, s.pointerUp.1 = .click clicked row modifiers →
      clicked = name ∧ row = index ∧ modifiers = {} ∧
      s.pointerUp.2.selection.names = s.visibleNames[index]?.elim s.selection.names ([·]) ∧
      (Lands name s s.pointerUp.2 ↔ s.visibleNames[index]? = some name ∨
        (name ∉ s.visibleNames ∧ ∀ other ∈ s.visibleNames[index]?, other ∈ s.selection.names) ∨
        (s.visibleNames[index]? = none ∧ s.selection.names = [name])) := by
  intro w pressed s hname hidle hduring clicked row modifiers hclick
  obtain ⟨origin, harmed⟩ := Gesture.release_eq_click_iff.1 ((fst_pointerUp s).symm.trans hclick)
  have hsteady : Steady (runTurns service w before) :=
    steady_runTurns service (by rintro _ ⟨⟩) before
  have hs : s = (runTurns service ((Turn.act (.pointerDown index point {})).run service
      (runTurns service w before)).2 during).state := by
    simp only [s, runTurns_append, runTurns_cons]
  have hpress := pointerDown_of_idle hname hidle point {}
  have hbefore := armed_runTurns service (turned service hsteady _).2 hduring (hs ▸ harmed)
  have hsame : Pointer.GestureState.armed origin clicked row modifiers = .armed point name index {} :=
    hbefore.symm.trans (congrArg (·.gesture.state) hpress)
  cases hsame
  exact ⟨rfl, rfl, rfl, names_pointerUp harmed, lands_pointerUp_iff harmed⟩

/-- Two files. -/
def twoFiles : Store :=
  .ofCatalog (.ofEntries [.file "/a" 1 default, .file "/b" 2 default]) default

/-- The root is opened, and a search leaves the second file only. -/
def secondShown : List (Turn Store) :=
  [.ask (.navigate "/"), .go 0, .act (.setOptions { search := "b" })]

/-- The pointer is pressed over the first row. -/
def pressFirst : Turn Store := .act (.pointerDown 0 ⟨0, 0⟩ {})

/-- The session after some turns at the two files. -/
def atTwoFiles (turns : List (Turn Store)) : Session :=
  (runTurns .ofStore (.of (start {} default) twoFiles) turns).state

theorem getElem?_secondShown : (atTwoFiles secondShown).visibleNames[0]? = some "b" := by
  decide +kernel

/-- A click lands on what was pressed, if the listing is fetched again meanwhile and has not
changed. -/
theorem click_lands_refetched :
    let s := atTwoFiles (secondShown ++ [pressFirst, .ask .refresh, .go 1])
    (atTwoFiles secondShown).visibleNames[0]? = some "b" ∧
      s.pointerUp.1 = .click "b" 0 {} ∧ Lands "b" s s.pointerUp.2 := by
  intro s
  have hclick : s.pointerUp.1 = .click "b" 0 {} := by decide +kernel
  have hshown : s.visibleNames[0]? = some "b" := by decide +kernel
  obtain ⟨-, -, -, -, hlands⟩ := click_lands_iff .ofStore {} default twoFiles
    getElem?_secondShown rfl (by decide) "b" 0 {} hclick
  exact ⟨getElem?_secondShown, hclick, hlands.2 (.inl hshown)⟩

/-- The search is given up while the pointer is pressed. -/
def allShown : Session := atTwoFiles (secondShown ++ [pressFirst, .act (.setOptions {})])

theorem visibleNames_twoFiles {s : Session}
    (hlisting : s.listing = some (.ofEntries "/" [.file "/a" 1 default, .file "/b" 2 default]))
    (hoptions : s.options = {}) (hclock : s.clock = default) : s.visibleNames = ["a", "b"] := by
  let entries : List Entry := [.file "/a" 1 default, .file "/b" 2 default]
  have hperm : entries.Perm (entries.filter (s.options.accepts s.clock)) := by
    rw [hoptions, hclock]
    decide
  have hvisible : s.visible = entries := by
    unfold visible
    rw [hlisting]
    exact View.visible_eq_of_pairwise hperm (by rw [hoptions]; decide)
  rw [visibleNames, hvisible]
  decide

theorem allShown_eq :
    allShown = (handle { atTwoFiles secondShown with
      gesture := { (atTwoFiles secondShown).gesture with state := .armed ⟨0, 0⟩ "b" 0 {} } }
        (.setOptions {})).2 :=
  congrArg (fun s => (s.handle (.setOptions {})).2)
    (pointerDown_of_idle getElem?_secondShown rfl ⟨0, 0⟩ {})

theorem visibleNames_allShown : allShown.visibleNames = ["a", "b"] := by
  rw [allShown_eq]
  exact visibleNames_twoFiles (by decide) rfl (by decide)

/-- A search is given up between the press and the release. The entry that was pressed is still
visible, but the click selects the one that has come to its place. -/
theorem click_misses_pressed :
    (atTwoFiles secondShown).visibleNames[0]? = some "b" ∧
      allShown.pointerUp.1 = .click "b" 0 {} ∧ "b" ∈ allShown.visibleNames ∧
      allShown.pointerUp.2.selection.names = ["a"] ∧ ¬ Lands "b" allShown allShown.pointerUp.2 := by
  have harmed : allShown.gesture.state = .armed ⟨0, 0⟩ "b" 0 {} := by rw [allShown_eq]; rfl
  have hclick : allShown.pointerUp.1 = .click "b" 0 {} :=
    congrArg Prod.fst (pointerUp_of_armed harmed)
  have hmem : "b" ∈ allShown.visibleNames := visibleNames_allShown ▸ by decide
  have hnames : allShown.pointerUp.2.selection.names = ["a"] := by
    rw [names_pointerUp harmed, visibleNames_allShown]
    rfl
  refine ⟨getElem?_secondShown, hclick, hmem, hnames, fun hlands => ?_⟩
  have hselects := hlands.1 hmem
  rw [hnames] at hselects
  exact absurd hselects (by decide)

end CloudDrive.Session
