import CloudDrive.Proofs.Pointer.Traces
import CloudDrive.Proofs.Session.Scene

/-!
# What a confirmed drop moves

A drag takes names along, comes over rows, and ends with a drop that waits for consent. Commands, time
and other events come in between; still a confirmed drop moves what was taken, from where it was
taken, onto the last row that the drag came over (`Haul.Carries`).

* `turned`: what one turn can do to the directory that is shown, the gesture and the waiting drop.
* `Traced`: where the gesture and the waiting drop come from; `traced_run` is the step that keeps it.
* `confirmed_move_of_haul`: the move that a confirmation starts, and the drag that it comes from.
-/

namespace CloudDrive

namespace Pointer.Gesture

theorem move_cases (g : Gesture) (point : Point) (selection : Selection) :
    g.move point selection = (.nothing, g) ∨ ∃ names, g.move point selection = g.beginDrag names := by
  unfold move
  split
  · split
    · exact .inl rfl
    · exact .inr ⟨_, rfl⟩
  · exact .inl rfl

end Pointer.Gesture

namespace Session

variable {τ : Type}

/-! ## Turns of the pointer -/

/-- What a turn comes to, if it is an event of the pointer; any other comes to nothing. -/
def Turn.outcome (s : Session) : Turn τ → Pointer.GestureOutcome
  | .act event =>
    match (s.handle event).1 with
    | .gesture outcome => outcome
    | _ => .nothing
  | _ => .nothing

/-- Does the pointer come over a row, or over none? -/
def Turn.isHover : Turn τ → Bool
  | .act (.hover _) => true
  | _ => false

/-- The entry of the row that the pointer comes over. -/
def Turn.over? (s : Session) : Turn τ → Option Entry
  | .act (.hover index) => index.bind (s.visible[·]?)
  | _ => none

/-- A drag begins in this turn. -/
def Turn.Begins (s : Session) (turn : Turn τ) : Prop := ∃ names, turn.outcome s = .dragStarted names

/-- Something is dropped in this turn. -/
def Turn.Drops (s : Session) (turn : Turn τ) : Prop := ∃ drop, turn.outcome s = .dropped drop

/-- None of some turns does this to the session that it finds. -/
def Never (service : Service τ) (does : Session → Turn τ → Prop) : Crew τ → List (Turn τ) → Prop
  | _, [] => True
  | w, turn :: turns =>
    ¬ does w.state turn ∧ Never service does (turn.run service w).2 turns

theorem never_append (service : Service τ) (does : Session → Turn τ → Prop) (w : Crew τ)
    (before after : List (Turn τ)) :
    Never service does w (before ++ after) ↔
      Never service does w before ∧ Never service does (runTurns service w before) after := by
  induction before generalizing w with
  | nil => simp [Never]
  | cons turn before ih => simp [Never, ih, and_assoc]

/-! ## The hand of a session -/

/-- The same directory is shown, the gesture is at the same point, and the same drop waits. -/
structure SameHand (s s' : Session) : Prop where
  path : s'.path = s.path
  gesture : s'.gesture = s.gesture
  pendingDrop : s'.pendingDrop = s.pendingDrop

theorem SameHand.refl (s : Session) : SameHand s s := ⟨rfl, rfl, rfl⟩

theorem SameHand.trans {s₁ s₂ s₃ : Session} (h : SameHand s₁ s₂) (h' : SameHand s₂ s₃) :
    SameHand s₁ s₃ :=
  ⟨h'.path.trans h.path, h'.gesture.trans h.gesture, h'.pendingDrop.trans h.pendingDrop⟩

theorem SameScene.sameHand {s s' : Session} (h : SameScene s s') : SameHand s s' := by
  unfold SameScene at h
  rw [h]
  exact ⟨rfl, rfl, rfl⟩

/-- Changes that leave the hand of the session alone. -/
def handRules : Rules Session Standing := ⟨fun _ s s' _ => SameHand s s', fun _ => True⟩

/-- Whatever the commands on their way still do leaves the hand of the session alone. -/
def Steady (w : Crew τ) : Prop :=
  ∀ job ∈ w.jobs, ∃ k, ∀ s, job.rest.Heeds handRules (fun _ _ => True) k s

section
variable {w : Crew τ} (service : Service τ)

theorem steady_go (hw : Steady w) (number : Nat) :
    SameHand w.state (w.go service number).2.state ∧ Steady (w.go service number).2 :=
  Crowd.Heeding.go .refl (fun _ _ _ => .trans) (fun _ _ _ _ h => h) service
    (show w.Heeding handRules from hw) number

theorem steady_ask (hw : Steady w) (command : Command) :
    SameHand (accept command w.state).2 ((Turn.ask command).run service w).2.state ∧
      Steady ((Turn.ask command).run service w).2 := by
  obtain ⟨k, hk⟩ := heeds_scene_followUp (accept command w.state).1 (accept command w.state).2
  have hhand : (followUp (accept command w.state).1).Heeds handRules (fun _ _ => True) k
      (accept command w.state).2 :=
    hk.mono (fun _ _ _ _ h => h.sameHand) (fun _ _ => trivial) fun _ _ _ => trivial
  exact heeding_ask .refl (fun _ _ _ => .trans) (fun _ _ _ _ h => h) service hw command hhand

end

/-! ## What one turn can do -/

section
open Pointer (Drop DropTarget)
open Pointer.Gesture (drop?)

/-- What a turn can do to the directory that is shown, the gesture and the drop that waits. -/
inductive Turned (turn : Turn τ) (s s' : Session) : Prop where
  /-- A visit or a reset gives up all of it. -/
  | forgets (hgesture : s'.gesture.state = .idle) (hdrop : s'.pendingDrop = none)
  | stays (hsame : SameHand s s') (houtcome : turn.outcome s = .nothing)
      (hhover : turn.isHover = false) (hask : turn ≠ .ask .confirmMove)
  /-- The pointer is pressed, released or moved, and no drag goes on then. -/
  | rests (hpath : s'.path = s.path) (hdrop : s'.pendingDrop = s.pendingDrop)
      (hgesture : s'.gesture.isDragging = false) (hnot : ¬ turn.Drops s)
      (hask : turn ≠ .ask .confirmMove)
  /-- The waiting drop is confirmed or given up. -/
  | consents (hpath : s'.path = s.path) (hgesture : s'.gesture = s.gesture)
      (hdrop : s'.pendingDrop = none) (houtcome : turn.outcome s = .nothing)
      (hhover : turn.isHover = false)
  | begins (names : List String) (hpath : s'.path = s.path)
      (hdrop : s'.pendingDrop = s.pendingDrop) (houtcome : turn.outcome s = .dragStarted names)
      (hgesture : s'.gesture.state = .dragging names none) (hask : turn ≠ .ask .confirmMove)
  | hovers (names : List String) (target : Option DropTarget) (hpath : s'.path = s.path)
      (hdrop : s'.pendingDrop = s.pendingDrop) (houtcome : turn.outcome s = .nothing)
      (hbefore : s.gesture.state = .dragging names target)
      (hgesture : s'.gesture.state =
        .dragging names ((turn.over? s).bind DropTarget.ofEntry?))
      (hask : turn ≠ .ask .confirmMove)
  | drops (names : List String) (target : DropTarget) (drop : Drop)
      (hpath : s'.path = s.path) (hbefore : s.gesture.state = .dragging names (some target))
      (hdrops : drop? names target s.path = some drop)
      (houtcome : turn.outcome s = .dropped drop) (hgesture : s'.gesture.state = .idle)
      (hdrop : s'.pendingDrop = some drop)

end

section
variable (s : Session)

theorem sameHand_click (index : Nat) (modifiers : Pointer.Modifiers) :
    SameHand s (s.click index modifiers) := by
  unfold click
  split <;> exact ⟨rfl, rfl, rfl⟩

theorem turned_pointerDown (index : Nat) (point : Pointer.Point) (modifiers : Pointer.Modifiers) :
    Turned (.act (.pointerDown index point modifiers) : Turn τ) s
      (s.pointerDown index point modifiers) := by
  unfold pointerDown
  split
  · exact .stays (.refl s) rfl rfl (by simp)
  · next name _ =>
    by_cases hidle : s.gesture.state = .idle
    · refine .rests rfl rfl ?_ (by rintro ⟨_, ⟨⟩⟩) (by simp)
      simp [Pointer.Gesture.press, Pointer.Gesture.isDragging, hidle]
    · refine .stays ⟨rfl, ?_, rfl⟩ rfl rfl (by simp)
      exact Pointer.Gesture.press_of_ne_idle hidle _ _ _ _

theorem turned_pointerMove (point : Pointer.Point) :
    Turned (.act (.pointerMove point) : Turn τ) s (s.pointerMove point).2 := by
  have hout : (Turn.act (.pointerMove point) : Turn τ).outcome s =
      (s.gesture.move point s.selection).1 := rfl
  rcases s.gesture.move_cases point s.selection with hmove | ⟨names, hmove⟩
  · refine .stays ⟨rfl, congrArg Prod.snd hmove, rfl⟩ ?_ rfl (by simp)
    rw [hout, hmove]
  · refine .begins names rfl rfl ?_ ?_ (by simp)
    · rw [hout, hmove]
      rfl
    · exact congrArg (·.2.state) hmove

theorem turned_startDrag (index : Nat) :
    Turned (.act (.startDrag index) : Turn τ) s (s.startDrag index).2 := by
  cases hname : s.visibleNames[index]? with
  | none =>
    have hstart : s.startDrag index = (.nothing, s) := by simp only [startDrag, hname]
    rw [hstart]
    exact .stays (.refl s) (congrArg Prod.fst hstart) rfl (by simp)
  | some name =>
    have hstart : s.startDrag index =
        (.dragStarted (Pointer.Gesture.payload name s.selection),
          { s with gesture := (s.gesture.startDrag name s.selection).2 }) := by
      simp only [startDrag, hname]
      rfl
    rw [hstart]
    exact .begins _ rfl rfl (congrArg Prod.fst hstart) rfl (by simp)

theorem turned_hover (index : Option Nat) :
    Turned (.act (.hover index) : Turn τ) s (s.hover index) := by
  cases hstate : s.gesture.state with
  | dragging names target =>
    refine .hovers names target rfl rfl rfl hstate ?_ (by simp)
    simp [hover, Pointer.Gesture.hover, hstate, Turn.over?]
  | _ =>
    refine .rests rfl rfl ?_ (by rintro ⟨_, ⟨⟩⟩) (by simp)
    simp [hover, Pointer.Gesture.hover, Pointer.Gesture.isDragging, hstate]

theorem fst_pointerUp : s.pointerUp.1 = (s.gesture.release s.path).1 := by
  unfold pointerUp
  simp only
  split <;> rfl

theorem turned_pointerUp : Turned (.act .pointerUp : Turn τ) s s.pointerUp.2 := by
  have hout : (Turn.act .pointerUp : Turn τ).outcome s = (s.gesture.release s.path).1 :=
    s.fst_pointerUp
  by_cases hdropped : ∃ drop, (s.gesture.release s.path).1 = .dropped drop
  · obtain ⟨drop, hrelease⟩ := hdropped
    obtain ⟨names, target, hstate, hdrop⟩ := Pointer.Gesture.release_eq_dropped_iff.1 hrelease
    have hup : s.pointerUp.2 =
        { s with gesture := (s.gesture.release s.path).2, pendingDrop := some drop } := by
      simp only [pointerUp, hrelease]
    rw [hup]
    exact .drops names target drop rfl hstate hdrop (hout.trans hrelease) rfl rfl
  · have hup : SameHand { s with gesture := (s.gesture.release s.path).2 } s.pointerUp.2 := by
      unfold pointerUp
      simp only
      split
      · exact sameHand_click _ _ _
      · next drop hdrop => exact absurd ⟨drop, hdrop⟩ hdropped
      · exact .refl _
    have hdrops : ¬ ∃ drop, (Turn.act .pointerUp : Turn τ).outcome s = .dropped drop := by
      rintro ⟨drop, hdrop⟩
      exact hdropped ⟨drop, hout ▸ hdrop⟩
    refine .rests hup.path hup.pendingDrop ?_ hdrops (by simp)
    rw [hup.gesture]
    rfl

/-- **An event** does one of these things. -/
theorem turned_handle (event : Event) :
    Turned (.act event : Turn τ) s (s.handle event).2 := by
  have hstays : ∀ {event : Event}, SameHand s (s.handle event).2 →
      (Turn.act event : Turn τ).outcome s = .nothing →
      (Turn.act event : Turn τ).isHover = false →
      Turned (.act event : Turn τ) s (s.handle event).2 :=
    fun hsame hout hhover => .stays hsame hout hhover (by simp)
  cases event with
  | pointerDown index point modifiers => exact turned_pointerDown s index point modifiers
  | pointerMove point => exact turned_pointerMove s point
  | startDrag index => exact turned_startDrag s index
  | hover index => exact turned_hover s index
  | pointerUp => exact turned_pointerUp s
  | cancelDrag => exact .rests rfl rfl rfl (by rintro ⟨_, ⟨⟩⟩) (by simp)
  | reset => exact .forgets rfl rfl
  | cancelDrop =>
    simp only [handle, cancelDrop]
    split
    · exact .stays (.refl s) rfl rfl (by simp)
    · exact .consents rfl rfl rfl rfl rfl
  | click index modifiers => exact hstays (sameHand_click s index modifiers) rfl rfl
  | moveFocus delta =>
    refine hstays ?_ rfl rfl
    simp only [handle, moveFocus]
    split <;> exact ⟨rfl, rfl, rfl⟩
  | toggleFocused =>
    refine hstays ?_ rfl rfl
    simp only [handle, toggleFocused]
    repeat' split
    all_goals exact ⟨rfl, rfl, rfl⟩
  | contextSelect name =>
    refine hstays ?_ rfl rfl
    simp only [handle, contextSelect]
    split <;> exact ⟨rfl, rfl, rfl⟩
  | _ => exact hstays ⟨rfl, rfl, rfl⟩ rfl rfl

end

/-- **The check of a command** does one of these things, and the rest of its turn leaves the hand of
the session alone. -/
theorem turned_ask (command : Command) {s s' : Session} (h : SameHand (accept command s).2 s') :
    Turned (.ask command : Turn τ) s s' := by
  have hstays : SameHand s (accept command s).2 → command ≠ .confirmMove →
      Turned (.ask command : Turn τ) s s' :=
    fun hsame hne => .stays (hsame.trans h) rfl rfl fun heq => hne (Turn.ask.inj heq)
  have hruling := ruling_accept command s
  generalize accept command s = checked at h hstays hruling
  cases hruling with
  | refused _ _ hnone =>
    by_cases hconfirm : command = .confirmMove
    · subst hconfirm
      exact .consents h.path h.gesture (h.pendingDrop.trans (hnone rfl)) rfl rfl
    · exact hstays (.refl s) hconfirm
  | visit => exact .forgets (h.gesture ▸ rfl) (h.pendingDrop ▸ rfl)
  | dropRefused => exact .consents h.path h.gesture h.pendingDrop rfl rfl
  | drop => exact .consents h.path h.gesture h.pendingDrop rfl rfl
  | trash _ hcommand => exact hstays (.refl s) (by rcases hcommand with rfl | ⟨rfl, -⟩ <;> simp)
  | delete _ hcommand => exact hstays (.refl s) (by rcases hcommand with rfl | ⟨rfl, -⟩ <;> simp)
  | notRetried => exact hstays ⟨rfl, rfl, rfl⟩ (by simp)
  | retried => exact hstays ⟨rfl, rfl, rfl⟩ (by simp)
  | _ => exact hstays (.refl s) (by simp)

/-- **Every turn** does one of these things. -/
theorem turned (service : Service τ) {w : Crew τ} (hw : Steady w) (turn : Turn τ) :
    Turned turn w.state (turn.run service w).2.state ∧ Steady (turn.run service w).2 := by
  cases turn with
  | ask command =>
    obtain ⟨hsame, hsteady⟩ := steady_ask service hw command
    exact ⟨turned_ask command hsame, hsteady⟩
  | go number =>
    obtain ⟨hsame, hsteady⟩ := steady_go service hw number
    exact ⟨.stays hsame rfl rfl (by simp), hsteady⟩
  | act event => exact ⟨turned_handle w.state event, hw⟩
  | tick now => exact ⟨.stays ⟨rfl, rfl, rfl⟩ rfl rfl (by simp), hw⟩
  | outside change => exact ⟨.stays ⟨rfl, rfl, rfl⟩ rfl rfl (by simp), hw⟩

/-! ## Drags and drops -/

/-- The turns of a drag that ends with a drop, and those before it. -/
structure Haul (τ : Type) where
  before : List (Turn τ)
  /-- The drag begins. -/
  start : Turn τ
  toward : List (Turn τ)
  /-- The pointer comes over a row for the last time. -/
  last : Turn τ
  still : List (Turn τ)
  /-- The pointer is released. -/
  release : Turn τ

/-- The turns of a drag, without the release at its end. -/
def Haul.held (haul : Haul τ) : List (Turn τ) :=
  haul.before ++ haul.start :: (haul.toward ++ haul.last :: haul.still)

def Haul.turns (haul : Haul τ) : List (Turn τ) := haul.held ++ [haul.release]

section
variable (service : Service τ) (w : Crew τ)

/-- The drag takes these names along, comes over the row of this directory and over none after it,
and ends there; no other drag begins in between. -/
structure Haul.Carries (haul : Haul τ) (names : List String) (directory : Entry) : Prop where
  begins : haul.start.outcome (runTurns service w haul.before).state = .dragStarted names
  alone : Never service Turn.Begins (runTurns service w (haul.before ++ [haul.start]))
    (haul.toward ++ haul.last :: haul.still)
  comes : haul.last.over? (runTurns service w (haul.before ++ haul.start :: haul.toward)).state =
    some directory
  isDirectory : directory.isDirectory = true
  stays : ∀ turn ∈ haul.still, turn.isHover = false
  drops : haul.release.outcome (runTurns service w haul.held).state =
    .dropped ⟨names.eraseDups, directory.name, directory.path⟩

/-- A drag is going on after these turns: when it began, with which names, and over which directory
it has come last. -/
structure Dragged (turns : List (Turn τ)) (names : List String)
    (target : Option Pointer.DropTarget) (before : List (Turn τ)) (start : Turn τ)
    (during : List (Turn τ)) : Prop where
  split : turns = before ++ start :: during
  begins : start.outcome (runTurns service w before).state = .dragStarted names
  alone : Never service Turn.Begins (runTurns service w (before ++ [start])) during
  path : (runTurns service w turns).state.path = (runTurns service w before).state.path
  target_eq : ∀ t ∈ target, ∃ toward turn still directory, during = toward ++ turn :: still ∧
    turn.over? (runTurns service w (before ++ start :: toward)).state = some directory ∧
      Pointer.DropTarget.ofEntry? directory = some t ∧ ∀ other ∈ still, other.isHover = false

/-- A drop waits for consent after these turns: the drag that it ended, and what came after it. -/
structure Awaited (turns : List (Turn τ)) (drop : Pointer.Drop) (haul : Haul τ)
    (after : List (Turn τ)) (names : List String) (directory : Entry) : Prop where
  split : turns = haul.turns ++ after
  carries : haul.Carries service w names directory
  drop_eq : drop = ⟨names.eraseDups, directory.name, directory.path⟩
  path : (runTurns service w turns).state.path = (runTurns service w haul.before).state.path
  unconfirmed : .ask .confirmMove ∉ after
  latest : Never service Turn.Drops (runTurns service w haul.turns) after

/-- What is dragged after some turns, and the drop that waits, come from drags among them. -/
structure Traced (turns : List (Turn τ)) : Prop where
  steady : Steady (runTurns service w turns)
  dragged : ∀ names target,
    (runTurns service w turns).state.gesture.state = .dragging names target →
      ∃ before start during, Dragged service w turns names target before start during
  awaited : ∀ drop ∈ (runTurns service w turns).state.pendingDrop,
    ∃ haul after names directory, Awaited service w turns drop haul after names directory

end

section
variable {service : Service τ} {w : Crew τ} {turns : List (Turn τ)} {turn : Turn τ}

theorem runTurns_snoc (service : Service τ) (w : Crew τ) (turns : List (Turn τ)) (turn : Turn τ) :
    runTurns service w (turns ++ [turn]) = (turn.run service (runTurns service w turns)).2 :=
  runTurns_append service w turns [turn]

section
variable {names : List String} {target : Option Pointer.DropTarget} {before during : List (Turn τ)}
  {start : Turn τ} (h : Dragged service w turns names target before start during)
include h

theorem Dragged.alone_snoc (hturn : ¬ turn.Begins (runTurns service w turns).state) :
    Never service Turn.Begins (runTurns service w (before ++ [start])) (during ++ [turn]) := by
  refine (never_append service _ _ _ _).2 ⟨h.alone, ?_, trivial⟩
  rwa [← runTurns_append, List.append_assoc, List.singleton_append, ← h.split]

/-- A drag goes on in a turn that neither begins another nor comes over a row. -/
theorem Dragged.stays
    (hpath : (runTurns service w (turns ++ [turn])).state.path =
      (runTurns service w turns).state.path)
    (hbegins : ¬ turn.Begins (runTurns service w turns).state) (hhover : turn.isHover = false) :
    Dragged service w (turns ++ [turn]) names target before start (during ++ [turn]) := by
  refine ⟨by simp [h.split], h.begins, h.alone_snoc hbegins, hpath.trans h.path, fun t ht => ?_⟩
  obtain ⟨toward, last, still, directory, hduring, hover, htarget, hstill⟩ := h.target_eq t ht
  refine ⟨toward, last, still ++ [turn], directory, by simp [hduring], hover, htarget, ?_⟩
  intro other hother
  rcases List.mem_append.1 hother with hother | hother
  · exact hstill other hother
  · exact List.mem_singleton.1 hother ▸ hhover

theorem Dragged.hovers
    (hpath : (runTurns service w (turns ++ [turn])).state.path =
      (runTurns service w turns).state.path)
    (hbegins : ¬ turn.Begins (runTurns service w turns).state) :
    Dragged service w (turns ++ [turn]) names
      ((turn.over? (runTurns service w turns).state).bind Pointer.DropTarget.ofEntry?) before start
      (during ++ [turn]) := by
  refine ⟨by simp [h.split], h.begins, h.alone_snoc hbegins, hpath.trans h.path, fun t ht => ?_⟩
  obtain ⟨directory, hover, htarget⟩ := Option.bind_eq_some_iff.1 ht
  exact ⟨during, turn, [], directory, rfl, h.split ▸ hover, htarget, by simp⟩

theorem Dragged.drops {t : Pointer.DropTarget} {drop : Pointer.Drop} (ht : target = some t)
    (hdrop : Pointer.Gesture.drop? names t (runTurns service w turns).state.path = some drop)
    (hpath : (runTurns service w (turns ++ [turn])).state.path =
      (runTurns service w turns).state.path)
    (houtcome : turn.outcome (runTurns service w turns).state = .dropped drop) :
    ∃ haul directory, Awaited service w (turns ++ [turn]) drop haul [] names directory := by
  obtain ⟨toward, last, still, directory, hduring, hover, htarget, hstill⟩ := h.target_eq t ht
  obtain ⟨hdirectory, ht⟩ := Pointer.DropTarget.ofEntry?_eq_some_iff.1 htarget
  have hdrop := (Pointer.Gesture.drop?_eq_some_iff.1 hdrop).2.2
  subst ht
  refine ⟨⟨before, start, toward, last, still, turn⟩, directory, ?_⟩
  have hheld : turns = before ++ start :: (toward ++ last :: still) :=
    h.split.trans (by rw [hduring])
  refine ⟨by simp [Haul.turns, Haul.held, hheld], ?_, hdrop, hpath.trans h.path, by simp, trivial⟩
  refine ⟨h.begins, hduring ▸ h.alone, hover, hdirectory, hstill, ?_⟩
  rw [← hdrop, ← houtcome, hheld]
  rfl

end

/-- A drop goes on waiting in a turn that neither confirms it nor drops something else. -/
theorem Awaited.stays {drop : Pointer.Drop} {haul : Haul τ} {after : List (Turn τ)}
    {names : List String} {directory : Entry}
    (h : Awaited service w turns drop haul after names directory)
    (hpath : (runTurns service w (turns ++ [turn])).state.path =
      (runTurns service w turns).state.path)
    (hask : turn ≠ .ask .confirmMove) (hdrops : ¬ turn.Drops (runTurns service w turns).state) :
    Awaited service w (turns ++ [turn]) drop haul (after ++ [turn]) names directory := by
  refine ⟨by simp [h.split], h.carries, h.drop_eq, hpath.trans h.path, ?_, ?_⟩
  · simpa [h.unconfirmed] using hask.symm
  · refine (never_append service _ _ _ _).2 ⟨h.latest, ?_, trivial⟩
    rwa [← runTurns_append, ← h.split]

theorem not_begins_of_outcome {s : Session} {outcome : Pointer.GestureOutcome}
    (hout : turn.outcome s = outcome) (hne : ∀ names, outcome ≠ .dragStarted names) :
    ¬ turn.Begins s :=
  fun ⟨names, hbegins⟩ => hne names (hout ▸ hbegins)

theorem not_drops_of_outcome {s : Session} {outcome : Pointer.GestureOutcome}
    (hout : turn.outcome s = outcome) (hne : ∀ drop, outcome ≠ .dropped drop) : ¬ turn.Drops s :=
  fun ⟨drop, hdrops⟩ => hne drop (hout ▸ hdrops)

section
variable (h : Traced service w turns)
  (hturned : Turned turn (runTurns service w turns).state
    (runTurns service w (turns ++ [turn])).state)
include h hturned

/-- A drag after a turn has begun with it, or went on before and is still in the same directory. -/
theorem dragged_run {names : List String} {target : Option Pointer.DropTarget}
    (hstate : (runTurns service w (turns ++ [turn])).state.gesture.state =
      .dragging names target) :
    ∃ before start during, Dragged service w (turns ++ [turn]) names target before start during := by
  cases hturned with
  | forgets hgesture _ => rw [hgesture] at hstate; cases hstate
  | stays hsame houtcome hhover _ =>
    obtain ⟨before, start, during, hdragged⟩ := h.dragged names target (hsame.gesture ▸ hstate)
    exact ⟨_, _, _,
      hdragged.stays hsame.path (not_begins_of_outcome houtcome (by simp)) hhover⟩
  | rests _ _ hgesture _ _ => simp [Pointer.Gesture.isDragging, hstate] at hgesture
  | consents hpath hgesture _ houtcome hhover =>
    obtain ⟨before, start, during, hdragged⟩ := h.dragged names target (hgesture ▸ hstate)
    exact ⟨_, _, _, hdragged.stays hpath (not_begins_of_outcome houtcome (by simp)) hhover⟩
  | begins names' hpath _ houtcome hgesture _ =>
    rw [hgesture] at hstate
    cases hstate
    exact ⟨turns, turn, [], rfl, houtcome, trivial, hpath, by rintro _ ⟨⟩⟩
  | hovers names' target' hpath _ houtcome hbefore hgesture _ =>
    rw [hgesture] at hstate
    cases hstate
    obtain ⟨before, start, during, hdragged⟩ := h.dragged names target' hbefore
    exact ⟨_, _, _, hdragged.hovers hpath (not_begins_of_outcome houtcome (by simp))⟩
  | drops _ _ _ _ _ _ _ hgesture _ => rw [hgesture] at hstate; cases hstate

/-- A drop that waits after a turn has been made by it, or has waited before. -/
theorem awaited_run {drop : Pointer.Drop}
    (hdrop : drop ∈ (runTurns service w (turns ++ [turn])).state.pendingDrop) :
    ∃ haul after names directory,
      Awaited service w (turns ++ [turn]) drop haul after names directory := by
  have hgoes (hpath : (runTurns service w (turns ++ [turn])).state.path =
        (runTurns service w turns).state.path)
      (hsame : (runTurns service w (turns ++ [turn])).state.pendingDrop =
        (runTurns service w turns).state.pendingDrop)
      (hask : turn ≠ .ask .confirmMove) (hdrops : ¬ turn.Drops (runTurns service w turns).state) :
      ∃ haul after names directory,
        Awaited service w (turns ++ [turn]) drop haul after names directory := by
    obtain ⟨haul, after, names, directory, hawaited⟩ := h.awaited drop (hsame ▸ hdrop)
    exact ⟨haul, _, names, directory, hawaited.stays hpath hask hdrops⟩
  cases hturned with
  | forgets _ hnone => rw [hnone] at hdrop; cases hdrop
  | stays hsame houtcome _ hask =>
    exact hgoes hsame.path hsame.pendingDrop hask (not_drops_of_outcome houtcome (by simp))
  | rests hpath hsame _ hnot hask => exact hgoes hpath hsame hask hnot
  | consents _ _ hnone _ _ => rw [hnone] at hdrop; cases hdrop
  | begins _ hpath hsame houtcome _ hask =>
    exact hgoes hpath hsame hask (not_drops_of_outcome houtcome (by simp))
  | hovers _ _ hpath hsame houtcome _ _ hask =>
    exact hgoes hpath hsame hask (not_drops_of_outcome houtcome (by simp))
  | drops names target drop' hpath hbefore hdrops houtcome _ hnew =>
    rw [hnew] at hdrop
    cases hdrop
    obtain ⟨before, start, during, hdragged⟩ := h.dragged names _ hbefore
    obtain ⟨haul, directory, hawaited⟩ := hdragged.drops rfl hdrops hpath houtcome
    exact ⟨haul, [], names, directory, hawaited⟩

end

/-- **Each turn** keeps to what is traced. -/
theorem traced_run (h : Traced service w turns) (turn : Turn τ) :
    Traced service w (turns ++ [turn]) := by
  obtain ⟨hturned, hsteady⟩ := turned service h.steady turn
  rw [← runTurns_snoc] at hturned hsteady
  exact ⟨hsteady, fun _ _ => dragged_run h hturned, fun _ => awaited_run h hturned⟩

theorem traced_runTurns {s : Session} (t : τ) (hgesture : s.gesture.state = .idle)
    (hdrop : s.pendingDrop = none) (turns : List (Turn τ)) :
    Traced service (.of s t) turns := by
  induction turns using List.reverseRecOn with
  | nil =>
    refine ⟨by rintro _ ⟨⟩, fun names target hstate => ?_, fun drop hwaits => ?_⟩
    · exact absurd (hgesture.symm.trans hstate) (by simp)
    · exact absurd (hdrop.symm.trans hwaits) (by simp)
  | append_singleton turns turn ih => exact traced_run ih turn

end

/-! ## Confirmation -/

theorem state_resume (service : Service τ) (w : Crew τ) (job : Errand) :
    (w.resume service job).2.state = (job.rest.settle w.state).2 := by
  obtain ⟨rest, state, hsettle, ⟨a, -, hresume⟩ | ⟨-, hresume⟩⟩ := w.resume_cases service job <;>
    rw [hresume, hsettle]

theorem settle_perform_moveEntries (sources : List String) (destination : String)
    (f : TaskId → Program Session (Except SessionError Answer)) (s : Session) :
    ((perform (.moveEntries sources destination) >>= f).settle s).2 =
      (s.beginTask (.moveEntries sources destination)).2 := by
  have hwaits : ∀ (path : String) (policy : RetryPolicy) (attempt : UInt32) (n : Nat)
      (next : Except Remote.Failure Listing → Program Session (Except SessionError Answer))
      (s : Session), (((Remote.listFrom path policy attempt n).bind next).settle s).2 = s :=
    fun _ _ _ n _ _ => by cases n <;> rfl
  simp only [perform, work, workBatch, BatchKind.prepare, MovePlan.prepare, Remote.list, bind_assoc]
  exact hwaits _ _ _ _ _ _

/-- **A confirmation** starts no task, or one for the move of the drop that waited. -/
theorem ledger_confirmMove (service : Service τ) (w : Crew τ) :
    ((Turn.ask .confirmMove).run service w).2.state.ledger = w.state.ledger ∨
      ∃ drop ∈ w.state.pendingDrop, ∃ operation,
        operation = .moveEntries (drop.sources.map (Path.join w.state.path)) drop.targetPath ∧
        (accept .confirmMove w.state).1 = .ok (.perform operation) ∧
        ((Turn.ask .confirmMove).run service w).2.state.ledger =
          (w.state.ledger.start operation.description (some operation) w.state.clock).2 := by
  have hrun : ((Turn.ask .confirmMove).run service w).2.state =
      (Command.confirmMove.program.settle w.state).2 :=
    state_resume service { w with begun := w.begun + 1 } _
  rw [hrun, Command.program, Program.settle_modifyGet_bind]
  cases hdrop : w.state.pendingDrop with
  | none =>
    have haccept : accept .confirmMove w.state = (.error .noPendingMove, w.state) := by
      simp only [accept, hdrop]
    rw [haccept]
    exact .inl rfl
  | some drop =>
    have haccept : accept .confirmMove w.state =
        (w.state.dropRequest drop, { w.state with pendingDrop := none }) := by
      simp only [accept, hdrop]
    rw [haccept]
    cases hrequest : w.state.dropRequest drop with
    | error e => exact .inl rfl
    | ok request =>
      obtain ⟨_, -, hok⟩ := exists_of_bind_eq_ok hrequest
      cases hok
      refine .inr ⟨drop, rfl, _, rfl, rfl, ?_⟩
      exact congrArg Session.ledger (settle_perform_moveEntries _ _ _ _)

/-- **A confirmed drop moves what was dragged, from where it was dragged.** Whatever commands and
events there are, in whatever order their calls are answered: if a confirmation starts a task, then it
confirms the drop of a drag that came before it, is the first to do so since, and nothing was dropped
in between; the task moves the names that the drag took along, each once, out of the directory that
was shown when the drag began and is still shown, into the directory of the last row that the drag
came over. -/
theorem confirmed_move_of_haul (service : Service τ) (c : Config) (now : Instant) (t : τ)
    (turns : List (Turn τ)) :
    let w := Crew.of (start c now) t
    let s := (runTurns service w turns).state
    (runTurns service w (turns ++ [.ask .confirmMove])).state.ledger ≠ s.ledger →
      ∃ (haul : Haul τ) (after : List (Turn τ)) (names : List String) (directory : Entry)
          (operation : Operation),
        turns = haul.turns ++ after ∧ haul.Carries service w names directory ∧
        .ask .confirmMove ∉ after ∧ Never service Turn.Drops (runTurns service w haul.turns) after ∧
        s.path = (runTurns service w haul.before).state.path ∧
        operation = .moveEntries (names.eraseDups.map (Path.join s.path)) directory.path ∧
        (accept .confirmMove s).1 = .ok (.perform operation) ∧
        (runTurns service w (turns ++ [.ask .confirmMove])).state.ledger =
          (s.ledger.start operation.description (some operation) s.clock).2 := by
  intro w s hstarts
  rw [runTurns_snoc] at hstarts ⊢
  rcases ledger_confirmMove service (runTurns service w turns) with hsame | hmove
  · exact absurd hsame hstarts
  · obtain ⟨drop, hdrop, operation, hoperation, haccept, hledger⟩ := hmove
    have htraced : Traced service w turns := traced_runTurns t rfl rfl turns
    obtain ⟨haul, after, names, directory, h⟩ := htraced.awaited drop hdrop
    rw [h.drop_eq] at hoperation
    exact ⟨haul, after, names, directory, operation, h.split, h.carries, h.unconfirmed, h.latest,
      h.path, hoperation, haccept, hledger⟩

/-- A directory and a file beside it. -/
def deskStore : Store :=
  .ofCatalog (.ofEntries [.directory "/desk" default, .file "/note" 3 default]) default

/-- The file is dragged over the directory, which a search brings into view, and dropped there. -/
def noteDropped : List (Turn Store) :=
  [.ask (.navigate "/"), .go 0, .act (.setOptions { search := "note" }), .act (.startDrag 0),
    .act (.setOptions { search := "desk" }), .act (.hover (some 0)), .act .pointerUp]

/-- The session after some turns at the desk. -/
def atDesk (turns : List (Turn Store)) : Session :=
  (runTurns .ofStore (.of (start {} default) deskStore) turns).state

/-- The confirmation of the drop starts the task that moves the file into the directory. -/
theorem confirmed_move_noteDropped :
    (atDesk (noteDropped ++ [.ask .confirmMove])).ledger ≠ (atDesk noteDropped).ledger ∧
      ∃ (haul : Haul Store) (after : List (Turn Store)) (names : List String) (directory : Entry),
        noteDropped = haul.turns ++ after ∧
        haul.Carries .ofStore (.of (start {} default) deskStore) names directory ∧
        (accept .confirmMove (atDesk noteDropped)).1 = .ok (.perform (.moveEntries
          (names.eraseDups.map (Path.join (atDesk noteDropped).path)) directory.path)) := by
  have hstarts : (atDesk (noteDropped ++ [.ask .confirmMove])).ledger ≠
      (atDesk noteDropped).ledger := by decide +kernel
  obtain ⟨haul, after, names, directory, _, hsplit, hcarries, -, -, -, rfl, haccept, -⟩ :=
    confirmed_move_of_haul .ofStore {} default deskStore noteDropped hstarts
  exact ⟨hstarts, haul, after, names, directory, hsplit, hcarries, haccept⟩

end Session

end CloudDrive
