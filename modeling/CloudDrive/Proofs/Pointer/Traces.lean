import CloudDrive.Pointer.Gesture
import Mathlib.Data.List.Induction

/-!
# What a release comes to

The gesture remembers little of what the pointer did; here its state is tied to the events since it
was last idle. A release is a click or a drop exactly if those events say so.

* `stepped`: what one event can do to a gesture.
* `SinceIdle`: the events since the gesture was last idle; `exists_sinceIdle`.
* `presses_of_armed`, `armed_of_presses`: a gesture stays armed by its first press as long as no drag
  begins.
* `drags_of_dragging`, `dragging_of_drags`: what is dragged was fixed when the last drag began, and the
  target is the last row that the drag came over.
* `countP_outcomes_le`: no more clicks and drops than gestures.
* `release_iff`: all of it.
-/

namespace CloudDrive.Pointer

theorem DropTarget.ofEntry?_eq_some_iff {e : Entry} {target : DropTarget} :
    ofEntry? e = some target ↔ e.isDirectory = true ∧ target = ⟨e.name, e.path⟩ := by
  unfold ofEntry?
  split <;> simp [*, eq_comm]

/-- Is it a click or a drop? -/
def GestureOutcome.isResult : GestureOutcome → Bool
  | .click _ _ _ | .dropped _ => true
  | _ => false

namespace Gesture

/-! ## Events -/

/-- Something that the pointer does. -/
inductive Event where
  | press (name : String) (index : Nat) (origin : Point) (modifiers : Modifiers)
  /-- The pointer moves, while these names are selected. -/
  | move (point : Point) (selection : Selection)
  /-- The platform starts a drag, while these names are selected. -/
  | startDrag (name : String) (selection : Selection)
  | hover (entry : Option Entry)
  | release (directory : String)
  | cancel

def Event.isPress : Event → Bool
  | .press _ _ _ _ => true
  | _ => false

/-- Does the platform start a drag? -/
def Event.isStartDrag : Event → Bool
  | .startDrag _ _ => true
  | _ => false

def Event.isHover : Event → Bool
  | .hover _ => true
  | _ => false

/-- What an event comes to, and the gesture after it. -/
def step (g : Gesture) : Event → GestureOutcome × Gesture
  | .press name index origin modifiers => (.nothing, g.press name index origin modifiers)
  | .move point selection => g.move point selection
  | .startDrag name selection => g.startDrag name selection
  | .hover entry => (.nothing, g.hover entry)
  | .release directory => g.release directory
  | .cancel => (.nothing, g.cancel)

/-- The gesture after some events. -/
def run (g : Gesture) (events : List Event) : Gesture := events.foldl (fun g e => (g.step e).2) g

/-- What some events come to. -/
def outcomes : Gesture → List Event → List GestureOutcome
  | _, [] => []
  | g, e :: events => (g.step e).1 :: outcomes (g.step e).2 events

section
variable (g : Gesture)

@[simp] theorem run_nil : g.run [] = g := rfl

theorem run_append (before after : List Event) :
    g.run (before ++ after) = (g.run before).run after := List.foldl_append

theorem run_concat (events : List Event) (e : Event) :
    g.run (events ++ [e]) = ((g.run events).step e).2 := g.run_append events [e]

theorem threshold_step (e : Event) : (g.step e).2.threshold = g.threshold := by
  obtain ⟨threshold, state⟩ := g
  cases e with
  | move point selection =>
    cases state with
    | armed origin name index modifiers =>
      simp only [step, move]
      split <;> rfl
    | _ => rfl
  | _ => cases state <;> rfl

theorem threshold_run (events : List Event) : (g.run events).threshold = g.threshold := by
  induction events using List.reverseRecOn with
  | nil => rfl
  | append_singleton events e ih => rw [run_concat, threshold_step, ih]

end

/-! ## One event -/

/-- What an event can do to a gesture. -/
inductive Stepped (g : Gesture) (e : Event) : Prop where
  /-- It ends the gesture, or begins none. -/
  | rests (hafter : (g.step e).2.state = .idle) (hout : ∀ names, (g.step e).1 ≠ .dragStarted names)
  | arms (name : String) (index : Nat) (origin : Point) (modifiers : Modifiers)
      (hbefore : g.state = .idle) (he : e = .press name index origin modifiers)
      (hafter : (g.step e).2.state = .armed origin name index modifiers)
  /-- A press goes on; another one counts for nothing. -/
  | stays (name : String) (index : Nat) (origin : Point) (modifiers : Modifiers)
      (hbefore : g.state = .armed origin name index modifiers)
      (hafter : (g.step e).2.state = .armed origin name index modifiers)
      (hstart : e.isStartDrag = false)
      (hnear : ∀ point selection, e = .move point selection →
        origin.distanceTo point < g.threshold)
      (hout : (g.step e).1 = .nothing)
  /-- A drag begins: the platform starts it, or the pointer has travelled far from a press. -/
  | begins (names : List String) (hout : (g.step e).1 = .dragStarted names)
      (hafter : (g.step e).2.state = .dragging names none)
      (hwhy : e.isStartDrag = true ∨ ∃ origin name index modifiers point selection,
        g.state = .armed origin name index modifiers ∧ e = .move point selection ∧
          ¬ origin.distanceTo point < g.threshold)
  | drags (names : List String) (target : Option DropTarget)
      (hbefore : g.state = .dragging names target)
      (hafter : (g.step e).2.state = .dragging names target) (hhover : e.isHover = false)
      (hout : (g.step e).1 = .nothing)
  | hovers (names : List String) (target : Option DropTarget) (entry : Option Entry)
      (hbefore : g.state = .dragging names target) (he : e = .hover entry)
      (hafter : (g.step e).2.state = .dragging names (entry.bind DropTarget.ofEntry?))
      (hout : (g.step e).1 = .nothing)

theorem release_ne_dragStarted (g : Gesture) (directory : String) (names : List String) :
    (g.release directory).1 ≠ .dragStarted names := by
  unfold release
  simp only
  repeat' split
  all_goals exact nofun

/-- **Every event** does one of these things. -/
theorem stepped (g : Gesture) (e : Event) : Stepped g e := by
  obtain ⟨threshold, state⟩ := g
  cases e with
  | press name index origin modifiers =>
    cases state with
    | idle => exact .arms name index origin modifiers rfl rfl rfl
    | armed => exact .stays _ _ _ _ rfl rfl rfl nofun rfl
    | dragging => exact .drags _ _ rfl rfl rfl rfl
  | move point selection =>
    cases state with
    | idle => exact .rests rfl nofun
    | armed origin name index modifiers =>
      by_cases hnear : origin.distanceTo point < threshold
      · have hmove : step ⟨threshold, .armed origin name index modifiers⟩ (.move point selection) =
            (.nothing, ⟨threshold, .armed origin name index modifiers⟩) := if_pos hnear
        refine .stays name index origin modifiers rfl (by rw [hmove]) rfl ?_ (by rw [hmove])
        rintro _ _ ⟨⟩
        exact hnear
      · have hmove : step ⟨threshold, .armed origin name index modifiers⟩ (.move point selection) =
            beginDrag ⟨threshold, .armed origin name index modifiers⟩ (payload name selection) :=
          if_neg hnear
        exact .begins (payload name selection) (by rw [hmove]; rfl) (by rw [hmove]; rfl)
          (.inr ⟨_, _, _, _, _, _, rfl, rfl, hnear⟩)
    | dragging => exact .drags _ _ rfl rfl rfl rfl
  | startDrag name selection => exact .begins (payload name selection) rfl rfl (.inl rfl)
  | hover entry =>
    cases state with
    | idle => exact .rests rfl nofun
    | armed => exact .stays _ _ _ _ rfl rfl rfl nofun rfl
    | dragging => exact .hovers _ _ entry rfl rfl rfl rfl
  | release directory => exact .rests rfl fun names => release_ne_dragStarted _ directory names
  | cancel => exact .rests rfl nofun

theorem press_of_idle {g : Gesture} (h : g.state = .idle) (name : String) (index : Nat)
    (origin : Point) (modifiers : Modifiers) :
    g.press name index origin modifiers = { g with state := .armed origin name index modifiers } := by
  unfold press
  rw [h]

/-- An idle gesture stays idle, unless it is pressed or the platform starts a drag. -/
theorem state_step_of_idle {g : Gesture} {e : Event} (h : g.state = .idle)
    (hpress : e.isPress = false) (hstart : e.isStartDrag = false) : (g.step e).2.state = .idle := by
  cases stepped g e with
  | rests hafter => exact hafter
  | arms _ _ _ _ _ he _ => rw [he] at hpress; cases hpress
  | stays _ _ _ _ hbefore => rw [h] at hbefore; cases hbefore
  | begins _ _ _ hwhy =>
    rcases hwhy with hwhy | ⟨_, _, _, _, _, _, hbefore, -, -⟩
    · rw [hstart] at hwhy; cases hwhy
    · rw [h] at hbefore; cases hbefore
  | drags _ _ hbefore => rw [h] at hbefore; cases hbefore
  | hovers _ _ _ hbefore => rw [h] at hbefore; cases hbefore

/-- An armed gesture that goes on stays armed, unless a drag begins. -/
theorem state_step_of_armed {g : Gesture} {e : Event} {origin : Point} {name : String} {index : Nat}
    {modifiers : Modifiers} (h : g.state = .armed origin name index modifiers)
    (hgoes : (g.step e).2.state ≠ .idle) (hstart : e.isStartDrag = false)
    (hnear : ∀ point selection, e = .move point selection →
      origin.distanceTo point < g.threshold) :
    (g.step e).2.state = .armed origin name index modifiers := by
  cases stepped g e with
  | rests hafter => exact absurd hafter hgoes
  | arms _ _ _ _ hbefore => rw [h] at hbefore; cases hbefore
  | stays _ _ _ _ hbefore hafter =>
    rw [h] at hbefore
    cases hbefore
    exact hafter
  | begins _ _ _ hwhy =>
    rcases hwhy with hwhy | ⟨_, _, _, _, point, selection, hbefore, he, hfar⟩
    · rw [hstart] at hwhy; cases hwhy
    · rw [h] at hbefore
      cases hbefore
      exact absurd (hnear point selection he) hfar
  | drags _ _ hbefore => rw [h] at hbefore; cases hbefore
  | hovers _ _ _ hbefore => rw [h] at hbefore; cases hbefore

theorem state_of_dragStarted {g : Gesture} {e : Event} {names : List String}
    (h : (g.step e).1 = .dragStarted names) : (g.step e).2.state = .dragging names none := by
  cases stepped g e with
  | begins names' hout hafter =>
    rw [h] at hout
    cases hout
    exact hafter
  | rests _ hout => exact absurd h (hout names)
  | arms _ _ _ _ _ he => rw [he] at h; cases h
  | stays _ _ _ _ _ _ _ _ hout => rw [h] at hout; cases hout
  | drags _ _ _ _ _ hout => rw [h] at hout; cases hout
  | hovers _ _ _ _ _ _ hout => rw [h] at hout; cases hout

/-- A drag that goes on carries what it carried to where it was, unless it comes over a row or another
one begins. -/
theorem state_step_of_dragging {g : Gesture} {e : Event} {names : List String}
    {target : Option DropTarget} (h : g.state = .dragging names target)
    (hgoes : (g.step e).2.state ≠ .idle) (hhover : e.isHover = false)
    (hnone : ∀ names', (g.step e).1 ≠ .dragStarted names') :
    (g.step e).2.state = .dragging names target := by
  cases stepped g e with
  | rests hafter => exact absurd hafter hgoes
  | arms _ _ _ _ hbefore => rw [h] at hbefore; cases hbefore
  | stays _ _ _ _ hbefore => rw [h] at hbefore; cases hbefore
  | begins names' hout => exact absurd hout (hnone names')
  | drags _ _ hbefore hafter =>
    rw [h] at hbefore
    cases hbefore
    exact hafter
  | hovers _ _ _ _ he => rw [he] at hhover; cases hhover

theorem state_hover {g : Gesture} {names : List String} {target : Option DropTarget}
    (h : g.state = .dragging names target) (entry : Option Entry) :
    (g.hover entry).state = .dragging names (entry.bind DropTarget.ofEntry?) := by
  unfold hover
  rw [h]

/-! ## Since it was idle -/

/-- The gesture is idle, and not idle again after any of these events. -/
structure SinceIdle (g : Gesture) (during : List Event) : Prop where
  idle : g.state = .idle
  busy : ∀ early, early <+: during → early ≠ [] → (g.run early).state ≠ .idle

section
variable {g : Gesture} {during : List Event} {e : Event}

theorem SinceIdle.init (h : SinceIdle g (during ++ [e])) : SinceIdle g during :=
  ⟨h.idle, fun early hearly => h.busy early (hearly.trans (List.prefix_append _ _))⟩

theorem SinceIdle.step_ne_idle (h : SinceIdle g (during ++ [e])) :
    ((g.run during).step e).2.state ≠ .idle := by
  rw [← run_concat]
  exact h.busy _ (List.prefix_refl _) (by simp)

theorem SinceIdle.eq_nil (h : SinceIdle g during) (hidle : (g.run during).state = .idle) :
    during = [] := by
  by_contra hne
  exact h.busy during (List.prefix_refl _) hne hidle

/-- The first of the events is a press, or the platform starts a drag. -/
theorem SinceIdle.first (h : SinceIdle g (e :: during)) :
    e.isPress = true ∨ e.isStartDrag = true := by
  by_contra hne
  simp only [not_or, Bool.not_eq_true] at hne
  exact h.busy [e] (List.prefix_cons_inj e |>.2 List.nil_prefix) (by simp)
    (state_step_of_idle h.idle hne.1 hne.2)

theorem exists_sinceIdle (hg : g.state = .idle) (events : List Event) :
    ∃ before during, events = before ++ during ∧ SinceIdle (g.run before) during := by
  have hnow : ∀ events, (g.run events).state = .idle →
      ∃ before during, events = before ++ during ∧ SinceIdle (g.run before) during :=
    fun events hidle => ⟨events, [], (List.append_nil events).symm, hidle,
      fun early hearly hne => absurd (List.prefix_nil.1 hearly) hne⟩
  induction events using List.reverseRecOn with
  | nil => exact hnow [] hg
  | append_singleton events e ih =>
    by_cases hidle : (g.run (events ++ [e])).state = .idle
    · exact hnow _ hidle
    · obtain ⟨before, during, rfl, h⟩ := ih
      refine ⟨before, during ++ [e], List.append_assoc _ _ _, h.idle, fun early hearly hne => ?_⟩
      rcases List.prefix_concat_iff.1 hearly with rfl | hearly
      · rwa [← run_append, ← List.append_assoc]
      · exact h.busy early hearly hne

/-! ## Presses -/

/-- The first press among the events carries these data, the platform starts no drag, and the pointer
stays near where it was pressed. -/
def Presses (threshold : Float) (during : List Event) (origin : Point) (name : String) (index : Nat)
    (modifiers : Modifiers) : Prop :=
  ∃ early late, during = early ++ .press name index origin modifiers :: late ∧
    (∀ e ∈ early, e.isPress = false) ∧ (∀ e ∈ during, e.isStartDrag = false) ∧
    ∀ point selection, .move point selection ∈ late → origin.distanceTo point < threshold

variable {origin : Point} {name : String} {index : Nat} {modifiers : Modifiers}

/-- An armed gesture was armed by the first press. The induction is on the events, the last one
first. -/
theorem presses_of_armed (h : SinceIdle g during)
    (harmed : (g.run during).state = .armed origin name index modifiers) :
    Presses g.threshold during origin name index modifiers := by
  induction during using List.reverseRecOn with
  | nil => rw [run_nil, h.idle] at harmed; cases harmed
  | append_singleton during e ih =>
    rw [run_concat] at harmed
    cases stepped (g.run during) e with
    | rests hafter => rw [harmed] at hafter; cases hafter
    | arms name' index' origin' modifiers' hbefore he hafter =>
      rw [harmed] at hafter
      cases hafter
      rw [h.init.eq_nil hbefore, he]
      exact ⟨[], [], rfl, nofun, by simp [Event.isStartDrag], nofun⟩
    | stays name' index' origin' modifiers' hbefore hafter hstart hnear =>
      rw [harmed] at hafter
      cases hafter
      obtain ⟨early, late, rfl, hearly, hnone, hmoves⟩ := ih h.init hbefore
      refine ⟨early, late ++ [e], by simp, hearly, fun x hx => ?_, fun point selection hmem => ?_⟩
      · rcases List.mem_append.1 hx with hx | hx
        · exact hnone x hx
        · exact List.mem_singleton.1 hx ▸ hstart
      · rcases List.mem_append.1 hmem with hmem | hmem
        · exact hmoves point selection hmem
        · exact threshold_run g _ ▸ hnear point selection (List.mem_singleton.1 hmem).symm
    | begins _ _ hafter => rw [harmed] at hafter; cases hafter
    | drags _ _ _ hafter => rw [harmed] at hafter; cases hafter
    | hovers _ _ _ _ _ hafter => rw [harmed] at hafter; cases hafter

/-- Such a press has armed the gesture, and nothing has happened to it since. -/
theorem armed_of_presses (h : SinceIdle g during)
    (hpresses : Presses g.threshold during origin name index modifiers) :
    (g.run during).state = .armed origin name index modifiers := by
  obtain ⟨early, late, rfl, hearly, hnone, hmoves⟩ := hpresses
  obtain rfl : early = [] := by
    -- before the press nothing has begun
    cases early with
    | nil => rfl
    | cons e early =>
      rcases h.first with hpress | hstart
      · rw [hearly e List.mem_cons_self] at hpress; cases hpress
      · rw [hnone e List.mem_cons_self] at hstart; cases hstart
  rw [List.nil_append] at h hnone ⊢
  clear hearly
  induction late using List.reverseRecOn with
  | nil => exact congrArg (·.state) (press_of_idle h.idle name index origin modifiers)
  | append_singleton late e ih =>
    rw [← List.cons_append] at h hnone ⊢
    have harmed := ih (fun point selection hmem =>
      hmoves point selection (List.mem_append_left _ hmem)) h.init
      fun x hx => hnone x (List.mem_append_left _ hx)
    rw [run_concat]
    refine state_step_of_armed harmed h.step_ne_idle (hnone e (by simp)) ?_
    rintro point selection rfl
    rw [threshold_run]
    exact hmoves point selection (by simp)

end

/-! ## Drags -/

/-- The entry of the row that the pointer came over last. -/
def lastOver (events : List Event) : Option Entry :=
  events.foldl (fun last e => match e with | .hover entry => entry | _ => last) none

theorem lastOver_hover (events : List Event) (entry : Option Entry) :
    lastOver (events ++ [.hover entry]) = entry := by
  simp [lastOver]

theorem lastOver_concat (events : List Event) {e : Event} (h : e.isHover = false) :
    lastOver (events ++ [e]) = lastOver events := by
  cases e with
  | hover entry => cases h
  | _ => simp [lastOver]

theorem outcomes_concat (g : Gesture) (events : List Event) (e : Event) :
    outcomes g (events ++ [e]) = outcomes g events ++ [((g.run events).step e).1] := by
  induction events generalizing g with
  | nil => rfl
  | cons first events ih => exact congrArg ((g.step first).1 :: ·) (ih _)

section
variable {g : Gesture} {during : List Event}

/-- Among the events a drag of these names began, and none after it; later the pointer came over this
row last, or over none. -/
def Drags (g : Gesture) (during : List Event) (names : List String) (last : Option Entry) : Prop :=
  ∃ early start late, during = early ++ start :: late ∧
    ((g.run early).step start).1 = .dragStarted names ∧
    (∀ names', .dragStarted names' ∉ outcomes (g.run (early ++ [start])) late) ∧
    lastOver late = last

/-- What is dragged was fixed when the last drag began, and the target is the row that the pointer
came over last. The induction is on the events, the last one first. -/
theorem drags_of_dragging (h : SinceIdle g during) {names : List String}
    {target : Option DropTarget} (hdrag : (g.run during).state = .dragging names target) :
    ∃ last, Drags g during names last ∧ target = last.bind DropTarget.ofEntry? := by
  induction during using List.reverseRecOn generalizing target with
  | nil => rw [run_nil, h.idle] at hdrag; cases hdrag
  | append_singleton during e ih =>
    rw [run_concat] at hdrag
    have hgoes : ∀ {last last'}, Drags g during names last →
        ((g.run during).step e).1 = .nothing →
        (∀ late, lastOver late = last → lastOver (late ++ [e]) = last') →
        Drags g (during ++ [e]) names last' := by
      rintro last last' ⟨early, start, late, rfl, hstart, hnone, hlast⟩ hout hover
      refine ⟨early, start, late ++ [e], by simp, hstart, fun names' hmem => ?_, hover late hlast⟩
      rw [outcomes_concat, ← run_append] at hmem
      rcases List.mem_append.1 hmem with hmem | hmem
      · exact hnone names' hmem
      · rw [List.append_assoc, List.singleton_append, hout] at hmem
        cases List.mem_singleton.1 hmem
    cases stepped (g.run during) e with
    | rests hafter => rw [hdrag] at hafter; cases hafter
    | arms _ _ _ _ _ _ hafter => rw [hdrag] at hafter; cases hafter
    | stays _ _ _ _ _ hafter => rw [hdrag] at hafter; cases hafter
    | begins names' hout hafter =>
      rw [hdrag] at hafter
      cases hafter
      exact ⟨none, ⟨during, e, [], rfl, hout, nofun, rfl⟩, rfl⟩
    | drags names' target' hbefore hafter hhover hout =>
      rw [hdrag] at hafter
      cases hafter
      obtain ⟨last, hdrags, htarget⟩ := ih h.init hbefore
      exact ⟨last, hgoes hdrags hout fun late hlast => (lastOver_concat late hhover).trans hlast,
        htarget⟩
    | hovers names' target' entry hbefore he hafter hout =>
      rw [hdrag] at hafter
      cases hafter
      obtain ⟨last, hdrags, -⟩ := ih h.init hbefore
      exact ⟨entry, hgoes hdrags hout fun late _ => he ▸ lastOver_hover late entry, rfl⟩

/-- Such a drag is going on. The induction is on what came after its beginning, the last event
first. -/
theorem dragging_of_drags (h : SinceIdle g during) {names : List String} {last : Option Entry}
    (hdrags : Drags g during names last) :
    (g.run during).state = .dragging names (last.bind DropTarget.ofEntry?) := by
  obtain ⟨early, start, late, rfl, hstart, hnone, rfl⟩ := hdrags
  induction late using List.reverseRecOn with
  | nil =>
    rw [run_concat]
    exact state_of_dragStarted hstart
  | append_singleton late e ih =>
    rw [← List.cons_append, ← List.append_assoc] at h ⊢
    rw [outcomes_concat, ← run_append, List.append_assoc, List.singleton_append] at hnone
    have hdrag := ih h.init fun names' hmem => hnone names' (List.mem_append_left _ hmem)
    rw [run_concat]
    have hlater : ∀ names', ((g.run (early ++ start :: late)).step e).1 ≠ .dragStarted names' :=
      fun names' hbegins => hnone names' (by simp [hbegins])
    cases e with
    | hover entry =>
      rw [lastOver_hover]
      exact state_hover hdrag entry
    | _ =>
      rw [lastOver_concat late rfl]
      exact state_step_of_dragging hdrag h.step_ne_idle rfl hlater

end

/-! ## Releases -/

section
variable {g : Gesture} {directory : String}

theorem release_eq_click_iff {name : String} {index : Nat} {modifiers : Modifiers} :
    (g.release directory).1 = .click name index modifiers ↔
      ∃ origin, g.state = .armed origin name index modifiers := by
  obtain ⟨threshold, state⟩ := g
  rcases state with _ | ⟨origin, name', index', modifiers'⟩ | ⟨names, _ | target⟩
  · simp [release]
  · simp [release]
  · simp [release]
  · cases hdrop : drop? names target directory <;> simp [release, hdrop]

theorem release_eq_dropped_iff {drop : Drop} :
    (g.release directory).1 = .dropped drop ↔ ∃ names target,
      g.state = .dragging names (some target) ∧ drop? names target directory = some drop := by
  obtain ⟨threshold, state⟩ := g
  rcases state with _ | _ | ⟨names, _ | target⟩
  · simp [release]
  · simp [release]
  · simp [release]
  · cases hdrop : drop? names target directory <;> simp [release, hdrop]

theorem drop?_eq_some_iff {names : List String} {target : DropTarget} {drop : Drop} :
    drop? names target directory = some drop ↔ target.path ≠ directory ∧
      (∃ name ∈ names, name ≠ target.name) ∧
      drop = ⟨names.eraseDups, target.name, target.path⟩ := by
  by_cases hpath : target.path = directory
  · simp [drop?, hpath]
  · by_cases hall : names.all (· == target.name) = true
    · simp only [drop?, hall, if_true, ite_self, reduceCtorEq, false_iff]
      rintro ⟨-, ⟨name, hname, hne⟩, -⟩
      exact hne (by simpa using List.all_eq_true.1 hall name hname)
    · have hother : ∃ name ∈ names, name ≠ target.name := by simpa using hall
      simp [drop?, hpath, hall, hother, eq_comm]

end

/-! ## Counting -/

/-- A gesture that goes on can come to one click or drop. -/
def owed (g : Gesture) : Nat :=
  match g.state with
  | .idle => 0
  | _ => 1

theorem owed_le_one (g : Gesture) : g.owed ≤ 1 := by
  unfold owed
  split <;> omega

/-- How many of the events find the gesture idle and leave it busy. -/
def begun : Gesture → List Event → Nat
  | _, [] => 0
  | g, e :: events => (g.step e).2.owed - g.owed + begun (g.step e).2 events

theorem ends_of_isResult {g : Gesture} {e : Event} (h : (g.step e).1.isResult = true) :
    g.owed = 1 ∧ (g.step e).2.owed = 0 := by
  obtain ⟨threshold, state⟩ := g
  cases e with
  | release directory =>
    cases state with
    | idle => cases h
    | _ => exact ⟨rfl, rfl⟩
  | move point selection =>
    cases state with
    | armed origin name index modifiers =>
      simp only [step, move] at h
      split at h <;> cases h
    | _ => cases h
  | _ => cases h

/-- **Each gesture** comes to at most one click or drop: from any point on there are no more of them
than gestures that go on there or begin later. -/
theorem countP_outcomes_le (g : Gesture) (events : List Event) :
    (outcomes g events).countP (·.isResult) ≤ g.owed + begun g events := by
  induction events generalizing g with
  | nil => exact Nat.zero_le _
  | cons e events ih =>
    have hlater := ih (g.step e).2
    rw [outcomes, begun, List.countP_cons]
    split
    · next hresult =>
      obtain ⟨hbefore, hafter⟩ := ends_of_isResult hresult
      omega
    · omega

theorem begun_le (g : Gesture) (events : List Event) :
    begun g events ≤ events.countP fun e => e.isPress || e.isStartDrag := by
  induction events generalizing g with
  | nil => exact Nat.le_refl 0
  | cons e events ih =>
    have hlater := ih (g.step e).2
    rw [begun, List.countP_cons]
    split
    · have : (g.step e).2.owed ≤ 1 := owed_le_one _
      omega
    · next hnot =>
      have hfirst : (g.step e).2.owed - g.owed = 0 := by
        cases hbefore : g.state with
        | idle =>
          simp only [Bool.or_eq_true, not_or, Bool.not_eq_true] at hnot
          simp only [owed, state_step_of_idle hbefore hnot.1 hnot.2, Nat.zero_sub]
        | _ =>
          have : (g.step e).2.owed ≤ 1 := owed_le_one _
          simp only [owed, hbefore] at this ⊢
          omega
      omega

/-! ## All of it -/

section
variable {g : Gesture} (hg : g.state = .idle) {events : List Event} {directory : String}

include hg

theorem release_run_eq_click_iff {name : String} {index : Nat} {modifiers : Modifiers} :
    ((g.run events).release directory).1 = .click name index modifiers ↔
      ∃ before during origin, events = before ++ during ∧
        SinceIdle (g.run before) during ∧
        Presses g.threshold during origin name index modifiers := by
  rw [release_eq_click_iff]
  constructor
  · rintro ⟨origin, harmed⟩
    obtain ⟨before, during, rfl, h⟩ := exists_sinceIdle hg events
    rw [run_append] at harmed
    exact ⟨before, during, origin, rfl, h,
      threshold_run g before ▸ presses_of_armed h harmed⟩
  · rintro ⟨before, during, origin, rfl, h, hpresses⟩
    rw [run_append]
    exact ⟨origin, armed_of_presses h ((threshold_run g before).symm ▸ hpresses)⟩

theorem release_run_eq_dropped_iff {drop : Drop} :
    ((g.run events).release directory).1 = .dropped drop ↔
      ∃ before during names entry, events = before ++ during ∧
        SinceIdle (g.run before) during ∧
        Drags (g.run before) during names (some entry) ∧
        entry.isDirectory = true ∧ entry.path ≠ directory ∧
        (∃ name ∈ names, name ≠ entry.name) ∧
        drop = ⟨names.eraseDups, entry.name, entry.path⟩ := by
  rw [release_eq_dropped_iff]
  constructor
  · rintro ⟨names, target, hdrag, hdrop⟩
    obtain ⟨before, during, rfl, h⟩ := exists_sinceIdle hg events
    rw [run_append] at hdrag
    obtain ⟨last, hdrags, htarget⟩ := drags_of_dragging h hdrag
    obtain ⟨entry, rfl, hentry⟩ := Option.bind_eq_some_iff.1 htarget.symm
    obtain ⟨hdirectory, rfl⟩ := DropTarget.ofEntry?_eq_some_iff.1 hentry
    obtain ⟨hpath, hother, hdrop⟩ := drop?_eq_some_iff.1 hdrop
    exact ⟨before, during, names, entry, rfl, h, hdrags, hdirectory, hpath, hother, hdrop⟩
  · rintro ⟨before, during, names, entry, rfl, h, hdrags, hdirectory, hpath, hother, hdrop⟩
    refine ⟨names, ⟨entry.name, entry.path⟩, ?_, drop?_eq_some_iff.2 ⟨hpath, hother, hdrop⟩⟩
    rw [run_append, dragging_of_drags h hdrags, Option.bind_some,
      DropTarget.ofEntry?_eq_some_iff.2 ⟨hdirectory, rfl⟩]

end

/-- **What a release comes to**, whatever the pointer did before it. It is a click exactly if, since
the gesture was last idle, a press came before any other, the platform started no drag, and the
pointer stayed near; the click carries what that press did. It is a drop exactly if a drag was going
on since, came last over a directory that is not the one shown, and carries something else than that
directory; then what was dragged since the last drag began is dropped, each name once, on that
directory. The gesture is idle after it, as after it was given up, so it comes to one click or drop at
most. -/
theorem release_iff (threshold : Float) (events : List Event) (directory : String) :
    let start := idle threshold
    let g := start.run events
    (∀ name index modifiers, (g.release directory).1 = .click name index modifiers ↔
      ∃ before during origin, events = before ++ during ∧ SinceIdle (start.run before) during ∧
        Presses threshold during origin name index modifiers) ∧
    (∀ drop, (g.release directory).1 = .dropped drop ↔
      ∃ before during names entry, events = before ++ during ∧
        SinceIdle (start.run before) during ∧
        Drags (start.run before) during names (some entry) ∧
        entry.isDirectory = true ∧ entry.path ≠ directory ∧
        (∃ name ∈ names, name ≠ entry.name) ∧
        drop = ⟨names.eraseDups, entry.name, entry.path⟩) ∧
    (g.release directory).2.state = .idle ∧ g.cancel.state = .idle ∧
    ∀ after, (outcomes g after).countP (·.isResult) ≤ g.owed + begun g after ∧
      begun g after ≤ after.countP fun e => e.isPress || e.isStartDrag := by
  intro start g
  refine ⟨fun _ _ _ => release_run_eq_click_iff rfl, fun _ => release_run_eq_dropped_iff rfl, rfl, rfl,
    fun after => ⟨countP_outcomes_le g after, begun_le g after⟩⟩

end Gesture

end CloudDrive.Pointer
