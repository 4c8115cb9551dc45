import CloudDrive.Proofs.Selection

/-!
# Indices and the anchor of a selection

A selection goes through any actions. The names and indices that they give may fit no visible
sequence, and the place that is remembered for the name toggled off last may be out of date; still
no entry is looked for, taken out or put in where there is no place for it.

* `act?`: an action that fails where an index is out of bounds; `act?_eq_some`: none ever fails.
* `anchored_act`: without a selected name there is no anchor.
* `lt_of_anchor_retainVisible`: after pruning, the anchor is a visible index.
* `invariant_afterAll`: all of it for any course of actions.
-/

namespace CloudDrive.Selection

/-! ## Checked indices -/

section
variable {α : Type}

/-- The list without the entry at an index; there has to be one. -/
def removeAt? (l : List α) (index : Nat) : Option (List α) :=
  if index < l.length then some (l.eraseIdx index) else none

/-- The list with an entry put in at an index, which may be the end. -/
def insertAt? (l : List α) (index : Nat) (a : α) : Option (List α) :=
  if index ≤ l.length then some (l.insertIdx index a) else none

/-- The entries from one index to another, both included; there have to be entries at both, and the
second index may lie before the first by one at most. -/
def slice? (l : List α) (low high : Nat) : Option (List α) :=
  if low ≤ high + 1 ∧ high < l.length then some ((l.drop low).take (high + 1 - low)) else none

end

/-- A toggle with checked indices. -/
def toggle? (s : Selection) (name : String) (index : Nat) : Option Selection :=
  if s.contains name then do
    let place := s.names.idxOf name
    let names ← removeAt? s.names place
    return dropIdleAnchor { names, anchor := some index, untoggled := some (name, place) }
  else do
    let names ← insertAt? s.names (s.placeFor name) name
    return { names, anchor := some index, untoggled := none }

/-- A range with checked indices. Of an empty sequence nothing is looked up. -/
def selectRange? (s : Selection) (first second : Nat) (visible : List String) : Option Selection :=
  if visible.isEmpty then some s
  else do
    let last := visible.length - 1
    let added ← slice? visible (min (min first second) last) (min (max first second) last)
    return { s with names := added.foldl insertNew s.names }

/-- An action with checked indices. The others look up no entry by an index, or allow for there
being none. -/
def act? (s : Selection) : Action → Option Selection
  | .toggle name index => s.toggle? name index
  | .selectRange first second visible => s.selectRange? first second visible
  | .extendTo target visible =>
    match s.anchor with
    | some anchor => s.selectRange? anchor target visible
    | none => some (s.extendTo target visible)
  | action => some (s.act action)

section
variable (s : Selection)

theorem toggle?_eq_some (name : String) (index : Nat) :
    s.toggle? name index = some (s.toggle name index) := by
  unfold toggle? toggle
  split
  · next hc =>
    have hmem : name ∈ s.names := List.contains_iff_mem.1 hc
    have hlt : s.names.idxOf name < s.names.length := List.idxOf_lt_length_iff.2 hmem
    simp only [removeAt?, if_pos hlt, List.erase_eq_eraseIdx_of_idxOf rfl]
    rfl
  · simp only [insertAt?, if_pos (placeFor_le s name)]
    rfl

theorem selectRange?_eq_some (first second : Nat) (visible : List String) :
    s.selectRange? first second visible = some (s.selectRange first second visible) := by
  unfold selectRange?
  split
  · next hempty =>
    rw [List.isEmpty_iff.1 hempty]
    simp [selectRange, between]
  · next hne =>
    have hpos : 0 < visible.length := List.length_pos_iff.2 (by simpa using hne)
    have hbounds : min (min first second) (visible.length - 1) ≤
          min (max first second) (visible.length - 1) + 1 ∧
        min (max first second) (visible.length - 1) < visible.length := by omega
    simp only [slice?, if_pos hbounds]
    rfl

/-- **No index is out of bounds**, whatever is done. -/
theorem act?_eq_some (action : Action) : s.act? action = some (s.act action) := by
  cases action with
  | toggle name index => exact s.toggle?_eq_some name index
  | selectRange first second visible => exact s.selectRange?_eq_some first second visible
  | extendTo target visible =>
    cases hanchor : s.anchor with
    | some anchor =>
      simp only [act?, act, extendTo, hanchor]
      exact s.selectRange?_eq_some anchor target visible
    | none => simp only [act?, act, hanchor]
  | _ => rfl

end

theorem foldlM_act? (s : Selection) (actions : List Action) :
    actions.foldlM act? s = some (actions.foldl act s) := by
  induction actions generalizing s with
  | nil => rfl
  | cons action actions ih =>
    rw [List.foldlM_cons, act?_eq_some]
    exact ih (s.act action)

/-! ## The anchor -/

/-- Without a selected name there is no anchor. -/
def Anchored (s : Selection) : Prop := s.names = [] → s.anchor = none

theorem anchored_of_mem {s : Selection} {name : String} (h : name ∈ s.names) : s.Anchored :=
  fun hnil => absurd (hnil ▸ h) List.not_mem_nil

theorem anchored_dropIdleAnchor (s : Selection) : s.dropIdleAnchor.Anchored := by
  intro hnil
  rw [names_dropIdleAnchor] at hnil
  unfold dropIdleAnchor
  rw [hnil]
  rfl

section
variable {s : Selection} (h : s.Anchored)
include h

theorem Anchored.selectRange (first second : Nat) (visible : List String) :
    (s.selectRange first second visible).Anchored := by
  intro hnil
  have hnames := prefix_foldl_insertNew s.names (between first second visible)
  rw [show (between first second visible).foldl insertNew s.names = [] from hnil] at hnames
  exact h (List.prefix_nil.1 hnames)

theorem anchored_act (action : Action) : (s.act action).Anchored := by
  have honly (name : String) (index : Nat) : (s.selectOnly name index).Anchored :=
    anchored_of_mem (List.mem_singleton_self name)
  cases action with
  | selectOnly name index => exact honly name index
  | toggle name index =>
    simp only [act, toggle]
    split
    · exact anchored_dropIdleAnchor _
    · exact anchored_of_mem ((List.mem_insertIdx (placeFor_le s name)).2 (.inl rfl))
  | selectRange first second visible => exact h.selectRange first second visible
  | extendTo target visible =>
    simp only [act, extendTo]
    split
    · exact h.selectRange _ _ _
    · split
      · exact honly _ _
      · exact h
  | ensureSelected name index =>
    simp only [act, ensureSelected]
    split
    · exact h
    · exact anchored_of_mem (List.mem_append_right _ (List.mem_singleton_self name))
  | selectAll visible => exact anchored_dropIdleAnchor _
  | clear => exact fun _ => rfl
  | retainVisible visible => exact anchored_dropIdleAnchor _

end

theorem anchored_foldl_act {s : Selection} (h : s.Anchored) (actions : List Action) :
    (actions.foldl act s).Anchored := by
  induction actions generalizing s with
  | nil => exact h
  | cons action actions ih => exact ih (anchored_act h action)

/-- After pruning, an anchor is the index of a visible entry. -/
theorem lt_of_anchor_retainVisible {s : Selection} {visible : List String} {index : Nat}
    (h : (s.retainVisible visible).anchor = some index) : index < visible.length := by
  unfold retainVisible dropIdleAnchor at h
  split at h
  · cases h
  · simpa using (Option.filter_eq_some_iff.1 h).2

/-! ## Any course of actions -/

/-- **What holds of a selection after any actions**, with any names and indices and over any visible
sequences. No name is selected twice; there is no anchor without a selected name; pruning keeps
exactly the visible names, in their order, and an anchor only if it is a visible index; and the same
actions with checked indices never fail. -/
theorem invariant_afterAll (actions : List Action) :
    let s := afterAll actions
    s.names.Nodup ∧ (s.names = [] → s.anchor = none) ∧
      (∀ visible, (s.retainVisible visible).names = s.names.filter visible.contains ∧
        (∀ name ∈ (s.retainVisible visible).names, name ∈ visible) ∧
        ∀ index, (s.retainVisible visible).anchor = some index → index < visible.length) ∧
      actions.foldlM act? empty = some s := by
  intro s
  refine ⟨nodup_afterAll actions, anchored_foldl_act (fun _ => rfl) actions, fun visible => ?_,
    foldlM_act? empty actions⟩
  refine ⟨names_retainVisible s visible, fun name hname => ?_,
    fun index => lt_of_anchor_retainVisible⟩
  rw [names_retainVisible] at hname
  exact List.contains_iff_mem.1 (List.mem_filter.1 hname).2

/-- The place of `b` is out of date when it is toggled on again, and a range ends beyond the last
entry. Pruning keeps the anchor as long as there are two entries, and gives it up with the last
name. -/
theorem invariant_afterAll_prunedAway :
    let actions : List Action := [.selectAll ["a", "b", "c"], .toggle "b" 1,
      .retainVisible ["c", "d"], .toggle "b" 1, .selectRange 8 0 ["c", "d"]]
    let pruned := actions ++ [.retainVisible ["x"]]
    ((afterAll actions).names = ["c", "b", "d"] ∧
        actions.foldlM act? empty = some (afterAll actions)) ∧
      (((afterAll actions).retainVisible ["d", "b"]).anchor = some 1 ∧ 1 < ["d", "b"].length) ∧
      (afterAll pruned).names = [] ∧ (afterAll pruned).anchor = none := by
  intro actions pruned
  obtain ⟨-, -, hpruning, hchecked⟩ := invariant_afterAll actions
  have hkept : ((afterAll actions).retainVisible ["d", "b"]).anchor = some 1 := by decide
  have hnone : (afterAll pruned).names = [] := by decide
  exact ⟨⟨by decide, hchecked⟩, ⟨hkept, (hpruning ["d", "b"]).2.2 1 hkept⟩, hnone,
    (invariant_afterAll pruned).2.1 hnone⟩

end CloudDrive.Selection
