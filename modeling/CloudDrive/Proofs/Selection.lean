import CloudDrive.Proofs.Distinct
import CloudDrive.Selection
import Mathlib.Data.List.Infix
import Mathlib.Data.List.InsertIdx

/-!
# What becomes of a selection

A selection goes through any actions, with any names and indices and over visible sequences that
change from one action to the next. So the place that is remembered for the name toggled off last
may be out of date when it is used.

* `nodup_afterAll`: no name is selected twice.
* `names_toggle_of_mem`, `names_toggle_of_not_mem`: a name is taken out of its place, or put into
  one.
* `toggle_toggle`: toggling twice restores the order.
-/

namespace CloudDrive.Selection

/-! ## Ranges -/

/-- The entries between two indices, each of which counts as the last one if it is beyond the
end. -/
theorem mem_between {first second : Nat} {visible : List String} {name : String} :
    name ∈ between first second visible ↔ ∃ k,
      min (min first second) (visible.length - 1) ≤ k ∧
        k ≤ min (max first second) (visible.length - 1) ∧ visible[k]? = some name := by
  unfold between
  simp only [List.mem_iff_getElem?, List.getElem?_take, List.getElem?_drop]
  constructor
  · rintro ⟨n, hn⟩
    split at hn
    · exact ⟨_, by omega, by omega, hn⟩
    · cases hn
  · rintro ⟨k, hlow, hhigh, hk⟩
    refine ⟨k - min (min first second) (visible.length - 1), ?_⟩
    rw [if_pos (by omega), Nat.add_sub_cancel' hlow, hk]

theorem mem_foldl_insertNew {names added : List String} {name : String} :
    name ∈ added.foldl insertNew names ↔ name ∈ names ∨ name ∈ added := by
  induction added generalizing names with
  | nil => simp
  | cons first added ih =>
    rw [List.foldl_cons, ih, mem_insertNew, List.mem_cons, or_assoc]

theorem prefix_foldl_insertNew (names added : List String) :
    names <+: added.foldl insertNew names := by
  induction added generalizing names with
  | nil => exact List.prefix_refl names
  | cons first added ih =>
    refine List.IsPrefix.trans ?_ (ih _)
    unfold insertNew
    split
    · exact List.prefix_refl names
    · exact List.prefix_append _ _

theorem nodup_foldl_insertNew {names : List String} (h : names.Nodup) (added : List String) :
    (added.foldl insertNew names).Nodup := by
  induction added generalizing names with
  | nil => exact h
  | cons first added ih => exact ih (nodup_insertNew h first)

/-! ## Toggling -/

section
variable {s : Selection} {name : String} (index : Nat)

/-- A name that is selected is taken out of its place, which is remembered. -/
theorem names_toggle_of_mem (h : name ∈ s.names) :
    (s.toggle name index).names = s.names.erase name ∧
      (s.toggle name index).untoggled = some (name, s.names.idxOf name) := by
  have hc : s.contains name = true := List.contains_iff_mem.2 h
  unfold toggle dropIdleAnchor
  rw [if_pos hc]
  split <;> exact ⟨rfl, rfl⟩

theorem placeFor_le (s : Selection) (name : String) : s.placeFor name ≤ s.names.length := by
  unfold placeFor
  split
  · split
    · exact Nat.min_le_right _ _
    · exact Nat.le_refl _
  · exact Nat.le_refl _

theorem names_toggle_of_not_mem (h : name ∉ s.names) :
    (s.toggle name index).names = s.names.insertIdx (s.placeFor name) name := by
  have hc : ¬ s.contains name = true := fun hc => h (List.contains_iff_mem.1 hc)
  unfold toggle
  rw [if_neg hc]

theorem nodup_toggle (h : s.names.Nodup) : (s.toggle name index).names.Nodup := by
  by_cases hmem : name ∈ s.names
  · rw [(names_toggle_of_mem index hmem).1]
    exact h.erase name
  · rw [names_toggle_of_not_mem index hmem]
    refine (List.perm_insertIdx name s.names (placeFor_le s name)).nodup_iff.2 ?_
    exact List.nodup_cons.2 ⟨hmem, h⟩

theorem mem_toggle_self (h : s.names.Nodup) :
    name ∈ (s.toggle name index).names ↔ name ∉ s.names := by
  by_cases hmem : name ∈ s.names
  · rw [(names_toggle_of_mem index hmem).1]
    simp [h.not_mem_erase, hmem]
  · rw [names_toggle_of_not_mem index hmem, List.mem_insertIdx (placeFor_le s name)]
    simp [hmem]

end

theorem filter_insertIdx_ne (names : List String) (place : Nat) (name : String) :
    (names.insertIdx place name).filter (· != name) = names.filter (· != name) := by
  induction names generalizing place with
  | nil => cases place <;> simp
  | cons first names ih => cases place <;> simp [List.filter_cons, ih]

theorem filter_erase_ne (names : List String) (name : String) :
    (names.erase name).filter (· != name) = names.filter (· != name) := by
  induction names with
  | nil => rfl
  | cons first names ih =>
    by_cases hfirst : first = name
    · simp [hfirst]
    · rw [List.erase_cons_tail (by simpa using hfirst), List.filter_cons, List.filter_cons, ih]

/-- **A toggle** leaves the other names in their order. -/
theorem filter_names_toggle (s : Selection) (name : String) (index : Nat) :
    (s.toggle name index).names.filter (· != name) = s.names.filter (· != name) := by
  by_cases h : name ∈ s.names
  · rw [(names_toggle_of_mem index h).1, filter_erase_ne]
  · rw [names_toggle_of_not_mem index h, filter_insertIdx_ne]

theorem insertIdx_erase {names : List String} {name : String} (h : name ∈ names) :
    (names.erase name).insertIdx (names.idxOf name) name = names := by
  have hlt : names.idxOf name < names.length := List.idxOf_lt_length_iff.2 h
  rw [List.erase_eq_eraseIdx_of_idxOf rfl]
  calc (names.eraseIdx (names.idxOf name)).insertIdx (names.idxOf name) name
    _ = (names.eraseIdx (names.idxOf name)).insertIdx (names.idxOf name)
          names[names.idxOf name] := by rw [List.getElem_idxOf hlt]
    _ = names := List.insertIdx_eraseIdx_getElem hlt

theorem erase_insertIdx {names : List String} {name : String} (h : name ∉ names) (place : Nat) :
    (names.insertIdx place name).erase name = names := by
  induction names generalizing place with
  | nil => cases place <;> simp
  | cons first names ih =>
    obtain ⟨hfirst, hnames⟩ := not_or.1 (mt List.mem_cons.2 h)
    cases place with
    | zero => simp
    | succ place =>
      rw [List.insertIdx_succ_cons, List.erase_cons_tail (by simpa using Ne.symm hfirst), ih hnames]

/-- **Toggling twice** restores the order of a selection without repetitions, whatever place it
remembers. -/
theorem names_toggle_toggle {s : Selection} (h : s.names.Nodup) (name : String) (i j : Nat) :
    ((s.toggle name i).toggle name j).names = s.names := by
  by_cases hmem : name ∈ s.names
  · obtain ⟨hnames, hplace⟩ := names_toggle_of_mem i hmem
    have hgone : name ∉ (s.toggle name i).names := fun hc => (mem_toggle_self i h).1 hc hmem
    have hle : s.names.idxOf name ≤ (s.names.erase name).length := by
      have hlt : s.names.idxOf name < s.names.length := List.idxOf_lt_length_iff.2 hmem
      rw [List.length_erase_of_mem hmem]
      omega
    -- the place that is remembered is the one just left, so it is not beyond the end
    rw [names_toggle_of_not_mem j hgone, placeFor, hplace, hnames]
    simp only [if_true, Nat.min_eq_left hle]
    exact insertIdx_erase hmem
  · have hnew : name ∈ (s.toggle name i).names := (mem_toggle_self i h).2 hmem
    rw [(names_toggle_of_mem j hnew).1, names_toggle_of_not_mem i hmem]
    exact erase_insertIdx hmem _

/-! ## Any course of actions -/

/-- What can be done to a selection. -/
inductive Action where
  | selectOnly (name : String) (index : Nat)
  | toggle (name : String) (index : Nat)
  | selectRange (first second : Nat) (visible : List String)
  | extendTo (target : Nat) (visible : List String)
  | ensureSelected (name : String) (index : Nat)
  | selectAll (visible : List String)
  | clear
  | retainVisible (visible : List String)

/-- The selection once it is done. -/
def act (s : Selection) : Action → Selection
  | .selectOnly name index => s.selectOnly name index
  | .toggle name index => s.toggle name index
  | .selectRange first second visible => s.selectRange first second visible
  | .extendTo target visible => s.extendTo target visible
  | .ensureSelected name index => s.ensureSelected name index
  | .selectAll visible => s.selectAll visible
  | .clear => s.clear
  | .retainVisible visible => s.retainVisible visible

/-- What has become of the empty selection. -/
def afterAll (actions : List Action) : Selection := actions.foldl act empty

theorem nodup_act {s : Selection} (h : s.names.Nodup) (action : Action) :
    (s.act action).names.Nodup := by
  have honly (name : String) (index : Nat) : (s.selectOnly name index).names.Nodup :=
    List.nodup_singleton name
  cases action with
  | selectOnly name index => exact honly name index
  | toggle name index => exact nodup_toggle index h
  | selectRange first second visible => exact nodup_foldl_insertNew h _
  | extendTo target visible =>
    simp only [act, extendTo]
    split
    · exact nodup_foldl_insertNew h _
    · split
      · exact honly _ _
      · exact h
  | ensureSelected name index =>
    simp only [act, ensureSelected]
    split
    · exact h
    · next hnew =>
      have hnew : name ∉ s.names := fun hc => hnew (List.contains_iff_mem.2 hc)
      exact List.nodup_append.2 ⟨h, List.nodup_singleton name, by
        rintro a ha b hb rfl
        exact hnew (List.mem_singleton.1 hb ▸ ha)⟩
  | selectAll visible =>
    simp only [act, selectAll, names_dropIdleAnchor]
    exact nodup_eraseDups visible
  | clear => exact List.nodup_nil
  | retainVisible visible =>
    simp only [act, names_retainVisible]
    exact h.filter _

/-- **No name is selected twice.** -/
theorem nodup_afterAll (actions : List Action) : (afterAll actions).names.Nodup := by
  unfold afterAll
  generalize hs : empty = s
  have h : s.names.Nodup := hs ▸ List.nodup_nil
  clear hs
  induction actions generalizing s with
  | nil => exact h
  | cons action actions ih => exact ih (s.act action) (nodup_act h action)

/-- **Toggling twice restores the selection**, its order included, whatever was done to it before. A
single toggle turns the name around and leaves the others in their order. -/
theorem toggle_toggle (actions : List Action) (name : String) (i j : Nat) :
    let s := afterAll actions
    ((s.toggle name i).toggle name j).names = s.names ∧
      (name ∈ (s.toggle name i).names ↔ name ∉ s.names) ∧
      (s.toggle name i).names.filter (· != name) = s.names.filter (· != name) :=
  ⟨names_toggle_toggle (nodup_afterAll actions) name i j,
    mem_toggle_self i (nodup_afterAll actions), filter_names_toggle _ name i⟩

/-- The remembered place of `b` is kept while what stood before it is taken away. -/
example : (afterAll [.selectAll ["a", "b", "c"], .toggle "b" 1, .retainVisible ["c"],
    .toggle "b" 1]).names = ["c", "b"] := by decide

end CloudDrive.Selection
