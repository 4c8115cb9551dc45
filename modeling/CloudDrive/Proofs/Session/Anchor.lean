import CloudDrive.Proofs.Selection
import CloudDrive.Proofs.Session.Clicks
import CloudDrive.Proofs.Session.Pruning

/-!
# Where a range begins

A plain click makes its index the anchor, and a shift-click adds the entries between the anchor and
its own index. The anchor stays the index that it was: when other entries come before the one that was
clicked, or it is sorted elsewhere, the range still begins at the old index. The anchor is given up
only if the selection is pruned while there is no such index.

* `anchor_retainVisible`: pruning keeps the anchor, or gives it up.
* `anchor_runTurns`: the anchor after turns in which nobody selects.
* `extends_shiftClick`, `names_shiftClick`: a shift-click with an anchor, and without one.
* `shift_click_extends`: a plain click, turns in which nobody selects, and a shift-click.
-/

namespace CloudDrive

namespace Selection

/-! ## Anchors -/

section
variable {s : Selection} {visible : List String} {name : String}

theorem mem_of_mem_retainVisible (h : name ∈ (s.retainVisible visible).names) : name ∈ s.names := by
  rw [names_retainVisible] at h
  exact (List.mem_filter.1 h).1

theorem anchor_retainVisible (h : name ∈ (s.retainVisible visible).names) :
    (s.retainVisible visible).anchor = s.anchor.filter (· < visible.length) := by
  rw [names_retainVisible] at h
  have hne : (s.names.filter visible.contains).isEmpty = false :=
    List.isEmpty_eq_false_iff_exists_mem.2 ⟨name, h⟩
  simp only [retainVisible, dropIdleAnchor, hne, Bool.false_eq_true, if_false]

end

end Selection

namespace Session

variable {τ : Type}

/-! ## While nobody selects -/

/-- The anchor is still this index, or it was given up when there was no such index. -/
def Anchors (service : Service τ) (w : Crew τ) (index : Nat) (turns : List (Turn τ)) : Prop :=
  (runTurns service w turns).state.selection.anchor = some index ∨
    (runTurns service w turns).state.selection.anchor = none ∧
      ∃ early, early <+: turns ∧ (runTurns service w early).state.visibleNames.length ≤ index

/-- **While nobody selects**, and something stays selected, the anchor can only be given up. The
induction is on the turns, the last one first. -/
theorem anchor_runTurns (service : Service τ) {w : Crew τ} (hw : w.Under pruning) {index : Nat}
    (hanchor : w.state.selection.anchor = some index) {turns : List (Turn τ)}
    (hturns : ∀ turn ∈ turns, turn.selects = false) {name : String}
    (hname : name ∈ (runTurns service w turns).state.selection.names) :
    Anchors service w index turns := by
  induction turns using List.reverseRecOn with
  | nil => exact .inl hanchor
  | append_singleton turns turn ih =>
    have hbefore := fun h => ih (fun other ho => hturns other (List.mem_append_left _ ho)) h
    have hpruned := prunes_run service ((kept_pruning service).under_runTurns hw turns)
      (hturns turn (by simp))
    have hgoes : ∀ {early}, early <+: turns → early <+: turns ++ [turn] :=
      fun h => h.trans (List.prefix_append _ _)
    rw [← runTurns_snoc] at hpruned
    unfold Anchors
    cases hpruned with
    | clears hnone => rw [hnone] at hname; cases hname
    | same hsame =>
      rw [hsame] at hname ⊢
      exact (hbefore hname).imp_right fun ⟨hnone, early, hearly, hfew⟩ =>
        ⟨hnone, early, hgoes hearly, hfew⟩
    | prunes hpruned =>
      rw [hpruned] at hname ⊢
      rw [Selection.anchor_retainVisible hname]
      rcases hbefore (Selection.mem_of_mem_retainVisible hname) with
        hsome | ⟨hnone, early, hearly, hfew⟩
      · rw [hsome]
        rcases Nat.lt_or_ge index
          (runTurns service w (turns ++ [turn])).state.visibleNames.length with hlt | hfew
        · exact .inl (by simpa using hlt)
        · exact .inr ⟨by simpa using hfew, _, List.prefix_refl _, hfew⟩
      · rw [hnone]
        exact .inr ⟨rfl, early, hgoes hearly, hfew⟩

/-! ## The shift-click -/

/-- The selection with the entries between two visible indices added, the first of which counts as the
last one if it is beyond the end; what was selected stays where it is. -/
def Extends (s s' : Session) (first last : Nat) : Prop :=
  s.selection.names <+: s'.selection.names ∧
    ∀ name, name ∈ s'.selection.names ↔ name ∈ s.selection.names ∨ ∃ k,
      min (min first (s.visibleNames.length - 1)) last ≤ k ∧
        k ≤ max (min first (s.visibleNames.length - 1)) last ∧ s.visibleNames[k]? = some name

section
variable {s : Session} {index : Nat} {name : String} (h : s.visibleNames[index]? = some name)
include h

theorem selection_click (modifiers : Pointer.Modifiers) :
    (s.click index modifiers).selection =
      if modifiers.shift then s.selection.extendTo index s.visibleNames
      else if modifiers.toggle then s.selection.toggle name index
      else s.selection.selectOnly name index := by
  simp only [click, h]

theorem click_of_visible : s.click index {} =
    { s with focused := some name, selection := { names := [name], anchor := some index } } := by
  simp only [click, h]
  rfl

/-- With an anchor, the entries between it and the index are added. -/
theorem extends_shiftClick {anchor : Nat} (hanchor : s.selection.anchor = some anchor) :
    Extends s (s.click index { shift := true }) anchor index := by
  have hlt := (List.getElem?_eq_some_iff.1 h).1
  unfold Extends
  rw [selection_click h]
  simp only [if_true, Selection.extendTo, hanchor, Selection.selectRange]
  refine ⟨Selection.prefix_foldl_insertNew _ _, fun other => ?_⟩
  rw [Selection.mem_foldl_insertNew, Selection.mem_between]
  have hlow : min (min anchor index) (s.visibleNames.length - 1) =
      min (min anchor (s.visibleNames.length - 1)) index := by omega
  have hhigh : min (max anchor index) (s.visibleNames.length - 1) =
      max (min anchor (s.visibleNames.length - 1)) index := by omega
  rw [hlow, hhigh]

theorem names_shiftClick (hanchor : s.selection.anchor = none) :
    (s.click index { shift := true }).selection.names = [name] := by
  rw [selection_click h]
  simp only [if_true, Selection.extendTo, hanchor, h, Selection.selectOnly]

end

/-- **A shift-click after a plain click.** Whatever commands and events there are in between, as long
as none of them selects anything and the entry that was clicked is selected at the end: the entries
between the index that was clicked and the one that is shift-clicked are added. Or the anchor has been
given up, because at some moment there was no such index any more, and only the entry that is
shift-clicked is selected. -/
theorem shift_click_extends (service : Service τ) (c : Config) (now : Instant) (t : τ)
    {before during : List (Turn τ)} {first last : Nat} {clicked target : String} :
    let w := Crew.of (start c now) t
    let click : Turn τ := .act (.click first {})
    let s := (runTurns service w (before ++ click :: during)).state
    let s' := (s.handle (.click last { shift := true })).2
    (runTurns service w before).state.visibleNames[first]? = some clicked →
    (∀ turn ∈ during, turn.selects = false) → clicked ∈ s.selection.names →
    s.visibleNames[last]? = some target →
      s.selection.anchor = some first ∧ Extends s s' first last ∨
      s.selection.anchor = none ∧ s'.selection.names = [target] ∧
        ∃ early, early <+: during ∧
          (runTurns service w (before ++ click :: early)).state.visibleNames.length ≤ first := by
  intro w click s s' hclicked hduring hselected htarget
  let clickedCrew := (click.run service (runTurns service w before)).2
  have hrun : ∀ turns, runTurns service w (before ++ click :: turns) =
      runTurns service clickedCrew turns := fun turns => by
    rw [runTurns_append, runTurns_cons]
  have hunder : clickedCrew.Under pruning :=
    (kept_pruning service).under_run
      ((kept_pruning service).under_runTurns (under_of trivial t) before) click
  have hanchor : clickedCrew.state.selection.anchor = some first :=
    congrArg Selection.anchor (selection_click hclicked {})
  have hselected : clicked ∈ (runTurns service clickedCrew during).state.selection.names := by
    rw [← hrun]
    exact hselected
  rcases anchor_runTurns service hunder hanchor hduring hselected with
    hsome | ⟨hnone, early, hearly, hfew⟩
  · rw [← hrun] at hsome
    exact .inl ⟨hsome, extends_shiftClick htarget hsome⟩
  · rw [← hrun] at hnone hfew
    exact .inr ⟨hnone, names_shiftClick htarget hnone, early, hearly, hfew⟩

/-- The second file, which a search shows alone, is clicked, and then the search is given up. -/
def clickedAlone : List (Turn Store) := [.act (.click 0 {}), .act (.setOptions {})]

/-- The session in which both files are shown, and the second one is selected. -/
def secondSelected : Session := atTwoFiles (secondShown ++ clickedAlone)

theorem atTwoFiles_clicked :
    atTwoFiles (secondShown ++ [.act (.click 0 {})]) =
      { atTwoFiles secondShown with
        focused := some "b", selection := { names := ["b"], anchor := some 0 } } :=
  click_of_visible getElem?_secondShown

theorem secondSelected_eq :
    secondSelected = (handle { atTwoFiles secondShown with
      focused := some "b", selection := { names := ["b"], anchor := some 0 } }
        (.setOptions {})).2 :=
  congrArg (fun s => (s.handle (.setOptions {})).2) atTwoFiles_clicked

theorem visibleNames_secondSelected : secondSelected.visibleNames = ["a", "b"] := by
  rw [secondSelected_eq]
  exact visibleNames_twoFiles (by decide) rfl (by decide)

theorem selection_secondSelected :
    secondSelected.selection = { names := ["b"], anchor := some 0 } := by
  have hpruned : secondSelected.selection =
      ({ names := ["b"], anchor := some 0 } : Selection).retainVisible
        secondSelected.visibleNames := by rw [secondSelected_eq]; rfl
  rw [hpruned, visibleNames_secondSelected]
  rfl

/-- The range begins where the file stood when it was clicked. -/
theorem shift_click_extends_secondSelected :
    (atTwoFiles secondShown).visibleNames[0]? = some "b" ∧
      "b" ∈ secondSelected.selection.names ∧ secondSelected.visibleNames[1]? = some "b" ∧
      Extends secondSelected (secondSelected.handle (.click 1 { shift := true })).2 0 1 := by
  have hselected : "b" ∈ secondSelected.selection.names := by
    rw [selection_secondSelected]
    decide
  have htarget : secondSelected.visibleNames[1]? = some "b" := by
    rw [visibleNames_secondSelected]
    rfl
  have hduring : ∀ turn ∈ [(.act (.setOptions {}) : Turn Store)], turn.selects = false := by
    decide
  refine ⟨getElem?_secondShown, hselected, htarget, ?_⟩
  rcases shift_click_extends .ofStore {} default twoFiles getElem?_secondShown hduring hselected
      htarget with ⟨-, hextends⟩ | ⟨hnone, -⟩
  · exact hextends
  · have hsome : secondSelected.selection.anchor = some 0 := by rw [selection_secondSelected]
    cases hsome.symm.trans hnone

/-- The file that was clicked stays visible and selected, and it is shift-clicked itself; still the
other file is selected with it, since it has come to the place of the anchor. -/
theorem shift_click_from_old_place :
    (atTwoFiles secondShown).visibleNames[0]? = some "b" ∧
      (∀ turns, turns <+: clickedAlone → turns ≠ [] →
        "b" ∈ (atTwoFiles (secondShown ++ turns)).visibleNames ∧
          "b" ∈ (atTwoFiles (secondShown ++ turns)).selection.names) ∧
      secondSelected.visibleNames[1]? = some "b" ∧ "a" ∉ secondSelected.selection.names ∧
      "a" ∈ (secondSelected.handle (.click 1 { shift := true })).2.selection.names := by
  have hsecond : "b" ∈ secondSelected.visibleNames ∧ "b" ∈ secondSelected.selection.names := by
    rw [visibleNames_secondSelected, selection_secondSelected]
    decide
  refine ⟨getElem?_secondShown, fun turns hturns hne => ?_, ?_, ?_, ?_⟩
  · have hcases : turns = [] ∨ turns = [.act (.click 0 {})] ∨ turns = clickedAlone := by
      simpa [clickedAlone] using (List.mem_inits turns clickedAlone).2 hturns
    rcases hcases with rfl | rfl | rfl
    · exact absurd rfl hne
    · rw [atTwoFiles_clicked]
      exact ⟨List.mem_of_getElem? getElem?_secondShown, List.mem_singleton_self "b"⟩
    · exact hsecond
  · rw [visibleNames_secondSelected]
    rfl
  · rw [selection_secondSelected]
    decide
  · have htarget : secondSelected.visibleNames[1]? = some "b" := by
      rw [visibleNames_secondSelected]
      rfl
    show "a" ∈ (secondSelected.click 1 { shift := true }).selection.names
    rw [selection_click htarget, selection_secondSelected, visibleNames_secondSelected]
    decide

end Session

end CloudDrive
