import CloudDrive.Proofs.Selection

/-!
# Ranges of a selection

A range adds an interval of the visible sequence to the selection. Both of its indices count as the
last one if they are beyond the end, and the sequence may be empty or show a name twice.

* `between_eq_namesAt`: the names between two indices are those at the positions of the interval.
* `foldl_insertNew_eq`: the new ones among added names come after the old ones.
* `exists_overlap`: two intervals with one end in common share only what the first one ends with.
* `selectRange_unites`: a range is the union of the selection with an interval.
-/

namespace CloudDrive.Selection

/-! ## Intervals -/

/-- The visible names at the positions from `low` to `high`, both included, in their order. -/
def namesAt (low high : Nat) (visible : List String) : List String :=
  (visible.zipIdx.filter fun p => low ≤ p.2 ∧ p.2 ≤ high).map (·.1)

/-- What stands at the positions of an interval in a sequence whose positions count from `n`. -/
theorem map_filter_zipIdx (low high n : Nat) (visible : List String) :
    ((visible.zipIdx n).filter fun p => low ≤ p.2 ∧ p.2 ≤ high).map (·.1) =
      (visible.drop (low - n)).take (high + 1 - max low n) := by
  induction visible generalizing n with
  | nil => simp
  | cons name visible ih =>
    rw [List.zipIdx_cons, List.filter_cons]
    split
    · next hin =>
      obtain ⟨hlow, hhigh⟩ : low ≤ n ∧ n ≤ high := by simpa using hin
      have htake : high + 1 - max low n = high + 1 - max low (n + 1) + 1 := by omega
      rw [List.map_cons, ih, htake, Nat.sub_eq_zero_of_le hlow,
        Nat.sub_eq_zero_of_le (Nat.le_succ_of_le hlow)]
      rfl
    · next hout =>
      have hout : ¬ (low ≤ n ∧ n ≤ high) := by simpa using hout
      rw [ih]
      rcases Nat.lt_or_ge n low with hbefore | hafter
      · have hdrop : low - n = low - (n + 1) + 1 := by omega
        have hmax : max low n = max low (n + 1) := by omega
        rw [hdrop, hmax]
        rfl
      · -- the interval lies before the rest
        have hnone : high + 1 - max low n = 0 := by omega
        have hnone' : high + 1 - max low (n + 1) = 0 := by omega
        rw [hnone, hnone', List.take_zero, List.take_zero]

theorem between_eq_namesAt (first second : Nat) (visible : List String) :
    between first second visible =
      namesAt (min (min first second) (visible.length - 1))
        (min (max first second) (visible.length - 1)) visible := by
  unfold namesAt between
  rw [map_filter_zipIdx, Nat.sub_zero, Nat.max_zero]

theorem between_comm (first second : Nat) (visible : List String) :
    between first second visible = between second first visible := by
  unfold between
  rw [Nat.min_comm first, Nat.max_comm first]

theorem between_of_le {first second : Nat} (h : first ≤ second) (visible : List String) :
    between first second visible =
      (visible.drop (min first (visible.length - 1))).take
        (min second (visible.length - 1) + 1 - min first (visible.length - 1)) := by
  unfold between
  rw [Nat.min_eq_left h, Nat.max_eq_right h]

/-- **Two intervals with one end in common** make up the whole; what they share is what the first
one ends with. -/
theorem exists_overlap {i j k : Nat} (hij : i ≤ j) (hjk : j ≤ k) (visible : List String) :
    ∃ front shared rest, between i j visible = front ++ shared ∧
      between j k visible = shared ++ rest ∧ between i k visible = front ++ (shared ++ rest) := by
  rw [between_of_le hij, between_of_le hjk, between_of_le (hij.trans hjk)]
  generalize visible.length - 1 = last
  -- the three places: where the whole begins, what is shared, and where the whole ends
  obtain ⟨x, hx⟩ := Nat.exists_eq_add_of_le (show min i last ≤ min j last by omega)
  obtain ⟨y, hy⟩ := Nat.exists_eq_add_of_le (show min j last ≤ min k last by omega)
  have hfirst : min j last + 1 - min i last = x + 1 := by omega
  have hsecond : min k last + 1 - min j last = 1 + y := by omega
  have hwhole : min k last + 1 - min i last = x + (1 + y) := by omega
  have hdrop : (visible.drop (min i last)).drop x = visible.drop (min j last) := by
    rw [List.drop_drop, hx]
  rw [hfirst, hsecond, hwhole]
  refine ⟨(visible.drop (min i last)).take x, (visible.drop (min j last)).take 1,
    ((visible.drop (min j last)).drop 1).take y, ?_, List.take_add, ?_⟩
  · rw [List.take_add, hdrop]
  · rw [List.take_add, hdrop, List.take_add]

/-! ## Names that are added -/

/-- **The new ones** among added names come after the old ones, each where it is met first. -/
theorem foldl_insertNew_eq (names added : List String) :
    added.foldl insertNew names = names ++ (added.filter (· ∉ names)).eraseDups := by
  induction added generalizing names with
  | nil => simp
  | cons name added ih =>
    rw [List.foldl_cons, ih, List.filter_cons]
    by_cases hold : name ∈ names
    · simp [insertNew, hold]
    · have hfilter : (added.filter (· ∉ names)).filter (fun other => !other == name) =
          added.filter (· ∉ names ++ [name]) := by
        rw [List.filter_filter]
        exact List.filter_congr fun other _ => by
          simp [Bool.and_comm, beq_eq_decide]
      rw [if_pos (by simpa using hold), List.eraseDups_cons, hfilter]
      simp [insertNew, hold]

theorem foldl_insertNew_of_subset {names added : List String} (h : added ⊆ names) :
    added.foldl insertNew names = names := by
  have hnone : ∀ name ∈ added, ¬ decide (name ∉ names) = true := fun name hname => by
    simpa using h hname
  rw [foldl_insertNew_eq, List.filter_eq_nil_iff.2 hnone]
  exact List.append_nil names

/-! ## Ranges -/

section
variable (s : Selection) (first second : Nat) (visible : List String)

theorem selectRange_comm :
    s.selectRange first second visible = s.selectRange second first visible := by
  unfold selectRange
  rw [between_comm]

theorem selectRange_self :
    (s.selectRange first second visible).selectRange first second visible =
      s.selectRange first second visible := by
  unfold selectRange
  rw [foldl_insertNew_of_subset]
  exact fun name hname => mem_foldl_insertNew.2 (.inr hname)

end

/-- **Two ranges with one end in common** make up one range. -/
theorem selectRange_selectRange (s : Selection) {i j k : Nat} (hij : i ≤ j) (hjk : j ≤ k)
    (visible : List String) :
    (s.selectRange i j visible).selectRange j k visible = s.selectRange i k visible := by
  obtain ⟨front, shared, rest, hfirst, hsecond, hwhole⟩ := exists_overlap hij hjk visible
  have hknown : shared ⊆ shared.foldl insertNew (front.foldl insertNew s.names) :=
    fun name hname => mem_foldl_insertNew.2 (.inr hname)
  unfold selectRange
  simp only [hfirst, hsecond, hwhole, List.foldl_append]
  rw [foldl_insertNew_of_subset hknown]

/-- **A range is the union of the selection with an interval** of the visible sequence. Whatever is
selected and shown, and whatever the indices are: their order does not matter; the names that stand
in the interval and are not yet selected come after the old ones, in visible order, and nothing else
changes; a range repeated changes nothing, and two ranges with one end in common make up one. -/
theorem selectRange_unites (s : Selection) (visible : List String) (i j : Nat) :
    let last := visible.length - 1
    let interval := namesAt (min (min i j) last) (min (max i j) last) visible
    s.selectRange i j visible = s.selectRange j i visible ∧
      s.selectRange i j visible =
        { s with names := s.names ++ (interval.filter (· ∉ s.names)).eraseDups } ∧
      s.selectRange i j [] = s ∧
      (s.selectRange i j visible).selectRange i j visible = s.selectRange i j visible ∧
      ∀ k, i ≤ j → j ≤ k →
        (s.selectRange i j visible).selectRange j k visible = s.selectRange i k visible := by
  intro last interval
  refine ⟨selectRange_comm s i j visible, ?_, ?_, selectRange_self s i j visible,
    fun k hij hjk => selectRange_selectRange s hij hjk visible⟩
  · unfold selectRange
    rw [foldl_insertNew_eq, between_eq_namesAt]
  · simp [selectRange, between]

/-- The second range begins in the first one and ends beyond the last entry; `c` is selected before
and shown twice. -/
theorem selectRange_unites_overlapping :
    let s : Selection := { names := ["c", "z"], anchor := some 7 }
    let visible := ["a", "b", "c", "d", "c"]
    1 ≤ 2 ∧ 2 ≤ 9 ∧
      (s.selectRange 1 2 visible).selectRange 2 9 visible = s.selectRange 1 9 visible ∧
      s.selectRange 1 9 visible = { s with names := ["c", "z", "b", "d"] } := by
  refine ⟨by decide, by decide, ?_, by decide⟩
  exact (selectRange_unites _ _ 1 2).2.2.2.2 9 (by decide) (by decide)

end CloudDrive.Selection
