import Mathlib.Data.List.Nodup

/-!
# First occurrences

What is left of a list once every repetition of what stands before is taken out.

* `sublist_eraseDupsBy`, `pairwise_eraseDupsBy`: the rest stands in its order, and nothing repeats.
* `eraseDupsBy_eq_self`: a list without repetitions stays as it is.
* `take_eraseDups_cons`: to keep the first entries of a list that grows in front, those kept before
  are enough.
-/

namespace CloudDrive

theorem sublist_eraseDupsBy {α : Type} (r : α → α → Bool) (l : List α) :
    (l.eraseDupsBy r).Sublist l := by
  match l with
  | [] => exact List.Sublist.refl _
  | a :: l =>
    rw [List.eraseDupsBy_cons]
    exact ((sublist_eraseDupsBy r _).trans List.filter_sublist).cons_cons a
termination_by l.length
decreasing_by exact Nat.lt_succ_of_le (List.length_filter_le _ _)

theorem pairwise_eraseDupsBy {α : Type} (r : α → α → Bool) (l : List α) :
    (l.eraseDupsBy r).Pairwise fun a b => r b a = false := by
  match l with
  | [] => exact .nil
  | a :: l =>
    rw [List.eraseDupsBy_cons, List.pairwise_cons]
    refine ⟨fun b hb => ?_, pairwise_eraseDupsBy r _⟩
    simpa using (List.mem_filter.1 ((sublist_eraseDupsBy r _).subset hb)).2
termination_by l.length
decreasing_by exact Nat.lt_succ_of_le (List.length_filter_le _ _)

theorem nodup_eraseDups (l : List String) : l.eraseDups.Nodup :=
  (pairwise_eraseDupsBy (· == ·) l).imp fun h hab => by simp [hab] at h

theorem eraseDupsBy_eq_self {α : Type} {r : α → α → Bool} {l : List α}
    (h : l.Pairwise fun a b => r b a = false) : l.eraseDupsBy r = l := by
  induction l with
  | nil => rfl
  | cons a l ih =>
    obtain ⟨ha, hl⟩ := List.pairwise_cons.1 h
    rw [List.eraseDupsBy_cons, List.filter_eq_self.2 fun b hb => by simp [ha b hb], ih hl]

/-! ## The first entries -/

theorem eraseDups_filter (p : String → Bool) (l : List String) :
    (l.filter p).eraseDups = l.eraseDups.filter p := by
  match l with
  | [] => rfl
  | a :: l =>
    have hrest := eraseDups_filter p (l.filter fun b => !b == a)
    rw [List.eraseDups_cons, List.filter_cons, List.filter_cons, ← hrest]
    split
    · rw [List.eraseDups_cons, List.filter_filter, List.filter_filter]
      simp only [Bool.and_comm]
    · next ha =>
      -- what passes differs from `a` anyway
      have hne : ∀ b ∈ l, (p b && !b == a) = p b := fun b _ => by
        by_cases hb : b = a
        · simp [hb, ha]
        · simp [hb]
      rw [List.filter_filter, List.filter_congr hne]
termination_by l.length
decreasing_by exact Nat.lt_succ_of_le (List.length_filter_le _ _)

/-- Of a list without repetitions, one entry more than are kept is enough to leave one out. -/
theorem take_filter_take {l : List String} (h : l.Nodup) (a : String) (n : Nat) :
    ((l.take (n + 1)).filter (· != a)).take n = (l.filter (· != a)).take n := by
  induction l generalizing n with
  | nil => rfl
  | cons b l ih =>
    obtain ⟨hb, hl⟩ := List.nodup_cons.1 h
    rw [List.take_succ_cons]
    by_cases hba : b = a
    · subst hba
      have hall : ∀ c ∈ l, (c != b) = true := fun c hc => by
        simpa using fun hcb : c = b => hb (hcb ▸ hc)
      rw [List.filter_cons_of_neg (by simp), List.filter_cons_of_neg (by simp),
        List.filter_eq_self.2 hall,
        List.filter_eq_self.2 fun c hc => hall c (List.mem_of_mem_take hc), List.take_take,
        Nat.min_self]
    · have hkeeps : (b != a) = true := by simpa using hba
      rw [List.filter_cons, List.filter_cons, if_pos hkeeps, if_pos hkeeps]
      cases n with
      | zero => rfl
      | succ n => rw [List.take_succ_cons, List.take_succ_cons, ih hl n]

/-- **The first entries** of a list that has grown in front, without repetitions, follow from the
first entries before: what was left out is never needed again. -/
theorem take_eraseDups_cons (a : String) (l : List String) (n : Nat) :
    (a :: l).eraseDups.take n = (a :: (l.eraseDups.take n).filter (· != a)).take n := by
  have hrest : (l.filter fun b => !b == a).eraseDups = l.eraseDups.filter (· != a) :=
    eraseDups_filter _ l
  rw [List.eraseDups_cons, hrest]
  cases n with
  | zero => rfl
  | succ n => rw [List.take_succ_cons, List.take_succ_cons, take_filter_take (nodup_eraseDups l)]

end CloudDrive
