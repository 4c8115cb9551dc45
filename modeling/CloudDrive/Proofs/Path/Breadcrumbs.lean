import CloudDrive.Proofs.Path.Canonical
import Mathlib.Data.List.Chain

/-!
# Breadcrumbs

The steps from the root to a directory are built by writing one component after another behind a
text that grows. `parent`, `name` and `isWithin` take the texts apart again, and agree at every
step.

* `breadcrumbs_join`: the steps to an entry are those to its directory, and one more.
* `mem_breadcrumbs_iff`: the steps are what lies on the way, each under its own name.
* `isChain_breadcrumbs`: each step starts where the one before has led.
* `breadcrumbs_descend`: the way as a whole.
-/

namespace CloudDrive.Path

/-! ## Building the steps -/

/-- The last of the steps from any `base`: its path spells all components behind that. -/
theorem crumbsFrom_concat (base : String) (ns : List String) (n : String) :
    crumbsFrom base ((ns ++ [n]).map String.toList) =
      crumbsFrom base (ns.map String.toList) ++
        [⟨n, base ++ String.ofList (spell (ns ++ [n]))⟩] := by
  -- the text written so far grows with every step, so the induction is for all of them
  induction ns generalizing base with
  | nil =>
    have hlast : base ++ "/" ++ n = base ++ String.ofList (spell [n]) :=
      String.toList_injective (by simp [spell])
    simp [crumbsFrom, hlast]
  | cons m ns ih =>
    have hlast : base ++ "/" ++ m ++ String.ofList (spell (ns ++ [n])) =
        base ++ String.ofList (spell (m :: ns ++ [n])) :=
      String.toList_injective (by simp [spell])
    have hrest := ih (base ++ "/" ++ m)
    rw [hlast] at hrest
    simpa [crumbsFrom] using hrest

theorem breadcrumbs_eq (p : String) :
    breadcrumbs p = crumbsFrom "" ((parts p).map String.toList) := by
  simp [breadcrumbs, parts, Function.comp_def]

@[simp] theorem breadcrumbs_root : breadcrumbs root = [] := by decide

/-- **One more step.** The steps to an entry are those to its directory and then the entry. -/
theorem breadcrumbs_join {d n : String} (hd : Canonical d) (hn : IsComponent n) :
    breadcrumbs (join d n) = breadcrumbs d ++ [⟨n, join d n⟩] := by
  have hpath : "" ++ String.ofList (spell (parts d ++ [n])) = join d n := by
    rw [← (canonical_join hd hn).ofComponents_parts, parts_join hd hn]
    simp [ofComponents]
  rw [breadcrumbs_eq, parts_join hd hn, crumbsFrom_concat, ← breadcrumbs_eq, hpath]

/-! ## The way down -/

section
variable {p : String} (hp : Canonical p)
include hp

/-- **What lies on the way** are the directories that hold the path and the path itself, but not the
root, each under its own name. -/
theorem mem_breadcrumbs_iff {c : Crumb} :
    c ∈ breadcrumbs p ↔
      (Canonical c.path ∧ c.path ≠ root) ∧ c.name = name c.path ∧ isWithin p c.path = true := by
  refine Canonical.induct (motive := fun p => c ∈ breadcrumbs p ↔
    (Canonical c.path ∧ c.path ≠ root) ∧ c.name = name c.path ∧ isWithin p c.path = true)
    ?_ (fun d n hd hn ih => ?_) hp
  · rw [breadcrumbs_root]
    exact iff_of_false List.not_mem_nil fun ⟨⟨hc, hne⟩, _, hw⟩ => hne (hc.eq_root hw)
  · rw [breadcrumbs_join hd hn, List.mem_append, List.mem_singleton, ih]
    constructor
    · rintro (⟨hc, hname, hw⟩ | rfl)
      · exact ⟨hc, hname, (isWithin_join hd hn hc.1).2 (.inr hw)⟩
      · exact ⟨⟨canonical_join hd hn, join_ne_root hd hn⟩, (name_join hd hn).symm,
          isWithin_refl (canonical_join hd hn)⟩
    · rintro ⟨hc, hname, hw⟩
      rcases (isWithin_join hd hn hc.1).1 hw with hself | hw
      · refine .inr ?_
        obtain ⟨m, q⟩ := c
        obtain rfl : join d n = q := hself
        rw [name_join hd hn] at hname
        exact congrArg (Crumb.mk · _) hname
      · exact .inl ⟨hc, hname, hw⟩

/-- The way ends at the path, and so does the empty way to the root. -/
theorem getLast?_cons_breadcrumbs : (root :: (breadcrumbs p).map (·.path)).getLast? = some p := by
  by_cases hne : p = root
  · rw [hne, breadcrumbs_root]
    rfl
  · obtain ⟨d, n, hd, hn, rfl⟩ := hp.eq_join hne
    rw [breadcrumbs_join hd hn, List.map_append, ← List.cons_append]
    exact List.getLast?_concat

/-- **Each step starts** where the one before has led, the first one at the root. -/
theorem isChain_breadcrumbs :
    (root :: (breadcrumbs p).map (·.path)).IsChain fun above below => parent below = above := by
  refine Canonical.induct (motive := fun p => (root :: (breadcrumbs p).map (·.path)).IsChain
    fun above below => parent below = above) ?_ (fun d n hd hn ih => ?_) hp
  · rw [breadcrumbs_root]
    exact List.isChain_singleton root
  · rw [breadcrumbs_join hd hn, List.map_append, ← List.cons_append]
    refine ih.append (List.isChain_singleton _) fun above habove below hbelow => ?_
    rw [getLast?_cons_breadcrumbs hd, Option.mem_some_iff] at habove
    obtain rfl : join d n = below := by simpa using hbelow
    rw [parent_join hd hn, habove]

end

/-- **The breadcrumbs of a path lead down to it.** Of any path but the root there are steps: the
first starts at the root, each later one where the one before has led, and the last leads to the
path itself. The steps are exactly what holds the path, itself included and the root left out, and
each has the last component as its name. -/
theorem breadcrumbs_descend {p : String} (hp : Canonical p) (hne : p ≠ root) :
    breadcrumbs p ≠ [] ∧
      (∀ first ∈ (breadcrumbs p).head?, parent first.path = root) ∧
      (breadcrumbs p).IsChain (fun above below => parent below.path = above.path) ∧
      (∀ c, c ∈ breadcrumbs p ↔
        (Canonical c.path ∧ c.path ≠ root) ∧ c.name = name c.path ∧ isWithin p c.path = true) ∧
      (breadcrumbs p).getLast? = some ⟨name p, p⟩ := by
  have hchain := isChain_breadcrumbs hp
  have hlast : (breadcrumbs p).getLast? = some ⟨name p, p⟩ := by
    obtain ⟨d, n, hd, hn, rfl⟩ := hp.eq_join hne
    rw [breadcrumbs_join hd hn, List.getLast?_concat, name_join hd hn]
  refine ⟨fun hnil => ?_, fun first hfirst => ?_, ?_, fun c => mem_breadcrumbs_iff hp, hlast⟩
  · rw [hnil] at hlast
    cases hlast
  · refine hchain.rel_head? ?_
    rw [List.head?_map]
    exact Option.mem_map_of_mem _ hfirst
  · exact (List.isChain_map _).1 hchain.tail

/-- The way to a directory that is named like another one above it. -/
theorem breadcrumbs_descend_sameName :
    (Canonical "/ab/a/ab" ∧ "/ab/a/ab" ≠ root) ∧
      breadcrumbs "/ab/a/ab" ≠ [] ∧ (⟨"a", "/ab/a"⟩ : Crumb) ∈ breadcrumbs "/ab/a/ab" ∧
      (⟨"a", "/a"⟩ : Crumb) ∉ breadcrumbs "/ab/a/ab" ∧
      (breadcrumbs "/ab/a/ab").getLast? = some ⟨"ab", "/ab/a/ab"⟩ := by
  have hp : Canonical "/ab/a/ab" := by decide
  have hname : name "/ab/a/ab" = "ab" := by decide
  obtain ⟨hsome, -, -, hmem, hlast⟩ := breadcrumbs_descend hp (by decide)
  exact ⟨⟨hp, by decide⟩, hsome, (hmem _).2 (by decide),
    fun h => absurd ((hmem _).1 h) (by decide), hname ▸ hlast⟩

end CloudDrive.Path
