import CloudDrive.Proofs.Session.Batch
import Mathlib.Data.List.Induction

/-!
# What becomes of the sources of a batch

A plan goes through the sources one after another. It passes over a source whose name it has met
before, and moves or skips every other. The sources may be any texts, the root and paths with
repeated or trailing slashes among them.

* `distinct_concat`: what one more source adds.
* `exists_firsts`: what is left are the first occurrences of the names, in order (`Places`).
* `partition_ofSources`: a plan parts the first occurrences into moves and conflicts.
-/

namespace CloudDrive

theorem Path.join_right_injective (d : String) : Function.Injective (Path.join d) := by
  intro a b h
  have h := congrArg String.toList h
  rw [Path.toList_join, Path.toList_join] at h
  exact String.toList_inj.1 (List.cons.inj (List.append_cancel_left h)).2

namespace MovePlan

/-! ## First occurrences -/

/-- Is there a source at position `i`, and has none before it the same name? -/
def IsFirst (sources : List String) (i : Nat) : Prop :=
  ∃ s ∈ sources[i]?, ∀ t ∈ sources.take i, Path.name t ≠ Path.name s

/-- The texts `chosen` are what stands at these positions, in the order of the sources. -/
structure Places (sources chosen : List String) (places : List Nat) : Prop where
  sorted : places.Pairwise (· < ·)
  stand : chosen.map some = places.map (sources[·]?)

theorem distinct_cons (s : String) (sources : List String) :
    distinct (s :: sources) = s :: distinct (sources.filter (Path.name · != Path.name s)) := by
  unfold distinct
  rw [List.eraseDupsBy_cons]
  refine congrArg (s :: List.eraseDupsBy _ ·) (List.filter_congr fun t _ => ?_)
  rw [Bool.decide_eq_false, bne]

/-- **One more source** is left out if its name has been met before. -/
theorem distinct_concat (sources : List String) (s : String) :
    distinct (sources ++ [s]) =
      distinct sources ++ if Path.name s ∈ sources.map Path.name then [] else [s] := by
  match sources with
  | [] => rfl
  | a :: rest =>
    rw [List.cons_append, distinct_cons, distinct_cons, List.filter_append, List.map_cons]
    by_cases hs : Path.name s = Path.name a
    · simp [hs]
    · have hlast : [s].filter (Path.name · != Path.name a) = [s] := by simp [hs]
      -- a name that differs from the first is met in the rest or in what is left of it
      have hmet : Path.name s ∈ (rest.filter (Path.name · != Path.name a)).map Path.name ↔
          Path.name s ∈ Path.name a :: rest.map Path.name := by
        simp only [List.mem_map, List.mem_filter, bne_iff_ne, List.mem_cons, hs, false_or]
        exact exists_congr fun t => ⟨fun ⟨⟨ht, _⟩, he⟩ => ⟨ht, he⟩,
          fun ⟨ht, he⟩ => ⟨⟨ht, fun ha => hs (he.symm.trans ha)⟩, he⟩⟩
      rw [hlast, distinct_concat, List.cons_append]
      simp only [hmet]
termination_by sources.length
decreasing_by exact Nat.lt_succ_of_le (List.length_filter_le _ _)

section
variable {sources chosen : List String} {places : List Nat} {s : String}

theorem Places.lt_length (h : Places sources chosen places) {i : Nat} (hi : i ∈ places) :
    i < sources.length := by
  have hmem : sources[i]? ∈ chosen.map some := h.stand ▸ List.mem_map_of_mem hi
  obtain ⟨t, -, ht⟩ := List.mem_map.1 hmem
  exact (List.getElem?_eq_some_iff.1 ht.symm).1

theorem Places.append (h : Places sources chosen places) (s : String) :
    Places (sources ++ [s]) chosen places := by
  refine ⟨h.sorted, h.stand.trans (List.map_congr_left fun i hi => ?_)⟩
  rw [List.getElem?_append_left (h.lt_length hi)]

theorem Places.concat (h : Places sources chosen places) (s : String) :
    Places (sources ++ [s]) (chosen ++ [s]) (places ++ [sources.length]) := by
  refine ⟨List.pairwise_append.2 ⟨h.sorted, List.pairwise_singleton _ _, ?_⟩, ?_⟩
  · intro i hi j hj
    rw [List.mem_singleton.1 hj]
    exact h.lt_length hi
  · rw [List.map_append, List.map_append, (h.append s).stand]
    simp

theorem Places.filter (h : Places sources chosen places) (test : String → Bool) :
    Places sources (chosen.filter test) (places.filter fun i => sources[i]?.any test) := by
  refine ⟨h.sorted.filter _, ?_⟩
  calc (chosen.filter test).map some
      = (chosen.map some).filter (Option.any test) := by
        rw [List.filter_map]
        rfl
    _ = (places.map (sources[·]?)).filter (Option.any test) := by rw [h.stand]
    _ = _ := List.filter_map

theorem isFirst_append {i : Nat} (hi : i < sources.length) :
    IsFirst (sources ++ [s]) i ↔ IsFirst sources i := by
  unfold IsFirst
  rw [List.getElem?_append_left hi, List.take_append_of_le_length (Nat.le_of_lt hi)]

theorem isFirst_length :
    IsFirst (sources ++ [s]) sources.length ↔ Path.name s ∉ sources.map Path.name := by
  simp [IsFirst]

theorem IsFirst.lt_length {i : Nat} (h : IsFirst sources i) : i < sources.length := by
  obtain ⟨s, hs, -⟩ := h
  exact (List.getElem?_eq_some_iff.1 hs).1

/-- Which positions are first when there is one more source. -/
theorem isFirst_concat {i : Nat} :
    IsFirst (sources ++ [s]) i ↔
      IsFirst sources i ∨ i = sources.length ∧ Path.name s ∉ sources.map Path.name := by
  constructor
  · intro h
    rcases Nat.lt_or_ge i sources.length with hi | hi
    · exact .inl ((isFirst_append hi).1 h)
    · have hlt := h.lt_length
      rw [List.length_append, List.length_singleton] at hlt
      obtain rfl : i = sources.length := by omega
      exact .inr ⟨rfl, isFirst_length.1 h⟩
  · rintro (h | ⟨rfl, h⟩)
    · exact (isFirst_append h.lt_length).2 h
    · exact isFirst_length.2 h

end

/-- **What is left of the sources** are the first occurrences of their names. -/
theorem exists_firsts (sources : List String) :
    ∃ firsts, Places sources (distinct sources) firsts ∧ ∀ i, i ∈ firsts ↔ IsFirst sources i := by
  induction sources using List.reverseRecOn with
  | nil => exact ⟨[], ⟨.nil, rfl⟩, fun i => by simp [IsFirst]⟩
  | append_singleton sources s ih =>
    obtain ⟨firsts, hplaces, hfirsts⟩ := ih
    rw [distinct_concat]
    by_cases hmet : Path.name s ∈ sources.map Path.name
    · rw [if_pos hmet, List.append_nil]
      refine ⟨firsts, hplaces.append s, fun i => ?_⟩
      simp [isFirst_concat, hfirsts, hmet]
    · rw [if_neg hmet]
      refine ⟨firsts ++ [sources.length], hplaces.concat s, fun i => ?_⟩
      simp [isFirst_concat, hfirsts, hmet]

/-! ## Moves and conflicts -/

section
variable (sources : List String) (listing : Listing)

theorem sources_ofSources :
    (ofSources sources listing).sources =
      (distinct sources).filter fun s => (conflict? listing s).isNone := by
  simp [ofSources, MovePlan.sources, MoveRequest.intoDirectory, Function.comp_def]

theorem sources_conflicts_ofSources :
    (ofSources sources listing).conflicts.map (·.request.source) =
      (distinct sources).filter fun s => (conflict? listing s).isSome := by
  simp only [ofSources]
  induction distinct sources with
  | nil => rfl
  | cons s rest ih =>
    cases hc : conflict? listing s with
    | none => simpa [hc] using ih
    | some kind => simpa [hc, MoveRequest.intoDirectory] using ih

variable {sources listing}

theorem mem_conflicts_ofSources {c : Conflict} (h : c ∈ (ofSources sources listing).conflicts) :
    conflict? listing c.request.source = some c.kind := by
  obtain ⟨s, -, hs⟩ := List.mem_filterMap.1 h
  obtain ⟨kind, hkind, rfl⟩ := Option.map_eq_some_iff.1 hs
  exact hkind

theorem mem_moves_ofSources {m : MoveRequest} (h : m ∈ (ofSources sources listing).moves) :
    m.destination = Path.join listing.path (Path.name m.source) ∧
      conflict? listing m.source = none := by
  obtain ⟨s, hs, rfl⟩ := List.mem_map.1 h
  exact ⟨rfl, Option.isNone_iff_eq_none.1 (List.mem_filter.1 hs).2⟩

theorem conflict?_eq_none {s : String} (h : conflict? listing s = none) :
    Path.name s ≠ Path.name listing.path ∧ Path.name s ∉ listing.names := by
  unfold conflict? at h
  split at h
  · cases h
  · next hself =>
    split at h
    · cases h
    · next hfree =>
      rw [Listing.contains_iff] at hfree
      exact ⟨fun he => hself (.inr he), hfree⟩

theorem conflict?_eq_some {s : String} {kind : ConflictKind}
    (h : conflict? listing s = some kind) :
    if s = listing.path ∨ Path.name s = Path.name listing.path then kind = .selfMove
    else kind = .nameExists ∧ Path.name s ∈ listing.names := by
  unfold conflict? at h
  split at h
  · next hself =>
    rw [if_pos hself]
    exact (Option.some.inj h).symm
  · next hself =>
    rw [if_neg hself]
    split at h
    · next hn => exact ⟨(Option.some.inj h).symm, (Listing.contains_iff _ _).1 hn⟩
    · cases h

end

theorem nodup_destinations_ofSources (sources : List String) (listing : Listing) :
    ((ofSources sources listing).moves.map (·.destination)).Nodup := by
  have hdistinct : (distinct sources).Pairwise fun a b => (Path.name b == Path.name a) = false :=
    pairwise_eraseDupsBy _ sources
  simp only [ofSources, List.map_map, List.Nodup, List.pairwise_map]
  refine (hdistinct.filter _).imp fun {a b} hne heq => ?_
  have hname : Path.name a = Path.name b := Path.join_right_injective listing.path heq
  simp [hname] at hne

/-- **A plan parts its request.** The first occurrences of the names, no more and no less, are moved
or skipped, each list in the order of the request and no source in both. A move leads to the entry
of its name in the listed directory; no two moves lead to one place, and none takes a name that is
listed or that of the directory. A source that is the directory or has its name is skipped as a move
into itself, any other only because its name is listed. -/
theorem partition_ofSources (sources : List String) (listing : Listing) :
    let plan := ofSources sources listing
    let skippedSources := plan.conflicts.map (·.request.source)
    (∃ moved skipped, Places sources plan.sources moved ∧
      Places sources skippedSources skipped ∧
      ∀ i, i ∈ moved ∨ i ∈ skipped ↔ IsFirst sources i) ∧
    (∀ s ∈ plan.sources, s ∉ skippedSources) ∧
    (∀ m ∈ plan.moves, m.destination = Path.join listing.path (Path.name m.source) ∧
      Path.name m.source ≠ Path.name listing.path ∧
      ∀ e ∈ listing.entries, Path.name m.source ≠ e.name) ∧
    (plan.moves.map (·.destination)).Nodup ∧
    ∀ c ∈ plan.conflicts,
      if c.request.source = listing.path ∨
          Path.name c.request.source = Path.name listing.path then c.kind = .selfMove
      else c.kind = .nameExists ∧ ∃ e ∈ listing.entries, e.name = Path.name c.request.source := by
  intro plan skippedSources
  have hmoved : plan.sources = _ := sources_ofSources sources listing
  have hskipped : skippedSources = _ := sources_conflicts_ofSources sources listing
  refine ⟨?_, fun s hs hs' => ?_, fun m hm => ?_, nodup_destinations_ofSources sources listing,
    fun c hc => ?_⟩
  · obtain ⟨firsts, hplaces, hfirsts⟩ := exists_firsts sources
    rw [hmoved, hskipped]
    refine ⟨_, _, hplaces.filter _, hplaces.filter _, fun i => ?_⟩
    rw [List.mem_filter, List.mem_filter, ← and_or_left, ← hfirsts]
    refine and_iff_left_of_imp fun hi => ?_
    -- a position has a source, and the source has a conflict or none
    obtain ⟨s, hs⟩ : ∃ s, sources[i]? = some s :=
      ⟨_, List.getElem?_eq_getElem (hplaces.lt_length hi)⟩
    rw [hs]
    cases hc : conflict? listing s <;> simp [hc]
  · rw [hmoved] at hs
    rw [hskipped] at hs'
    have hnone := (List.mem_filter.1 hs).2
    have hsome := (List.mem_filter.1 hs').2
    rw [Option.isNone_iff_eq_none.1 hnone] at hsome
    cases hsome
  · obtain ⟨hdest, hfree⟩ := mem_moves_ofSources hm
    obtain ⟨hdir, hlisted⟩ := conflict?_eq_none hfree
    exact ⟨hdest, hdir, fun e he h => hlisted (h ▸ List.mem_map_of_mem he)⟩
  · have hkind := conflict?_eq_some (mem_conflicts_ofSources hc)
    split at hkind
    · next hself => rwa [if_pos hself]
    · next hself =>
      rw [if_neg hself]
      exact ⟨hkind.1, List.mem_map.1 hkind.2⟩

/-- The second `a` is passed over, the root has the name of the destination, and `b` is taken. -/
example :
    ofSources ["/docs/a", "/pics/a/", "//", "/docs/b"] (.ofEntries "/" [.file "/b" 1 default]) =
      ⟨"/", [⟨"/docs/a", "/a"⟩],
        [⟨⟨"//", "/"⟩, .selfMove⟩, ⟨⟨"/docs/b", "/b"⟩, .nameExists⟩]⟩ := by
  decide

end MovePlan

end CloudDrive
