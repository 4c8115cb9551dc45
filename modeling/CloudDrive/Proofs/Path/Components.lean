import CloudDrive.Proofs.Path.Canonical

/-!
# Paths as lists of components

A canonical path is as good as the list of its components: neither keeps anything that the other
does not. What the functions of `CloudDrive.Path` do to the texts is a matter of the lists alone.

* `parts_parent_concat`: the parent and the name are the front of the list and its last component.
* `map_parts_rebase`: to move a path is to exchange a prefix of its list.
* `acts_on_parts`: all the functions together.
-/

namespace CloudDrive.Path

section
variable {p a b : String}

/-- The parent and the name of a path are the front of its list and the last component. -/
theorem parts_parent_concat (hp : Canonical p) (hne : p ≠ root) :
    parts p = parts (parent p) ++ [name p] := by
  obtain ⟨d, n, hd, hn, rfl⟩ := hp.eq_join hne
  rw [parent_join hd hn, name_join hd hn, parts_join hd hn]

/-- **To move a path** is to exchange a prefix of its list; without that prefix it stays where it
is. -/
theorem map_parts_rebase (hp : Canonical p) (ha : Canonical a) (hb : Canonical b) :
    (rebase p a b).map parts =
      if parts a <+: parts p then some (parts b ++ (parts p).drop (parts a).length) else none := by
  split
  · next hprefix =>
    obtain ⟨rest, hrest⟩ := hprefix
    have hr : ∀ n ∈ rest, IsComponent n := fun n hn =>
      hp.components n (hrest ▸ List.mem_append_right _ hn)
    have hbr : ∀ n ∈ parts b ++ rest, IsComponent n := fun n hn =>
      (List.mem_append.1 hn).elim (hb.components n) (hr n)
    have hmoved := rebase_ofComponents ha.components hr hb.components
    rw [hrest, hp.ofComponents_parts, ha.ofComponents_parts, hb.ofComponents_parts] at hmoved
    rw [hmoved, Option.map_some, parts_ofComponents hbr, ← hrest, List.drop_left]
  · next hprefix =>
    have hwithin : isWithin p a = false :=
      Bool.eq_false_iff.2 fun hw => hprefix ((isWithin_iff hp ha).1 hw)
    have hne : p ≠ a := by
      rintro rfl
      exact hprefix List.prefix_rfl
    rw [rebase_eq_none hwithin hne]
    rfl

theorem eq_of_rebase {p' q : String} (hp : Canonical p) (hp' : Canonical p') (ha : Canonical a)
    (hb : Canonical b) (h : rebase p a b = some q) (h' : rebase p' a b = some q) : p' = p := by
  have hback := rebase_rebase hp ha hb h
  rw [rebase_rebase hp' ha hb h'] at hback
  exact Option.some.inj hback

end

/-- **The functions on paths are functions of component lists.** Canonical paths and lists of
components determine each other. To join a name is to append it; of any path but the root, parent
and name are the front of the list and its last component, and together they are the path; nesting
is the prefix order. A path is moved with a directory exactly if the list of the directory is a
prefix of its own, which is then exchanged; the way back brings it home, and no two paths are moved
to one place. -/
theorem acts_on_parts {p a b n : String} (hp : Canonical p) (ha : Canonical a) (hb : Canonical b)
    (hn : IsComponent n) :
    ((∀ m ∈ parts p, IsComponent m) ∧ ofComponents (parts p) = p) ∧
      (∀ ns, (∀ m ∈ ns, IsComponent m) →
        Canonical (ofComponents ns) ∧ parts (ofComponents ns) = ns) ∧
      (Canonical (join p n) ∧ parts (join p n) = parts p ++ [n]) ∧
      (p ≠ root → Canonical (parent p) ∧ parts p = parts (parent p) ++ [name p] ∧
        join (parent p) (name p) = p) ∧
      (isWithin p a = true ↔ parts a <+: parts p) ∧
      ((rebase p a b).map parts =
        if parts a <+: parts p then some (parts b ++ (parts p).drop (parts a).length) else none) ∧
      ∀ q, rebase p a b = some q → Canonical q ∧ rebase q b a = some p ∧
        ∀ p', Canonical p' → rebase p' a b = some q → p' = p := by
  refine ⟨⟨hp.components, hp.ofComponents_parts⟩,
    fun ns hns => ⟨⟨ns, hns, rfl⟩, parts_ofComponents hns⟩,
    ⟨canonical_join hp hn, parts_join hp hn⟩,
    fun hne => ⟨hp.parent, parts_parent_concat hp hne, hp.join_parent_name hne⟩,
    isWithin_iff hp ha, map_parts_rebase hp ha hb, fun q hq => ?_⟩
  exact ⟨hp.rebase ha hb hq, rebase_rebase hp ha hb hq,
    fun p' hp' hq' => eq_of_rebase hp hp' ha hb hq hq'⟩

/-- What lies in `/ab` is moved to the root and back, past `/a`, which only begins with the same
letter. -/
theorem acts_on_parts_toRoot :
    (Canonical "/ab/b/c" ∧ Canonical "/ab" ∧ Canonical "/" ∧ IsComponent "d") ∧
      parts (join "/ab/b/c" "d") = ["ab", "b", "c", "d"] ∧
      parts "/ab/b/c" = parts (parent "/ab/b/c") ++ [name "/ab/b/c"] ∧
      isWithin "/ab/b/c" "/a" = false ∧ rebase "/ab/b/c" "/ab" "/" = some "/b/c" ∧
      rebase "/b/c" "/" "/ab" = some "/ab/b/c" := by
  have hp : Canonical "/ab/b/c" := by decide
  have ha : Canonical "/ab" := by decide
  have hb : Canonical "/" := by decide
  have hn : IsComponent "d" := by decide
  have hmoved : rebase "/ab/b/c" "/ab" "/" = some "/b/c" := by decide
  obtain ⟨-, -, ⟨-, hjoin⟩, hparent, -, -, hback⟩ := acts_on_parts hp ha hb hn
  exact ⟨⟨hp, ha, hb, hn⟩, hjoin.trans (by decide), (hparent (by decide)).2.1,
    by decide, hmoved, (hback _ hmoved).2.1⟩

end CloudDrive.Path
