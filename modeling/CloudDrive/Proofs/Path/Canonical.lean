import CloudDrive.Path
import Mathlib.Data.List.Induction

/-!
# Canonical paths

A canonical path spells a list of components, each after a separator; the empty list is the root.
On canonical paths the functions of `CloudDrive.Path` are functions of the lists:

* `parts_ofComponents`: the components are read back from the path, so a canonical path has one
  list of components (`ofComponents_inj`).
* `join_ofComponents`, `parent_ofComponents`, `name_ofComponents`: adding a component at the end,
  leaving out the last one, and reading it.
* `isWithin_ofComponents`: nesting is the prefix order of the lists.
* `rebase_ofComponents`: moving a subtree exchanges the prefix.

The section on nesting says the same of canonical paths without naming their lists.
-/

namespace CloudDrive.Path

open Text (dropEndWhile dropEndWhile_of_last)

/-- A component of a path: a text that is not empty and holds no separator. -/
def IsComponent (n : String) : Prop := n ≠ "" ∧ '/' ∉ n.toList

instance (n : String) : Decidable (IsComponent n) :=
  inferInstanceAs (Decidable (n ≠ "" ∧ '/' ∉ n.toList))

/-- The characters of components, each after a separator. -/
def spell : List String → List Char
  | [] => []
  | n :: ns => '/' :: (n.toList ++ spell ns)

/-- The path with these components. -/
def ofComponents (ns : List String) : String := if ns = [] then root else String.ofList (spell ns)

/-- The components of a path as texts. -/
def parts (path : String) : List String := (components path.toList).map String.ofList

/-- A path is canonical when it is the root, or a sequence of components with a separator before
each. -/
def Canonical (path : String) : Prop := ∃ ns, (∀ n ∈ ns, IsComponent n) ∧ ofComponents ns = path

/-! ## Spelling components -/

theorem ofComponents_nil : ofComponents [] = root := rfl

theorem spell_append (ms ns : List String) : spell (ms ++ ns) = spell ms ++ spell ns := by
  induction ms with
  | nil => rfl
  | cons m ms ih => simp [spell, ih]

theorem spell_eq_nil {ns : List String} : spell ns = [] ↔ ns = [] := by
  cases ns <;> simp [spell]

theorem isSeparator_iff {c : Char} : isSeparator c = true ↔ c = '/' := by
  simp [isSeparator]

theorem IsComponent.last {n : String} (h : IsComponent n) :
    ∃ l c, n.toList = l ++ [c] ∧ isSeparator c = false := by
  rcases List.eq_nil_or_concat n.toList with hn | ⟨l, c, hn⟩
  · exact absurd (by simpa using hn) h.1
  · refine ⟨l, c, by simpa using hn, ?_⟩
    rw [Bool.eq_false_iff, ne_eq, isSeparator_iff]
    rintro rfl
    exact h.2 (by rw [hn]; simp)

theorem stem_spell {ns : List String} (h : ∀ n ∈ ns, IsComponent n) :
    stem (spell ns) = spell ns := by
  rcases List.eq_nil_or_concat ns with rfl | ⟨ms, n, rfl⟩
  · rfl
  · obtain ⟨l, c, hn, hc⟩ := (h n (by simp)).last
    have hs : spell (ms.concat n) = (spell ms ++ '/' :: l) ++ [c] := by
      simp [List.concat_eq_append, spell_append, spell, hn]
    rw [hs]
    exact dropEndWhile_of_last hc

theorem toList_ofComponents (ns : List String) :
    (ofComponents ns).toList = if ns = [] then ['/'] else spell ns := by
  unfold ofComponents
  split <;> simp [root]

theorem stem_ofComponents {ns : List String} (h : ∀ n ∈ ns, IsComponent n) :
    stem (ofComponents ns).toList = spell ns := by
  rw [toList_ofComponents]
  split
  · next hn => subst hn; rfl
  · exact stem_spell h

/-! ## Reading components back -/

theorem pieces_append {x : List Char} (hx : '/' ∉ x) (l : List Char) :
    pieces (x ++ l) = (pieces l).modifyHead (x ++ ·) := by
  induction x with
  | nil => cases h : pieces l <;> simp [h]
  | cons c x ih =>
    simp only [List.mem_cons, not_or] at hx
    have hc : isSeparator c = false := by
      simpa [isSeparator] using fun h : c = '/' => hx.1 h.symm
    simp only [List.cons_append, pieces, hc, ih hx.2, Bool.false_eq_true, if_false]
    cases pieces l <;> rfl

theorem pieces_spell {ns : List String} (h : ∀ n ∈ ns, IsComponent n) :
    pieces (spell ns) = [] :: ns.map String.toList := by
  induction ns with
  | nil => rfl
  | cons n ns ih =>
    have hn := (h n (by simp)).2
    simp only [spell, pieces]
    rw [pieces_append hn, ih fun m hm => h m (List.mem_cons_of_mem _ hm)]
    simp [isSeparator]

theorem components_spell {ns : List String} (h : ∀ n ∈ ns, IsComponent n) :
    components (spell ns) = ns.map String.toList := by
  unfold components
  rw [pieces_spell h, List.filter_cons_of_neg (by simp), List.filter_eq_self]
  intro x hx
  obtain ⟨n, hn, rfl⟩ := List.mem_map.1 hx
  simpa using (h n hn).1

theorem parts_ofComponents {ns : List String} (h : ∀ n ∈ ns, IsComponent n) :
    parts (ofComponents ns) = ns := by
  unfold parts
  rw [toList_ofComponents]
  split
  · next hn => subst hn; rfl
  · rw [components_spell h]
    simp [Function.comp_def]

theorem ofComponents_inj {ms ns : List String} (hm : ∀ n ∈ ms, IsComponent n)
    (hn : ∀ n ∈ ns, IsComponent n) (h : ofComponents ms = ofComponents ns) : ms = ns := by
  rw [← parts_ofComponents hm, h, parts_ofComponents hn]

theorem ofComponents_eq_root {ns : List String} (h : ∀ n ∈ ns, IsComponent n) :
    ofComponents ns = root ↔ ns = [] :=
  ⟨fun e => ofComponents_inj h (by simp) e, fun e => by subst e; rfl⟩

theorem not_mem_of_mem_pieces {l x : List Char} (h : x ∈ pieces l) : '/' ∉ x := by
  induction l generalizing x with
  | nil => simp_all [pieces]
  | cons c l ih =>
    unfold pieces at h
    split at h
    · rcases List.mem_cons.1 h with rfl | h
      · simp
      · exact ih h
    · next hc =>
      cases hl : pieces l with
      | nil => simp [hl] at h
      | cons y ys =>
        rw [hl, List.modifyHead_cons] at h
        rcases List.mem_cons.1 h with rfl | h
        · have hy := ih (hl ▸ List.mem_cons_self)
          rw [isSeparator_iff] at hc
          simpa [hy] using fun e : '/' = c => hc e.symm
        · exact ih (hl ▸ List.mem_cons_of_mem _ h)

theorem isComponent_of_mem_parts {p n : String} (h : n ∈ parts p) : IsComponent n := by
  obtain ⟨x, hx, rfl⟩ := List.mem_map.1 h
  obtain ⟨hp, hne⟩ := List.mem_filter.1 hx
  refine ⟨fun he => ?_, by simpa using not_mem_of_mem_pieces hp⟩
  have : x = [] := by simpa using congrArg String.toList he
  simp [this] at hne

theorem canonical_iff {p : String} : Canonical p ↔ ofComponents (parts p) = p := by
  constructor
  · rintro ⟨ns, hns, rfl⟩
    rw [parts_ofComponents hns]
  · intro h
    exact ⟨parts p, fun n hn => isComponent_of_mem_parts hn, h⟩

instance (p : String) : Decidable (Canonical p) := decidable_of_iff _ canonical_iff.symm

/-! ## Joining and taking apart -/

theorem join_ofComponents {ns : List String} (h : ∀ n ∈ ns, IsComponent n) (n : String) :
    join (ofComponents ns) n = ofComponents (ns ++ [n]) := by
  unfold join
  rw [stem_ofComponents h]
  simp [ofComponents, spell_append, spell]

section
variable {ns : List String} {n : String} (h : ∀ m ∈ ns ++ [n], IsComponent m)
include h

/-- The last component stands at the front of the reversed path. -/
theorem reverse_stem_concat :
    (stem (ofComponents (ns ++ [n])).toList).reverse =
      n.toList.reverse ++ '/' :: (spell ns).reverse := by
  rw [stem_ofComponents h]
  simp [spell_append, spell]

theorem all_not_separator : ∀ c ∈ n.toList.reverse, (! isSeparator c) = true := by
  intro c hc
  have hn := (h n (by simp)).2
  simp only [isSeparator, Bool.not_eq_true', beq_eq_false_iff_ne]
  rintro rfl
  exact hn (List.mem_reverse.1 hc)

theorem name_ofComponents : name (ofComponents (ns ++ [n])) = n := by
  unfold name
  rw [reverse_stem_concat h, List.takeWhile_append_of_pos (all_not_separator h)]
  simp [isSeparator]

theorem parent_ofComponents : parent (ofComponents (ns ++ [n])) = ofComponents ns := by
  have hb : beforeName (ofComponents (ns ++ [n])).toList = spell ns := by
    unfold beforeName
    rw [reverse_stem_concat h, List.dropWhile_append_of_pos (all_not_separator h)]
    simp [isSeparator]
  unfold parent ofComponents
  rw [← ofComponents, hb]
  simp [spell_eq_nil]

end

/-! ## Nesting and moving -/

/-- Two texts without separators, one before a separator and one before a separator or the end,
are the same text where they begin the same list. -/
theorem append_separator_inj {x y r t w : List Char} (hx : '/' ∉ x) (hy : '/' ∉ y)
    (ht : t = [] ∨ ∃ u, t = '/' :: u) (h : x ++ ('/' :: r) ++ w = y ++ t) :
    x = y ∧ '/' :: r ++ w = t := by
  rw [List.append_assoc] at h
  rcases List.append_eq_append_iff.1 h with ⟨a, ha, hb⟩ | ⟨a, ha, hb⟩
  · cases a with
    | nil => exact ⟨by simpa using ha.symm, by simpa using hb⟩
    | cons c a =>
      simp only [List.cons_append, List.cons.injEq] at hb
      exact absurd (by rw [ha, ← hb.1]; simp) hy
  · cases a with
    | nil => exact ⟨by simpa using ha, by simpa using hb.symm⟩
    | cons c a =>
      rcases ht with rfl | ⟨u, rfl⟩
      · simp at hb
      · simp only [List.cons_append, List.cons.injEq] at hb
        exact absurd (by rw [ha, ← hb.1]; simp) hx

theorem spell_eq_nil_or (ns : List String) : spell ns = [] ∨ ∃ u, spell ns = '/' :: u := by
  cases ns with
  | nil => exact .inl rfl
  | cons n ns => exact .inr ⟨_, rfl⟩

theorem isPrefix_of_spell : ∀ {ms ns : List String} {w : List Char},
    (∀ n ∈ ms, IsComponent n) → (∀ n ∈ ns, IsComponent n) →
    spell ms ++ ['/'] ++ w = spell ns → ms <+: ns
  | [], _, _, _, _, _ => List.nil_prefix
  | m :: ms, [], _, _, _, h => by simp [spell] at h
  | m :: ms, n :: ns, w, hm, hn, h => by
    obtain ⟨r, hr⟩ : ∃ r, spell ms ++ ['/'] = '/' :: r := by
      rcases spell_eq_nil_or ms with e | ⟨u, e⟩ <;> simp [e]
    have h' : m.toList ++ ('/' :: r) ++ w = n.toList ++ spell ns := by
      simpa [spell, ← hr] using h
    obtain ⟨hmn, hrest⟩ := append_separator_inj (hm m (by simp)).2 (hn n (by simp)).2
      (spell_eq_nil_or ns) h'
    have hrest' : spell ms ++ ['/'] ++ w = spell ns := by rw [hr]; exact hrest
    have ih := isPrefix_of_spell (fun x hx => hm x (List.mem_cons_of_mem _ hx))
      (fun x hx => hn x (List.mem_cons_of_mem _ hx)) hrest'
    rw [String.toList_injective hmn]
    exact (List.prefix_cons_inj n).2 ih

theorem isWithin_ofComponents {ps as : List String} (hp : ∀ n ∈ ps, IsComponent n)
    (ha : ∀ n ∈ as, IsComponent n) :
    isWithin (ofComponents ps) (ofComponents as) = true ↔ as <+: ps := by
  unfold isWithin
  by_cases hr : as = []
  · subst hr
    have hh : (ofComponents ps).toList.head? = some '/' := by
      rw [toList_ofComponents]
      rcases ps with _ | ⟨p, ps⟩ <;> simp [spell]
    rw [ofComponents_nil, if_pos rfl, hh]
    simp
  · have hne : ofComponents as ≠ root := fun e => hr ((ofComponents_eq_root ha).1 e)
    rw [if_neg hne, Bool.or_eq_true, beq_iff_eq, List.isPrefixOf_iff_prefix]
    constructor
    · rintro (h | ⟨w, h⟩)
      · exact ofComponents_inj hp ha h ▸ List.prefix_rfl
      · rw [toList_ofComponents, if_neg hr, toList_ofComponents] at h
        by_cases hp0 : ps = []
        · rw [if_pos hp0] at h
          rcases as with _ | ⟨a, as⟩
          · exact absurd rfl hr
          · simp [spell] at h
        · rw [if_neg hp0] at h
          exact isPrefix_of_spell ha hp h
    · rintro ⟨rest, rfl⟩
      rcases rest with _ | ⟨r, rest⟩
      · exact .inl (by simp)
      · refine .inr ⟨r.toList ++ spell rest, ?_⟩
        rw [toList_ofComponents, if_neg hr, toList_ofComponents, if_neg (by simp), spell_append]
        simp [spell]

theorem rebase_ofComponents {as rest bs : List String} (ha : ∀ n ∈ as, IsComponent n)
    (hr : ∀ n ∈ rest, IsComponent n) (hb : ∀ n ∈ bs, IsComponent n) :
    rebase (ofComponents (as ++ rest)) (ofComponents as) (ofComponents bs) =
      some (ofComponents (bs ++ rest)) := by
  have har : ∀ n ∈ as ++ rest, IsComponent n := by
    intro n hn
    rcases List.mem_append.1 hn with hn | hn
    · exact ha n hn
    · exact hr n hn
  unfold rebase
  by_cases h0 : rest = []
  · subst h0; simp
  · have hne : ofComponents (as ++ rest) ≠ ofComponents as := by
      intro e
      have := ofComponents_inj har ha e
      simp_all
    rw [if_neg hne, if_pos ((isWithin_ofComponents har ha).2 (List.prefix_append _ _)),
      stem_ofComponents hb, stem_ofComponents ha, toList_ofComponents, if_neg (by simp [h0]),
      spell_append, List.drop_left]
    simp [ofComponents, h0, spell_append]

/-! ## Canonical paths by themselves -/

theorem Canonical.components {p : String} (_ : Canonical p) : ∀ n ∈ parts p, IsComponent n :=
  fun _ h => isComponent_of_mem_parts h

theorem Canonical.ofComponents_parts {p : String} (h : Canonical p) : ofComponents (parts p) = p :=
  canonical_iff.1 h

theorem canonical_root : Canonical root := ⟨[], by simp, rfl⟩

section
variable {d n : String} (hd : Canonical d) (hn : IsComponent n)
include hd hn

theorem canonical_join : Canonical (join d n) := by
  obtain ⟨ns, hns, rfl⟩ := hd
  refine ⟨ns ++ [n], fun m hm => ?_, (join_ofComponents hns n).symm⟩
  rcases List.mem_append.1 hm with hm | hm
  · exact hns m hm
  · exact List.mem_singleton.1 hm ▸ hn

theorem parts_join : parts (join d n) = parts d ++ [n] := by
  obtain ⟨ns, hns, rfl⟩ := hd
  have hc : ∀ m ∈ ns ++ [n], IsComponent m := by
    simpa [or_imp, forall_and] using ⟨hns, hn⟩
  rw [join_ofComponents hns, parts_ofComponents hc, parts_ofComponents hns]

theorem parent_join : parent (join d n) = d := by
  obtain ⟨ns, hns, rfl⟩ := hd
  rw [join_ofComponents hns]
  exact parent_ofComponents (by simpa [or_imp, forall_and] using ⟨hns, hn⟩)

theorem name_join : name (join d n) = n := by
  obtain ⟨ns, hns, rfl⟩ := hd
  rw [join_ofComponents hns]
  exact name_ofComponents (by simpa [or_imp, forall_and] using ⟨hns, hn⟩)

theorem join_ne_root : join d n ≠ root := by
  intro h
  have := parts_join hd hn
  rw [h] at this
  simpa using (List.append_eq_nil_iff.1 this.symm).2

end

theorem Canonical.eq_join {p : String} (h : Canonical p) (hne : p ≠ root) :
    ∃ d n, Canonical d ∧ IsComponent n ∧ p = join d n := by
  obtain ⟨ns, hns, rfl⟩ := h
  rcases List.eq_nil_or_concat ns with rfl | ⟨ms, n, rfl⟩
  · exact absurd rfl hne
  · rw [List.concat_eq_append] at hns ⊢
    have hms : ∀ m ∈ ms, IsComponent m := fun m hm => hns m (by simp [hm])
    exact ⟨ofComponents ms, n, ⟨ms, hms, rfl⟩, hns n (by simp), (join_ofComponents hms n).symm⟩

/-- Induction on a canonical path from the root down. -/
theorem Canonical.induct {motive : String → Prop} (root : motive Path.root)
    (join : ∀ d n, Canonical d → IsComponent n → motive d → motive (Path.join d n))
    {p : String} (h : Canonical p) : motive p := by
  obtain ⟨ns, hns, rfl⟩ := h
  induction ns using List.reverseRecOn with
  | nil => exact root
  | append_singleton ns n ih =>
    have hd : ∀ m ∈ ns, IsComponent m := fun m hm => hns m (List.mem_append_left _ hm)
    rw [← join_ofComponents hd]
    exact join _ _ ⟨ns, hd, rfl⟩ (hns n (by simp)) (ih hd)

theorem Canonical.parent {p : String} (h : Canonical p) : Canonical (parent p) := by
  by_cases hr : p = root
  · subst hr
    exact canonical_root
  · obtain ⟨d, n, hd, hn, rfl⟩ := h.eq_join hr
    rwa [parent_join hd hn]

theorem Canonical.isComponent_name {p : String} (h : Canonical p) (hne : p ≠ root) :
    IsComponent (name p) := by
  obtain ⟨d, n, hd, hn, rfl⟩ := h.eq_join hne
  rwa [name_join hd hn]

theorem Canonical.join_parent_name {p : String} (h : Canonical p) (hne : p ≠ root) :
    join (Path.parent p) (name p) = p := by
  obtain ⟨d, n, hd, hn, rfl⟩ := h.eq_join hne
  rw [parent_join hd hn, name_join hd hn]

theorem Canonical.ext {p q : String} (hp : Canonical p) (hq : Canonical q)
    (h : parts p = parts q) : p = q := by
  rw [← hp.ofComponents_parts, h, hq.ofComponents_parts]

/-- Nesting is the prefix order of the components. -/
theorem isWithin_iff {p a : String} (hp : Canonical p) (ha : Canonical a) :
    isWithin p a = true ↔ parts a <+: parts p := by
  obtain ⟨ps, hps, rfl⟩ := hp
  obtain ⟨as, has, rfl⟩ := ha
  rw [isWithin_ofComponents hps has, parts_ofComponents hps, parts_ofComponents has]

theorem isWithin_refl {p : String} (h : Canonical p) : isWithin p p = true :=
  (isWithin_iff h h).2 List.prefix_rfl

theorem isWithin_root {p : String} (h : Canonical p) : isWithin p root = true :=
  (isWithin_iff h canonical_root).2 List.nil_prefix

theorem isWithin_trans {p q r : String} (hp : Canonical p) (hq : Canonical q) (hr : Canonical r)
    (h₁ : isWithin p q = true) (h₂ : isWithin q r = true) : isWithin p r = true := by
  rw [isWithin_iff hp hq] at h₁
  rw [isWithin_iff hq hr] at h₂
  exact (isWithin_iff hp hr).2 (h₂.trans h₁)

theorem isWithin_antisymm {p q : String} (hp : Canonical p) (hq : Canonical q)
    (h₁ : isWithin p q = true) (h₂ : isWithin q p = true) : p = q := by
  rw [isWithin_iff hp hq] at h₁
  rw [isWithin_iff hq hp] at h₂
  exact hp.ext hq (h₂.eq_of_length_le h₁.length_le)

theorem Canonical.eq_root {a : String} (ha : Canonical a) (h : isWithin root a = true) : a = root :=
  isWithin_antisymm ha canonical_root (isWithin_root ha) h

/-- Of two directories above one path one is above the other. -/
theorem isWithin_total {p a b : String} (hp : Canonical p) (ha : Canonical a) (hb : Canonical b)
    (h₁ : isWithin p a = true) (h₂ : isWithin p b = true) :
    isWithin a b = true ∨ isWithin b a = true := by
  rw [isWithin_iff hp ha] at h₁
  rw [isWithin_iff hp hb] at h₂
  rw [isWithin_iff ha hb, isWithin_iff hb ha]
  exact (List.prefix_or_prefix_of_prefix h₁ h₂).symm

theorem isWithin_join {d n a : String} (hd : Canonical d) (hn : IsComponent n) (ha : Canonical a) :
    isWithin (join d n) a = true ↔ join d n = a ∨ isWithin d a = true := by
  have hj := canonical_join hd hn
  rw [isWithin_iff hj ha, isWithin_iff hd ha, parts_join hd hn, List.prefix_concat_iff]
  refine or_congr_left ⟨fun h => hj.ext ha ?_, fun h => ?_⟩
  · rw [parts_join hd hn, h]
  · rw [← h, parts_join hd hn]

theorem isWithin_iff_parent {p a : String} (hp : Canonical p) (hne : p ≠ root)
    (ha : Canonical a) :
    isWithin p a = true ↔ p = a ∨ isWithin (Path.parent p) a = true := by
  obtain ⟨d, n, hd, hn, rfl⟩ := hp.eq_join hne
  rw [isWithin_join hd hn ha, parent_join hd hn]

theorem isWithin_parent {p : String} (hp : Canonical p) : isWithin p (Path.parent p) = true := by
  by_cases hr : p = root
  · subst hr
    exact isWithin_refl canonical_root
  · exact (isWithin_iff_parent hp hr hp.parent).2 (.inr (isWithin_refl hp.parent))

theorem not_isWithin_join {d n : String} (hd : Canonical d) (hn : IsComponent n) :
    isWithin d (join d n) = false := by
  rw [Bool.eq_false_iff, ne_eq, isWithin_iff hd (canonical_join hd hn), parts_join hd hn]
  intro h
  have := h.length_le
  rw [List.length_append, List.length_singleton] at this
  omega

theorem join_ne_self {d n : String} (hd : Canonical d) (hn : IsComponent n) : join d n ≠ d := by
  intro h
  have := not_isWithin_join hd hn
  rw [h, isWithin_refl hd] at this
  cases this

theorem join_inj {d d' n n' : String} (hd : Canonical d) (hd' : Canonical d')
    (hn : IsComponent n) (hn' : IsComponent n') (h : join d n = join d' n') :
    d = d' ∧ n = n' := by
  refine ⟨?_, ?_⟩
  · rw [← parent_join hd hn, h, parent_join hd' hn']
  · rw [← name_join hd hn, h, name_join hd' hn']

/-! ## Moving subtrees -/

/-- A path is moved with the subtree that it lies within, and the way back brings it home. -/
theorem exists_rebase {p a b : String} (hp : Canonical p) (ha : Canonical a) (hb : Canonical b)
    (h : isWithin p a = true) :
    ∃ q, rebase p a b = some q ∧ Canonical q ∧ isWithin q b = true ∧ rebase q b a = some p := by
  obtain ⟨rest, hrest⟩ := (isWithin_iff hp ha).1 h
  have hr : ∀ n ∈ rest, IsComponent n := fun n hn =>
    hp.components n (hrest ▸ List.mem_append_right _ hn)
  have hbr : ∀ n ∈ parts b ++ rest, IsComponent n := fun n hn =>
    (List.mem_append.1 hn).elim (hb.components n) (hr n)
  have hpe : ofComponents (parts a ++ rest) = p := by rw [hrest, hp.ofComponents_parts]
  have hq : Canonical (ofComponents (parts b ++ rest)) := ⟨_, hbr, rfl⟩
  have h₁ := rebase_ofComponents ha.components hr hb.components
  have h₂ := rebase_ofComponents hb.components hr ha.components
  rw [hpe, ha.ofComponents_parts, hb.ofComponents_parts] at h₁ h₂
  refine ⟨_, h₁, hq, ?_, h₂⟩
  rw [isWithin_iff hq hb, parts_ofComponents hbr]
  exact List.prefix_append _ _

theorem rebase_eq_none {p a b : String} (h : isWithin p a = false) (hne : p ≠ a) :
    rebase p a b = none := by
  simp [rebase, h, hne]

theorem isWithin_of_rebase {p q a b : String} (hp : Canonical p) (h : rebase p a b = some q) :
    isWithin p a = true := by
  by_cases hw : isWithin p a = true
  · exact hw
  · have hne : p ≠ a := fun e => hw (e ▸ isWithin_refl hp)
    rw [rebase_eq_none (by simpa using hw) hne] at h
    cases h

section
variable {p q a b : String} (hp : Canonical p) (ha : Canonical a) (hb : Canonical b)
  (h : rebase p a b = some q)
include hp ha hb h

theorem Canonical.rebase : Canonical q := by
  obtain ⟨q', hq', hc, -⟩ := exists_rebase hp ha hb (isWithin_of_rebase hp h)
  rw [h, Option.some.injEq] at hq'
  exact hq' ▸ hc

theorem isWithin_rebase : isWithin q b = true := by
  obtain ⟨q', hq', -, hw, -⟩ := exists_rebase hp ha hb (isWithin_of_rebase hp h)
  rw [h, Option.some.injEq] at hq'
  exact hq' ▸ hw

theorem rebase_rebase : Path.rebase q b a = some p := by
  obtain ⟨q', hq', -, -, hr⟩ := exists_rebase hp ha hb (isWithin_of_rebase hp h)
  rw [h, Option.some.injEq] at hq'
  exact hq' ▸ hr

end

theorem rebase_join {d n a b q : String} (hd : Canonical d) (hn : IsComponent n)
    (ha : Canonical a) (hb : Canonical b) (h : rebase d a b = some q) :
    rebase (join d n) a b = some (join q n) := by
  obtain ⟨rest, hrest⟩ := (isWithin_iff hd ha).1 (isWithin_of_rebase hd h)
  have hr : ∀ m ∈ rest, IsComponent m := fun m hm =>
    hd.components m (hrest ▸ List.mem_append_right _ hm)
  have hrn : ∀ m ∈ rest ++ [n], IsComponent m := by simpa [or_imp, forall_and] using ⟨hr, hn⟩
  have hbr : ∀ m ∈ parts b ++ rest, IsComponent m := fun m hm =>
    (List.mem_append.1 hm).elim (hb.components m) (hr m)
  have har : ∀ m ∈ parts a ++ rest, IsComponent m := hrest ▸ hd.components
  have hq : q = ofComponents (parts b ++ rest) := by
    have := rebase_ofComponents ha.components hr hb.components
    rw [hrest, hd.ofComponents_parts, ha.ofComponents_parts, hb.ofComponents_parts, h] at this
    simpa using this
  have hj : join d n = ofComponents (parts a ++ (rest ++ [n])) := by
    rw [← List.append_assoc, ← join_ofComponents har, hrest, hd.ofComponents_parts]
  have := rebase_ofComponents ha.components hrn hb.components
  rw [← hj, ha.ofComponents_parts, hb.ofComponents_parts] at this
  rw [this, hq, join_ofComponents hbr, List.append_assoc]

/-! ## Any path -/

/-- The name of any path is a component, unless nothing is left of the path; then the path stands
for the root. -/
theorem isComponent_name_or (p : String) :
    IsComponent (name p) ∨ join (Path.parent p) (name p) = root := by
  have hname := toList_name p
  by_cases hn : name p = ""
  · right
    have hstem : stem p.toList = [] := by
      have hrev : (stem p.toList).reverse = p.toList.reverse.dropWhile isSeparator := by
        simp [stem, dropEndWhile]
      have hhead := List.head?_dropWhile_not isSeparator p.toList.reverse
      rw [hn] at hname
      cases hc : (stem p.toList).reverse with
      | nil => simpa using hc
      | cons c rest =>
        rw [← hrev, hc] at hhead
        simp only [List.head?_cons] at hhead
        rw [hc, List.takeWhile_cons_of_pos (by simpa using hhead)] at hname
        simp at hname
    have hpar : Path.parent p = root := by
      simp [Path.parent, beforeName, hstem]
    rw [hpar, hn]
    decide
  · refine .inl ⟨hn, fun hmem => ?_⟩
    rw [hname, List.mem_reverse] at hmem
    simpa [isSeparator] using List.all_eq_true.1 List.all_takeWhile '/' hmem

end CloudDrive.Path
