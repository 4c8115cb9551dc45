import CloudDrive.View
import CloudDrive.Proofs.Text.Sigma

/-!
# Searches

A search is found in a name if its lower-case form stands in the key of the name. A name that holds
the text of the search, character for character, need not be found: a capital sigma of the text may
be written in one way at the end of the search and in another way inside the name.

* `Agree`: one occurrence, at which the search and the name write the sigmas in one way.
* `Settled`: a search that is written in one way wherever it occurs; without a capital sigma it is
  (`settled_of_not_mem`).
* `agree_of_settled`, `settled_of_agree`: these are the searches that agree with all occurrences.
* `literal_search_iff`: they are the searches that miss no name that holds their text.
-/

namespace CloudDrive.View

open Text

/-! ## One occurrence -/

/-- In the name `l ++ search ++ r` each capital sigma of the search is written as in the search. -/
def Agree (l search r : List Char) : Prop :=
  ∀ s t, search = s ++ 'Σ' :: t →
    endsWordAfter (blockLength (l ++ search ++ r)) (s.reverse ++ l.reverse) (t ++ r) =
      endsWord .unicode17 s.reverse t

section
variable {l search r : List Char} {name : String}

theorem agree_iff :
    let final := endsWordAfter (blockLength (l ++ search ++ r))
    Agree l search r ↔ spell (fun b a => final b (a ++ r)) l.reverse search =
      spell (endsWord .unicode17) [] search := by
  intro final
  rw [spell_eq_iff]
  simp only [List.append_nil]
  rfl

theorem toList_nameKey_of_eq (hname : name.toList = l ++ search ++ r) :
    let final := endsWordAfter (blockLength (l ++ search ++ r))
    (nameKey name).toList =
      spell (fun b a => final b (a ++ (search ++ r))) [] l ++
        spell (fun b a => final b (a ++ r)) l.reverse search ++
          spell final (search.reverse ++ l.reverse) r := by
  intro final
  rw [toList_nameKey, hname, List.append_assoc, spell_append, spell_append, List.append_nil,
    List.append_assoc]
  simp only [← List.append_assoc]
  rfl

/-- **A search that agrees** with an occurrence in the name is found. -/
theorem infix_nameKey_of_agree (hname : name.toList = l ++ search ++ r) (h : Agree l search r) :
    spell (endsWord .unicode17) [] search <:+: (nameKey name).toList := by
  rw [toList_nameKey_of_eq hname, agree_iff.1 h]
  exact ⟨_, _, rfl⟩

/-- Letters that no sigma comes from. -/
def Letters (cs : List Char) : Prop := ∀ c ∈ cs, c = 'a' ∨ c = 'α'

theorem filter_spell_letters {final : List Char → List Char → Bool} {before cs : List Char}
    (h : Letters cs) : (spell final before cs).filter isSigma = [] := by
  induction cs generalizing before with
  | nil => rfl
  | cons c cs ih =>
    rw [spell, List.filter_append, ih fun d hd => h d (List.mem_cons_of_mem _ hd)]
    have hplain : ((plain 'a').filter isSigma = [] ∧ (plain 'α').filter isSigma = []) := by
      decide
    rcases h c List.mem_cons_self with rfl | rfl
    · exact hplain.1
    · exact hplain.2

/-- **Between letters** a search that is found agrees with its occurrence. -/
theorem agree_of_infix_nameKey (hname : name.toList = l ++ search ++ r) (hl : Letters l)
    (hr : Letters r) (h : spell (endsWord .unicode17) [] search <:+: (nameKey name).toList) :
    Agree l search r := by
  rw [toList_nameKey_of_eq hname] at h
  exact agree_iff.2
    (spell_eq_of_infix_append (filter_spell_letters hl) (filter_spell_letters hr) h).symm

end

/-! ## Every occurrence -/

/-- Is a capital sigma between these texts written in one way, wherever the search occurs? At the
end of a word, if a letter before it is out of reach of the blocks and a sign after it is none;
elsewhere, if one of the texts shows it. -/
def settledAt (before after : List Char) : Bool :=
  if endsWord .unicode17 before.reverse after then
    startsCased .unicode15 (before.dropWhile isAscii).reverse && startsUncased .unicode15 after
  else startsUncased .unicode15 before.reverse || startsCased .unicode15 after

/-- Each capital sigma of the search is written in one way, wherever the search occurs. -/
def Settled (search : List Char) : Prop :=
  ∀ before after, search = before ++ 'Σ' :: after → settledAt before after = true

theorem settled_iff_getElem (search : List Char) :
    Settled search ↔
      ∀ i < search.length, search[i]? = some 'Σ' →
        settledAt (search.take i) (search.drop (i + 1)) = true := by
  constructor
  · intro h i hi hsigma
    obtain ⟨_, hsigma⟩ := List.getElem?_eq_some_iff.1 hsigma
    refine h _ _ ?_
    rw [← hsigma, List.getElem_cons_drop, List.take_append_drop]
  · rintro h before after rfl
    simpa using h before.length (by simp) (by simp)

instance (search : List Char) : Decidable (Settled search) :=
  decidable_of_iff _ (settled_iff_getElem search).symm

theorem settled_of_not_mem {search : List Char} (h : 'Σ' ∉ search) : Settled search := by
  rintro before after rfl
  exact absurd (List.mem_append_right before List.mem_cons_self) h

theorem drop_takeWhile_isAscii (l s : List Char) :
    (l ++ s).drop (l.length + (s.takeWhile isAscii).length) = s.dropWhile isAscii := by
  have hleft : (s.takeWhile isAscii ++ s.dropWhile isAscii).drop (s.takeWhile isAscii).length =
      s.dropWhile isAscii := List.drop_left' rfl
  rw [List.takeWhile_append_dropWhile] at hleft
  rw [List.drop_append, List.drop_eq_nil_of_le (Nat.le_add_right _ _), Nat.add_sub_cancel_left,
    List.nil_append, hleft]

/-- The blocks of a name take off no more than the characters in ASCII before a capital sigma. -/
theorem dropWhile_suffix_drop_blockLength (l s t : List Char) :
    s.dropWhile isAscii <:+ (l ++ s).drop (blockLength (l ++ s ++ 'Σ' :: t)) := by
  have hascii : ((l ++ s).takeWhile isAscii).length ≤
      l.length + (s.takeWhile isAscii).length := by
    rw [List.takeWhile_append]
    split
    · rw [List.length_append]
    · exact (List.takeWhile_prefix _).length_le.trans (Nat.le_add_right _ _)
  rw [← drop_takeWhile_isAscii l s, blockLength_eq, takeWhile_isAscii_sigma]
  exact List.drop_suffix_drop_left _ ((Nat.div_mul_le_self _ _).trans hascii)

/-- After so many letters the last block takes all of them off. -/
theorem drop_blockLength_replicate (s t : List Char) :
    let l := List.replicate (15 * (s.takeWhile isAscii).length) 'a'
    (l ++ s).drop (blockLength (l ++ s ++ 'Σ' :: t)) = s.dropWhile isAscii := by
  intro l
  have hall : ∀ c ∈ l, isAscii c = true := fun c hc => by
    rw [List.eq_of_mem_replicate hc]
    decide
  have hlen : l.length = 15 * (s.takeWhile isAscii).length := List.length_replicate
  have hblocks : blockLength (l ++ s ++ 'Σ' :: t) = l.length + (s.takeWhile isAscii).length := by
    rw [blockLength_eq, takeWhile_isAscii_sigma, List.takeWhile_append_of_pos hall,
      List.length_append]
    omega
  rw [hblocks, drop_takeWhile_isAscii]

theorem endsWordAfter_eq (n : Nat) (l s t : List Char) :
    endsWordAfter n (s.reverse ++ l.reverse) t =
      endsWord .unicode15 ((l ++ s).drop n).reverse t := by
  rw [endsWordAfter, ← List.reverse_append, List.reverse_reverse]

/-- A text that ends no word by itself ends none in a name, however much is taken off in front. -/
theorem startsCased_drop_of_uncased {k : CaseClasses} {s : List Char}
    (h : startsUncased k s.reverse = true) {l : List Char} {n : Nat} :
    startsCased k ((l ++ s).drop n).reverse = false := by
  -- what is left is shorter than the text, or the text is all there
  rcases List.suffix_or_suffix_of_suffix (List.drop_suffix n (l ++ s)) (List.suffix_append l s)
    with hshort | hlong
  · exact startsCased_of_prefix_of_uncased (List.reverse_prefix.2 hshort) h
  · obtain ⟨rest, hrest⟩ := List.reverse_prefix.2 hlong
    rw [← hrest, startsCased_append_of_uncased h]

/-- **A settled search** agrees with every occurrence. -/
theorem agree_of_settled {search : List Char} (h : Settled search) (l r : List Char) :
    Agree l search r := by
  rintro s t rfl
  have hset := h s t rfl
  have hname : l ++ (s ++ 'Σ' :: t) ++ r = l ++ s ++ 'Σ' :: (t ++ r) := by simp
  rw [hname, endsWordAfter_eq]
  have hseen := dropWhile_suffix_drop_blockLength l s (t ++ r)
  generalize blockLength (l ++ s ++ 'Σ' :: (t ++ r)) = n at hseen
  unfold settledAt at hset
  cases hfinal : endsWord .unicode17 s.reverse t with
  | true =>
    rw [if_pos hfinal, Bool.and_eq_true] at hset
    obtain ⟨rest, hrest⟩ := List.reverse_prefix.2 hseen
    rw [endsWord, ← hrest, startsCased_append_of_cased hset.1, startsCased_append_of_uncased hset.2]
    rfl
  | false =>
    rw [if_neg (Bool.eq_false_iff.1 hfinal), Bool.or_eq_true] at hset
    rcases hset with hbefore | hafter
    · rw [endsWord, startsCased_drop_of_uncased hbefore, Bool.false_and]
    · rw [endsWord, startsCased_append_of_cased hafter, Bool.not_true, Bool.and_false]

/-- **A search that agrees** with its occurrences between letters is settled. -/
theorem settled_of_agree {search : List Char}
    (h : ∀ l r, Letters l → Letters r → Agree l search r) : Settled search := by
  rintro s t rfl
  have hletters : ∀ n, Letters (List.replicate n 'a') := fun n c hc =>
    .inl (List.eq_of_mem_replicate hc)
  have halpha : Letters ['α'] := fun c hc => .inr (List.mem_singleton.1 hc)
  have hnone : Letters [] := fun c hc => nomatch hc
  unfold settledAt
  cases hfinal : endsWord .unicode17 s.reverse t with
  | true =>
    rw [if_pos rfl, Bool.and_eq_true]
    constructor
    · -- so many letters that the last block ends with the first characters of the search in ASCII
      have hagree := h (List.replicate (15 * (s.takeWhile isAscii).length) 'a') [] (hletters _)
        hnone s t rfl
      rw [hfinal, endsWordAfter_eq, endsWord, Bool.and_eq_true, List.append_nil,
        ← List.append_assoc, drop_blockLength_replicate] at hagree
      exact hagree.1
    · have hagree := h [] ['a'] hnone (hletters 1) s t rfl
      rw [hfinal, endsWordAfter_eq, endsWord, Bool.and_eq_true, Bool.not_eq_true'] at hagree
      exact startsUncased_of_letter (by decide) (by decide +kernel) hagree.2
  | false =>
    rw [if_neg Bool.false_ne_true, Bool.or_eq_true]
    have hagree := h ['α'] [] halpha hnone s t rfl
    have hblocks : blockLength (['α'] ++ (s ++ 'Σ' :: t) ++ []) = 0 := by
      rw [blockLength_eq, List.append_assoc, List.singleton_append,
        List.takeWhile_cons_of_neg (by decide)]
      rfl
    rw [hfinal, endsWordAfter_eq, endsWord, hblocks, List.drop_zero, List.append_nil,
      Bool.and_eq_false_iff, Bool.not_eq_false'] at hagree
    refine hagree.imp_left fun hbefore => ?_
    rw [List.reverse_append] at hbefore
    exact startsUncased_of_letter (by decide) (by decide) hbefore

/-! ## What is shown -/

section
variable {o : Options} {entries : List Entry} {now : Instant} {e : Entry}

theorem mem_visible_iff_infix_key (hhidden : o.showHidden = true) (hall : o.preset = .all)
    (he : e ∈ entries) :
    e ∈ visible entries o now ↔
      spell (endsWord .unicode17) [] (trimChars o.search.toList) <:+: (nameKey e.name).toList := by
  have hquery : o.query.toList = spell (endsWord .unicode17) [] (trimChars o.search.toList) := by
    rw [Options.query, toList_lowercase, toList_trim]
  have haccepts : o.accepts now e = o.finds e := by
    simp [Options.accepts, hhidden, hall, Preset.matches]
  rw [mem_visible, haccepts, Options.finds, occursIn_iff, hquery]
  exact and_iff_right he

theorem mem_visible_of_agree (hhidden : o.showHidden = true) (hall : o.preset = .all)
    (he : e ∈ entries) {l r : List Char}
    (hname : e.name.toList = l ++ trimChars o.search.toList ++ r)
    (h : Agree l (trimChars o.search.toList) r) : e ∈ visible entries o now :=
  (mem_visible_iff_infix_key hhidden hall he).2 (infix_nameKey_of_agree hname h)

/-- A search that misses no name is settled: the names that tell are the text between letters. -/
theorem settled_of_never_missed (hhidden : o.showHidden = true) (hall : o.preset = .all)
    (h : ∀ (entries : List Entry) (e : Entry), e ∈ entries →
      trimChars o.search.toList <:+: e.name.toList → e ∈ visible entries o now) :
    Settled (trimChars o.search.toList) := by
  refine settled_of_agree fun l r hl hr => ?_
  let e : Entry :=
    { (default : Entry) with name := String.ofList (l ++ trimChars o.search.toList ++ r) }
  have hname : e.name.toList = l ++ trimChars o.search.toList ++ r := String.toList_ofList
  have he : e ∈ [e] := List.mem_singleton_self e
  have hshown := h [e] e he ⟨l, r, hname.symm⟩
  exact agree_of_infix_nameKey hname hl hr ((mem_visible_iff_infix_key hhidden hall he).1 hshown)

end

/-- **Literal searches.** With hidden entries shown and no quick filter, an entry is shown if the
search agrees with one place in its name at which the trimmed text stands; and no entry whose name
holds the trimmed text is missed, whatever is listed, exactly if the search is settled. -/
theorem literal_search_iff (o : Options) (now : Instant) (hhidden : o.showHidden = true)
    (hall : o.preset = .all) :
    (∀ (entries : List Entry) (e : Entry) (l r : List Char), e ∈ entries →
        e.name.toList = l ++ trimChars o.search.toList ++ r →
        Agree l (trimChars o.search.toList) r → e ∈ visible entries o now) ∧
      ((∀ (entries : List Entry) (e : Entry), e ∈ entries →
          trimChars o.search.toList <:+: e.name.toList → e ∈ visible entries o now) ↔
        Settled (trimChars o.search.toList)) := by
  refine ⟨fun entries e l r he hname => mem_visible_of_agree hhidden hall he hname,
    settled_of_never_missed hhidden hall, fun hset entries e he hname => ?_⟩
  obtain ⟨l, r, hlr⟩ := hname
  exact mem_visible_of_agree hhidden hall he hlr.symm (agree_of_settled hset l r)

/-- A letter follows the sigma, so it ends no word anywhere. -/
theorem literal_search_iff_insideWord :
    let o : Options := { search := " ΣΑ", showHidden := true }
    let e := Entry.file "/ΜΕΣΑ" 0 default
    o.showHidden = true ∧ o.preset = .all ∧ Settled (trimChars o.search.toList) ∧
      e ∈ visible [e] o default := by
  intro o e
  have hset : Settled (trimChars o.search.toList) := by decide
  obtain ⟨-, hnever⟩ := literal_search_iff o default rfl rfl
  refine ⟨rfl, rfl, hset, hnever.2 hset [e] e (List.mem_singleton_self e) ?_⟩
  exact ⟨['Μ', 'Ε'], [], by decide⟩

/-- **A missed name.** The search ends with a sigma that ends a word; in the name an extension
follows it. -/
theorem sigma_before_extension_missed :
    ¬ ∀ (o : Options) (now : Instant) (entries : List Entry) (e : Entry), o.showHidden = true →
      o.preset = .all → e ∈ entries → trimChars o.search.toList <:+: e.name.toList →
        e ∈ visible entries o now := by
  intro h
  let o : Options := { search := "ΟΔΟΣ", showHidden := true }
  let e := Entry.file "/ΟΔΟΣ.txt" 0 default
  have hname : e.name.toList = [] ++ trimChars o.search.toList ++ ".txt".toList := by
    decide +kernel
  have hmissed : o.accepts default e = false := by decide +kernel
  have hshown := h o default [e] e rfl rfl (List.mem_singleton_self e) ⟨_, _, hname.symm⟩
  rw [mem_visible, hmissed] at hshown
  exact Bool.false_ne_true hshown.2

end CloudDrive.View
