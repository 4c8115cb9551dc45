import CloudDrive.Proofs.Json.Literals

/-!
# Values are read as they are written

`Spells j cs` says that the characters `cs` spell the value `j`, with any white space between the
tokens. The reader understands every spelling, and both printers write one.

* `parse?_of_spells`: a text that spells a value is read as the value.
* `parse?_compact`, `parse?_pretty`: what is written is read again, compact or indented.
-/

namespace CloudDrive.Json

/-! ## Spellings -/

/-- Nothing but white space. -/
def Blank (cs : List Char) : Prop := ∀ c ∈ cs, isBlank c = true

mutual

/-- The characters spell the value. -/
inductive Spells : Json → List Char → Prop where
  | null : Spells .null ['n', 'u', 'l', 'l']
  | isTrue : Spells (.bool true) ['t', 'r', 'u', 'e']
  | isFalse : Spells (.bool false) ['f', 'a', 'l', 's', 'e']
  | num (number : Number) : Spells (.num number) (writeNumber number)
  | str (text : Option String) : Spells (.str text) (writeText text)
  | noItems : Spells (.arr []) ['[', ']']
  | arr {items : List Json} {cs : List Char} :
    SpellsItems items cs → Spells (.arr items) ('[' :: cs)
  | noFields : Spells (.obj []) ['\x7b', '\x7d']
  | obj {fields : List (Option String × Json)} {cs : List Char} :
    SpellsFields fields cs → Spells (.obj fields) ('\x7b' :: cs)

/-- The characters spell one or more items and the closing bracket. -/
inductive SpellsItems : List Json → List Char → Prop where
  | last {item : Json} {before cs after : List Char} :
    Blank before → Spells item cs → Blank after →
    SpellsItems [item] (before ++ (cs ++ (after ++ [']'])))
  | cons {item : Json} {items : List Json} {before cs cs' : List Char} :
    Blank before → Spells item cs → SpellsItems items cs' →
    SpellsItems (item :: items) (before ++ (cs ++ ',' :: cs'))

/-- The characters spell one or more fields and the closing brace. -/
inductive SpellsFields : List (Option String × Json) → List Char → Prop where
  | last {key : Option String} {value : Json} {before gap cs after : List Char} :
    Blank before → Blank gap → Spells value cs → Blank after →
    SpellsFields [(key, value)]
      (before ++ (writeText key ++ ':' :: (gap ++ (cs ++ (after ++ ['\x7d'])))))
  | cons {key : Option String} {value : Json} {fields : List (Option String × Json)}
    {before gap cs cs' : List Char} :
    Blank before → Blank gap → Spells value cs → SpellsFields fields cs' →
    SpellsFields ((key, value) :: fields)
      (before ++ (writeText key ++ ':' :: (gap ++ (cs ++ ',' :: cs'))))

end

/-! ## White space -/

theorem blank_nil : Blank [] := fun _ hmem => absurd hmem List.not_mem_nil

section
variable {blanks rest : List Char}

theorem skipBlanks_append {c : Char} (h : Blank blanks) (hc : isBlank c = false) :
    skipBlanks (blanks ++ c :: rest) = c :: rest := by
  rw [skipBlanks, List.dropWhile_append_of_pos h, List.dropWhile_cons_of_neg (by simp [hc])]

theorem skipBlanks_cons {c : Char} (hc : isBlank c = false) :
    skipBlanks (c :: rest) = c :: rest :=
  skipBlanks_append blank_nil hc

/-- White space does not prolong a number. -/
theorem ends_append {c : Char} (h : Blank blanks) (hc : Ends (c :: rest)) :
    Ends (blanks ++ c :: rest) := by
  rcases blanks with _ | ⟨b, blanks⟩
  · exact hc
  · rintro d ⟨⟩
    have hb := h b List.mem_cons_self
    simp only [isBlank, Bool.or_eq_true, beq_iff_eq] at hb
    rcases hb with ((rfl | rfl) | rfl) | rfl <;> decide

theorem ends_token {c : Char} (h : c = ',' ∨ c = ']' ∨ c = '\x7d') : Ends (c :: rest) := by
  rintro d ⟨⟩
  rcases h with rfl | rfl | rfl <;> decide

end

/-- What a number begins with begins nothing else. -/
theorem number_head {c : Char} (h : c = '-' ∨ c.isDigit = true) :
    isBlank c = false ∧ c ∉ [']', 'n', 't', 'f', '"', '[', '\x7b'] := by
  rcases h with rfl | h
  · decide
  · refine ⟨Bool.eq_false_iff.2 fun hb => ?_, fun hmem => ?_⟩
    · simp only [isBlank, Bool.or_eq_true, beq_iff_eq] at hb
      rcases hb with ((rfl | rfl) | rfl) | rfl <;> cases h
    · simp only [List.mem_cons, List.not_mem_nil, or_false] at hmem
      rcases hmem with rfl | rfl | rfl | rfl | rfl | rfl | rfl <;> cases h

/-- A spelling begins with a character that is neither white space nor a closing bracket. -/
theorem Spells.eq_cons {j : Json} {cs : List Char} (h : Spells j cs) :
    ∃ c cs', cs = c :: cs' ∧ isBlank c = false ∧ c ≠ ']' := by
  cases h with
  | num number =>
    obtain ⟨c, cs', hcons, hc⟩ := writeNumber_eq_cons number
    have hhead := number_head hc
    exact ⟨c, cs', hcons, hhead.1, fun he => hhead.2 (by simp [he])⟩
  | str text =>
    obtain ⟨body, hbody, -⟩ := scanText_writeText text
    exact ⟨_, _, hbody, rfl, by decide⟩
  | _ => exact ⟨_, _, rfl, rfl, by decide⟩

theorem SpellsItems.eq_append {items : List Json} {cs : List Char} (h : SpellsItems items cs) :
    ∃ before c cs', cs = before ++ c :: cs' ∧ Blank before ∧ isBlank c = false ∧ c ≠ ']' := by
  cases h with
  | last hbefore hitem | cons hbefore hitem =>
    obtain ⟨c, cs', rfl, hc, hclose⟩ := hitem.eq_cons
    exact ⟨_, c, _, rfl, hbefore, hc, hclose⟩

theorem SpellsFields.eq_append {fields : List (Option String × Json)} {cs : List Char}
    (h : SpellsFields fields cs) :
    ∃ before c cs', cs = before ++ c :: cs' ∧ Blank before ∧ isBlank c = false ∧ c ≠ '\x7d' := by
  have hkey : ∀ key rest, ∃ cs', writeText key ++ rest = '"' :: cs' := fun key rest => by
    obtain ⟨body, hbody, -⟩ := scanText_writeText key
    exact ⟨body ++ rest, by rw [hbody]; rfl⟩
  cases h with
  | @last key _ before gap cs after hbefore | @cons key _ _ before gap cs _ hbefore =>
    obtain ⟨cs', hcs'⟩ := hkey key _
    exact ⟨before, '"', cs', by rw [hcs'], hbefore, by decide, by decide⟩

/-! ## The reader understands every spelling -/

section
variable {fuel : Nat} {cs rest : List Char}

theorem scanValue_number {c : Char} (hskip : skipBlanks cs = c :: rest)
    (hc : c = '-' ∨ c.isDigit = true) :
    scanValue (fuel + 1) cs = (scanNumber (c :: rest)).map fun r => (.num r.1, r.2) := by
  have hhead := (number_head hc).2
  rw [scanValue, hskip]
  split
  all_goals first | rfl | (next he => exact absurd (by simp [(List.cons.inj he).1]) hhead)

theorem scanValue_arr {c : Char} {rest' : List Char} (hskip : skipBlanks cs = '[' :: rest)
    (hrest : skipBlanks rest = c :: rest') (hc : c ≠ ']') :
    scanValue (fuel + 1) cs = (scanItems fuel rest).map fun r => (.arr r.1, r.2) := by
  simp only [scanValue, hskip, hrest]
  split
  · next he => exact absurd (List.cons.inj he).1 hc
  · rfl

theorem scanValue_obj {c : Char} {rest' : List Char} (hskip : skipBlanks cs = '\x7b' :: rest)
    (hrest : skipBlanks rest = c :: rest') (hc : c ≠ '\x7d') :
    scanValue (fuel + 1) cs = (scanFields fuel rest).map fun r => (.obj r.1, r.2) := by
  simp only [scanValue, hskip, hrest]
  split
  · next he => exact absurd (List.cons.inj he).1 hc
  · rfl

end

/-- What the reader does with so much fuel: it reads the value, the items or the fields that the
characters spell, if the fuel is no less than the number of characters. -/
structure Understands (fuel : Nat) : Prop where
  value : ∀ {j cs} blanks rest, Spells j cs → cs.length ≤ fuel → Blank blanks → Ends rest →
    scanValue fuel (blanks ++ (cs ++ rest)) = some (j, rest)
  items : ∀ {items cs} rest, SpellsItems items cs → cs.length ≤ fuel →
    scanItems fuel (cs ++ rest) = some (items, rest)
  fields : ∀ {fields cs} rest, SpellsFields fields cs → cs.length ≤ fuel →
    scanFields fuel (cs ++ rest) = some (fields, rest)

section
variable {fuel : Nat}

theorem Understands.scanValue_succ (h : Understands fuel) {j : Json} {cs : List Char}
    (blanks rest : List Char) (hcs : Spells j cs) (hfuel : cs.length ≤ fuel + 1)
    (hblanks : Blank blanks) (hrest : Ends rest) :
    scanValue (fuel + 1) (blanks ++ (cs ++ rest)) = some (j, rest) := by
  have hskip : ∀ {c cs'}, isBlank c = false → skipBlanks (blanks ++ c :: cs') = c :: cs' :=
    skipBlanks_append hblanks
  cases hcs with
  | null | isTrue | isFalse | noItems | noFields =>
    simp (disch := decide) only [scanValue, List.cons_append, List.nil_append, hskip,
      skipBlanks_cons]
  | num number =>
    obtain ⟨c, cs, hcons, hc⟩ := writeNumber_eq_cons number
    have hscan := scanNumber_writeNumber number hrest
    rw [hcons, List.cons_append] at hscan ⊢
    rw [scanValue_number (hskip (number_head hc).1) hc, hscan]
    rfl
  | str text =>
    obtain ⟨body, hbody, hscan⟩ := scanText_writeText text
    simp (disch := decide) only [scanValue, hbody, List.cons_append, hskip, hscan]
    rfl
  | @arr items cs hitems =>
    obtain ⟨before, c, cs', hcs, hbefore, hc, hclose⟩ := hitems.eq_append
    have hinner : skipBlanks (cs ++ rest) = c :: (cs' ++ rest) := by
      rw [hcs, List.append_assoc]
      exact skipBlanks_append hbefore hc
    rw [List.cons_append, scanValue_arr (hskip (by decide)) hinner hclose,
      h.items rest hitems (Nat.le_of_succ_le_succ hfuel)]
    rfl
  | @obj fields cs hfields =>
    obtain ⟨before, c, cs', hcs, hbefore, hc, hclose⟩ := hfields.eq_append
    have hinner : skipBlanks (cs ++ rest) = c :: (cs' ++ rest) := by
      rw [hcs, List.append_assoc]
      exact skipBlanks_append hbefore hc
    rw [List.cons_append, scanValue_obj (hskip (by decide)) hinner hclose,
      h.fields rest hfields (Nat.le_of_succ_le_succ hfuel)]
    rfl

theorem Understands.scanItems_succ (h : Understands fuel) {items : List Json} {cs : List Char}
    (rest : List Char) (hcs : SpellsItems items cs) (hfuel : cs.length ≤ fuel + 1) :
    scanItems (fuel + 1) (cs ++ rest) = some (items, rest) := by
  cases hcs with
  | @last item before cs after hbefore hitem hafter =>
    have hvalue := h.value before (after ++ ']' :: rest) hitem (by simp at hfuel; omega) hbefore
      (ends_append hafter (ends_token (by simp)))
    have hskip : skipBlanks (after ++ ']' :: rest) = ']' :: rest := skipBlanks_append hafter rfl
    simp only [List.append_assoc, List.cons_append, List.nil_append]
    simp [scanItems, hvalue, hskip]
  | @cons item items before cs cs' hbefore hitem hitems =>
    have hvalue := h.value before (',' :: (cs' ++ rest)) hitem (by simp at hfuel; omega) hbefore
      (ends_token (by simp))
    have hmore := h.items rest hitems (by simp at hfuel; omega)
    have hskip : skipBlanks (',' :: (cs' ++ rest)) = ',' :: (cs' ++ rest) := skipBlanks_cons rfl
    simp only [List.append_assoc, List.cons_append]
    simp [scanItems, hvalue, hmore, hskip]

theorem scanText_key (key : Option String) {before : List Char} (hbefore : Blank before)
    (rest : List Char) : ∃ body, skipBlanks (before ++ (writeText key ++ ':' :: rest)) =
      '"' :: body ∧ scanText body = some (key, ':' :: rest) := by
  obtain ⟨body, hbody, hscan⟩ := scanText_writeText key
  refine ⟨body ++ ':' :: rest, ?_, hscan _⟩
  rw [hbody, List.cons_append]
  exact skipBlanks_append hbefore rfl

theorem Understands.scanFields_succ (h : Understands fuel) {fields : List (Option String × Json)}
    {cs : List Char} (rest : List Char) (hcs : SpellsFields fields cs)
    (hfuel : cs.length ≤ fuel + 1) :
    scanFields (fuel + 1) (cs ++ rest) = some (fields, rest) := by
  have hcolon : ∀ rest, skipBlanks (':' :: rest) = ':' :: rest := fun _ => skipBlanks_cons rfl
  cases hcs with
  | @last key value before gap cs after hbefore hgap hvalue hafter =>
    have hvalue := h.value gap (after ++ '\x7d' :: rest) hvalue (by simp at hfuel; omega) hgap
      (ends_append hafter (ends_token (by simp)))
    have hskip : skipBlanks (after ++ '\x7d' :: rest) = '\x7d' :: rest :=
      skipBlanks_append hafter rfl
    obtain ⟨body, hbody, hkey⟩ :=
      scanText_key key hbefore (gap ++ (cs ++ (after ++ '\x7d' :: rest)))
    simp only [List.append_assoc, List.cons_append, List.nil_append]
    simp [scanFields, hbody, hkey, hcolon, hvalue, hskip]
  | @cons key value fields before gap cs cs' hbefore hgap hvalue hfields =>
    have hvalue := h.value gap (',' :: (cs' ++ rest)) hvalue (by simp at hfuel; omega) hgap
      (ends_token (by simp))
    have hmore := h.fields rest hfields (by simp at hfuel; omega)
    have hskip : skipBlanks (',' :: (cs' ++ rest)) = ',' :: (cs' ++ rest) := skipBlanks_cons rfl
    obtain ⟨body, hbody, hkey⟩ :=
      scanText_key key hbefore (gap ++ (cs ++ ',' :: (cs' ++ rest)))
    simp only [List.append_assoc, List.cons_append]
    simp [scanFields, hbody, hkey, hcolon, hvalue, hmore, hskip]

end

theorem understands (fuel : Nat) : Understands fuel := by
  -- A reader spends one unit of fuel on each value, item or field, and finds a character there.
  induction fuel with
  | zero =>
    refine ⟨fun _ _ hcs hfuel => ?_, fun _ hcs hfuel => ?_, fun _ hcs hfuel => ?_⟩
    · obtain ⟨c, cs, rfl, -⟩ := hcs.eq_cons
      cases hfuel
    · obtain ⟨before, c, cs, rfl, -⟩ := hcs.eq_append
      simp at hfuel
    · obtain ⟨before, c, cs, rfl, -⟩ := hcs.eq_append
      simp at hfuel
  | succ fuel ih => exact ⟨ih.scanValue_succ, ih.scanItems_succ, ih.scanFields_succ⟩

/-- **A text that spells a value is read as the value.** -/
theorem parse?_of_spells {j : Json} {s : String} (h : Spells j s.toList) : parse? s = some j := by
  have hscan := (understands (2 * s.toList.length + 2)).value [] [] h (by omega)
    blank_nil (fun _ hc => absurd hc (by simp))
  rw [List.nil_append, List.append_nil] at hscan
  rw [parse?, hscan]
  rfl

/-! ## The printers spell -/

/-- A property of values that holds of an array or an object if it holds of what stands in it. -/
theorem induct {motive : Json → Prop} (null : motive .null) (bool : ∀ b, motive (.bool b))
    (num : ∀ number, motive (.num number)) (str : ∀ text, motive (.str text))
    (arr : ∀ items, (∀ j ∈ items, motive j) → motive (.arr items))
    (obj : ∀ fields : List (Option String × Json), (∀ f ∈ fields, motive f.2) →
      motive (.obj fields)) : ∀ j, motive j
  | .null => null
  | .bool b => bool b
  | .num number => num number
  | .str text => str text
  | .arr items => arr items fun j _ => induct null bool num str arr obj j
  | .obj fields => obj fields fun f _ => induct null bool num str arr obj f.2
termination_by j => sizeOf j
decreasing_by
  · have hmem := List.sizeOf_lt_of_mem ‹_›
    simp only [Json.arr.sizeOf_spec]
    omega
  · have hmem := List.sizeOf_lt_of_mem ‹_›
    have hsnd : sizeOf f.2 < sizeOf f := by
      cases f
      simp only [Prod.mk.sizeOf_spec]
      omega
    simp only [Json.obj.sizeOf_spec]
    omega

theorem blank_space : Blank [' '] := by
  intro c hc
  rw [List.mem_singleton.1 hc]
  rfl

theorem blank_newLine (level : Nat) : Blank (newLine level) := by
  intro c hc
  rcases List.mem_cons.1 hc with rfl | hc
  · rfl
  · rw [(List.mem_replicate.1 hc).2]
    rfl

theorem spells_writeItems : ∀ {items : List Json}, items ≠ [] →
    (∀ j ∈ items, Spells j (writeCompact j)) → SpellsItems items (writeItems items)
  | [], hne, _ => absurd rfl hne
  | [_], _, h => .last blank_nil (h _ (by simp)) blank_nil
  | _ :: _ :: _, _, h =>
    .cons blank_nil (h _ (by simp))
      (spells_writeItems (by simp) fun j hj => h j (List.mem_cons_of_mem _ hj))

theorem spells_writeFields : ∀ {fields : List (Option String × Json)}, fields ≠ [] →
    (∀ f ∈ fields, Spells f.2 (writeCompact f.2)) → SpellsFields fields (writeFields fields)
  | [], hne, _ => absurd rfl hne
  | [(_, _)], _, h => .last blank_nil blank_nil (h _ (List.mem_singleton_self _)) blank_nil
  | (_, _) :: _ :: _, _, h =>
    .cons blank_nil blank_nil (h _ List.mem_cons_self)
      (spells_writeFields (by simp) fun f hf => h f (List.mem_cons_of_mem _ hf))

theorem spells_writeCompact (j : Json) : Spells j (writeCompact j) := by
  induction j using induct with
  | null => exact .null
  | bool b =>
    cases b
    · exact .isFalse
    · exact .isTrue
  | num number => exact .num number
  | str text => exact .str text
  | arr items ih =>
    rcases items with _ | ⟨item, items⟩
    · exact .noItems
    · exact .arr (spells_writeItems (by simp) ih)
  | obj fields ih =>
    rcases fields with _ | ⟨field, fields⟩
    · exact .noFields
    · exact .obj (spells_writeFields (by simp) ih)

section
variable {level : Nat}

theorem spells_writeItemLines : ∀ {items : List Json}, items ≠ [] →
    (∀ j ∈ items, Spells j (writePretty (level + 1) j)) →
    SpellsItems items (writeItemLines level items)
  | [], hne, _ => absurd rfl hne
  | [item], _, h => by
    have hlast := SpellsItems.last (blank_newLine (level + 1)) (h item (by simp))
      (blank_newLine level)
    simpa [writeItemLines] using hlast
  | item :: next :: items, _, h => by
    have hmore : SpellsItems (next :: items) (writeItemLines level (next :: items)) :=
      spells_writeItemLines (by simp) fun j hj => h j (List.mem_cons_of_mem _ hj)
    have hcons := SpellsItems.cons (blank_newLine (level + 1)) (h item (by simp)) hmore
    simpa [writeItemLines] using hcons

theorem spells_writeFieldLines : ∀ {fields : List (Option String × Json)}, fields ≠ [] →
    (∀ f ∈ fields, Spells f.2 (writePretty (level + 1) f.2)) →
    SpellsFields fields (writeFieldLines level fields)
  | [], hne, _ => absurd rfl hne
  | [(key, value)], _, h => by
    have hlast := @SpellsFields.last key _ _ _ _ _ (blank_newLine (level + 1)) blank_space
      (h _ (List.mem_singleton_self _)) (blank_newLine level)
    simpa [writeFieldLines] using hlast
  | (key, value) :: next :: fields, _, h => by
    have hmore : SpellsFields (next :: fields) (writeFieldLines level (next :: fields)) :=
      spells_writeFieldLines (by simp) fun f hf => h f (List.mem_cons_of_mem _ hf)
    have hcons := @SpellsFields.cons key _ _ _ _ _ _ (blank_newLine (level + 1)) blank_space
      (h _ List.mem_cons_self) hmore
    simpa [writeFieldLines] using hcons

end

theorem spells_writePretty (j : Json) (level : Nat) : Spells j (writePretty level j) := by
  induction j using induct generalizing level with
  | null => exact .null
  | bool b =>
    cases b
    · exact .isFalse
    · exact .isTrue
  | num number => exact .num number
  | str text => exact .str text
  | arr items ih =>
    rcases items with _ | ⟨item, items⟩
    · exact .noItems
    · exact .arr (spells_writeItemLines (by simp) fun j hj => ih j hj (level + 1))
  | obj fields ih =>
    rcases fields with _ | ⟨field, fields⟩
    · exact .noFields
    · exact .obj (spells_writeFieldLines (by simp) fun f hf => ih f hf (level + 1))

/-- **What is written compactly is read again.** -/
theorem parse?_compact (j : Json) : parse? j.compact = some j :=
  parse?_of_spells (by simpa [compact] using spells_writeCompact j)

/-- **What is written with indentation is read again.** -/
theorem parse?_pretty (j : Json) : parse? j.pretty = some j :=
  parse?_of_spells (by simpa [pretty] using spells_writePretty j 0)

end CloudDrive.Json
