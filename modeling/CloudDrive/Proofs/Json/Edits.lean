import CloudDrive.Json.Reader
import Mathlib.Data.List.Nodup

/-!
# Edits that a reader does not notice

A text is edited by reordering the fields of its objects, and by adding fields that no record knows.
Which objects are records, and which fields they know, is told by a `Shape`.

* `Permuted`, `Edit`: one reordering, and one edit of a value of some shape.
* `Respects`: a reader that gives the same after each edit. `respects_list`, `respects_record`: lists
  and records of such readers are such readers.
-/

namespace CloudDrive.Json

/-! ## Edits -/

/-- Where the records of a format stand. -/
inductive Shape where
  /-- A text, a number, or something else without records. -/
  | plain
  /-- A list. -/
  | list (item : Shape)
  /-- A record with these fields, in this order. -/
  | record (fields : List (String × Shape))
  /-- An object of one field, whose name tells the shape of its value. -/
  | tagged (variants : List (String × Shape))
  /-- A record that tells by the field `tag` which other fields it has. -/
  | selfTagged (tag : String) (variants : List (String × List (String × Shape)))

/-- The fields of an object, in their order. -/
abbrev Fields := List (Option String × Json)

/-- The fields that a record knows, in their order. -/
abbrev Known := List (String × Shape)

/-- The fields of one object are reordered, at any depth. -/
inductive Permuted : Json → Json → Prop where
  | obj {fields fields' : Fields} : fields.Perm fields' → Permuted (.obj fields) (.obj fields')
  | item {j j' : Json} {l r : List Json} :
    Permuted j j' → Permuted (.arr (l ++ j :: r)) (.arr (l ++ j' :: r))
  | field {key : Option String} {j j' : Json} {l r : Fields} :
    Permuted j j' → Permuted (.obj (l ++ (key, j) :: r)) (.obj (l ++ (key, j') :: r))

/-- A value of a shape is edited once: the fields of an object are reordered, or a record gets a
field that it does not know, at any place in the shape. -/
inductive Edit : Shape → Json → Json → Prop where
  | permuted {s : Shape} {j j' : Json} : Permuted j j' → Edit s j j'
  | item {s : Shape} {j j' : Json} {l r : List Json} :
    Edit s j j' → Edit (.list s) (.arr (l ++ j :: r)) (.arr (l ++ j' :: r))
  | add {known : Known} {fields : Fields} {name : String} {j : Json} :
    name ∉ known.map Prod.fst →
    Edit (.record known) (.obj fields) (.obj (fields ++ [(some name, j)]))
  | field {known : Known} {name : String} {s : Shape} {j j' : Json} {l r : Fields} :
    (name, s) ∈ known → Edit s j j' →
    Edit (.record known) (.obj (l ++ (some name, j) :: r)) (.obj (l ++ (some name, j') :: r))
  | position {known : Known} {name : String} {s : Shape} {j j' : Json} {l r : List Json} :
    known[l.length]? = some (name, s) → Edit s j j' →
    Edit (.record known) (.arr (l ++ j :: r)) (.arr (l ++ j' :: r))
  | body {variants : List (String × Shape)} {tag : String} {s : Shape} {j j' : Json} :
    (tag, s) ∈ variants → Edit s j j' →
    Edit (.tagged variants) (.obj [(some tag, j)]) (.obj [(some tag, j')])
  | selfTagged {variants : List (String × Known)} {tag kind : String} {known : Known}
    {fields fields' : Fields} :
    (kind, known) ∈ variants → (some tag, .str (some kind)) ∈ fields →
    Edit (.record ((tag, .plain) :: known)) (.obj fields) (.obj fields') →
    Edit (.selfTagged tag variants) (.obj fields) (.obj fields')
  | selfTaggedItems {variants : List (String × Known)} {tag kind : String} {known : Known}
    {items items' : List Json} :
    (kind, known) ∈ variants → Edit (.record known) (.arr items) (.arr items') →
    Edit (.selfTagged tag variants) (.arr (.str (some kind) :: items))
      (.arr (.str (some kind) :: items'))

/-- What the reader gives for a value of the shape, it gives after each edit. -/
def Respects {α : Type} (s : Shape) (read : Json → Option α) : Prop :=
  ∀ ⦃j j' : Json⦄ ⦃a : α⦄, Edit s j j' → read j = some a → read j' = some a

/-- Only reorderings edit what has no records. -/
theorem Edit.permuted_of_plain {j j' : Json} (h : Edit .plain j j') : Permuted j j' := by
  cases h
  assumption

/-! ## Simple values -/

section
variable {α β : Type} {s : Shape}

theorem respects_text? : Respects .plain text? := by
  intro j j' a h hread
  cases h.permuted_of_plain <;> cases hread

theorem respects_bool? : Respects .plain bool? := by
  intro j j' a h hread
  cases h.permuted_of_plain <;> cases hread

theorem respects_natBelow? (bound : Nat) : Respects .plain (natBelow? bound) := by
  intro j j' a h hread
  cases h.permuted_of_plain <;> cases hread

theorem Respects.map {read : Json → Option α} (h : Respects s read) (f : α → β) :
    Respects s fun j => (read j).map f := by
  intro j j' b hedit hread
  obtain ⟨a, ha, rfl⟩ := Option.map_eq_some_iff.1 hread
  exact Option.map_eq_some_iff.2 ⟨a, h hedit ha, rfl⟩

theorem Respects.bind {read : Json → Option α} (h : Respects s read) (f : α → Option β) :
    Respects s fun j => (read j).bind f := by
  intro j j' b hedit hread
  obtain ⟨a, ha, hf⟩ := Option.bind_eq_some_iff.1 hread
  exact Option.bind_eq_some_iff.2 ⟨a, h hedit ha, hf⟩

theorem Permuted.of_arr {items : List Json} {o : Json} (h : Permuted (.arr items) o) :
    ∃ l j j' r, items = l ++ j :: r ∧ o = .arr (l ++ j' :: r) ∧ Permuted j j' := by
  cases h with
  | item hj => exact ⟨_, _, _, _, rfl, rfl, hj⟩

theorem Permuted.of_obj {fields : Fields} {o : Json} (h : Permuted (.obj fields) o) :
    (∃ fields', o = .obj fields' ∧ fields.Perm fields') ∨
      ∃ l key j j' r, fields = l ++ (key, j) :: r ∧ o = .obj (l ++ (key, j') :: r) ∧
        Permuted j j' := by
  cases h with
  | obj hperm => exact .inl ⟨_, rfl, hperm⟩
  | field hj => exact .inr ⟨_, _, _, _, _, rfl, rfl, hj⟩

theorem Permuted.of_singleton {key : Option String} {j o : Json}
    (h : Permuted (.obj [(key, j)]) o) :
    o = .obj [(key, j)] ∨ ∃ j', o = .obj [(key, j')] ∧ Permuted j j' := by
  rcases h.of_obj with ⟨fields', rfl, hperm⟩ | ⟨l, k, v, v', r, hfields, rfl, hv⟩
  · rw [List.perm_singleton.1 hperm.symm]
    exact .inl rfl
  · rcases l with _ | ⟨x, l⟩
    · cases hfields
      exact .inr ⟨v', rfl, hv⟩
    · simp at hfields

theorem respects_unit? : Respects .plain unit? := by
  intro j j' name h hread
  unfold unit? at hread
  split at hread
  · cases h.permuted_of_plain
  · rcases h.permuted_of_plain.of_singleton with rfl | ⟨v, -, hv⟩
    · exact hread
    · cases hv
  · cases hread

theorem respects_oneOf? (values : List (String × α)) : Respects .plain (oneOf? values) :=
  respects_unit?.bind _

theorem respects_pair? {first : Json → Option α} {second : Json → Option β}
    (hfirst : Respects .plain first) (hsecond : Respects .plain second) :
    Respects .plain (pair? first second) := by
  intro j j' ab hedit hread
  unfold pair? at hread
  split at hread
  · next a b =>
    obtain ⟨x, hx, hread⟩ := Option.bind_eq_some_iff.1 hread
    obtain ⟨y, hy, hread⟩ := Option.bind_eq_some_iff.1 hread
    have hpair : ∀ {a' b' : Json}, first a' = some x → second b' = some y →
        pair? first second (.arr [a', b']) = some ab := fun ha hb => by
      simpa [pair?, ha, hb] using hread
    obtain ⟨l, v, v', r, hitems, rfl, hv⟩ := hedit.permuted_of_plain.of_arr
    rcases l with _ | ⟨c, _ | ⟨d, l⟩⟩
    · cases hitems
      exact hpair (hfirst (.permuted hv) hx) hy
    · cases hitems
      exact hpair hx (hsecond (.permuted hv) hy)
    · simp at hitems
  · cases hread

/-! ## Lists -/

theorem respects_list? {read : Json → Option α} (h : Respects s read) :
    Respects (.list s) (list? read) := by
  -- However the list is edited, it is in one of its items.
  have hitem : ∀ {l r : List Json} {j j' : Json} {as : List α}, Edit s j j' →
      list? read (.arr (l ++ j :: r)) = some as → list? read (.arr (l ++ j' :: r)) = some as := by
    intro l r j j' as hedit hread
    simp only [list?, List.mapM_append, List.mapM_cons] at hread ⊢
    cases hj : read j with
    | none => simp [hj] at hread
    | some a => rwa [h hedit hj, ← hj]
  intro j j' as hedit hread
  cases hedit with
  | permuted hperm =>
    cases hperm with
    | obj => cases hread
    | field => cases hread
    | item hj => exact hitem (.permuted hj) hread
  | item hj => exact hitem hj hread

end

/-! ## Records -/

/-- What two records hold under the known names differs by edits. -/
def Related (known : Known) (r r' : Record) : Prop :=
  ∀ name s, (name, s) ∈ known → r'.lookup name = r.lookup name ∨
    ∃ j j', r.lookup name = some j ∧ r'.lookup name = some j' ∧ Edit s j j'

theorem eq_of_mem_of_nodup {α : Type} {l : List (String × α)} {name : String} {a b : α}
    (hnodup : (l.map Prod.fst).Nodup) (ha : (name, a) ∈ l) (hb : (name, b) ∈ l) : a = b :=
  congrArg Prod.snd (List.inj_on_of_nodup_map hnodup ha hb rfl)

/-- The keys of a record: they are texts, and the known names stand at most once. -/
def AreKeys (names : List String) (keys : List (Option String)) : Prop :=
  (∀ key ∈ keys, key.isSome = true) ∧ ∀ name ∈ names, keys.count (some name) ≤ 1

/-- The value of the first field with a name. -/
def Fields.lookup (fields : Fields) (name : String) : Option Json :=
  (fields.find? (·.1 == some name)).map (·.2)

section
variable {names : List String} {fields fields' : Fields}

theorem exists_record?_obj_iff :
    (∃ r, record? names (.obj fields) = some r) ↔ AreKeys names (fields.map Prod.fst) := by
  have hcount : ∀ name, occurrences name fields = (fields.map Prod.fst).count (some name) :=
    fun name => by rw [List.count, List.countP_map]; rfl
  simp only [record?, knownFields?, hcount, AreKeys, List.forall_mem_map]
  split
  · next h => simpa using h
  · next h => simpa using h

theorem AreKeys.perm {keys keys' : List (Option String)} (h : AreKeys names keys)
    (hperm : keys.Perm keys') : AreKeys names keys' :=
  ⟨fun key hkey => h.1 key (hperm.mem_iff.2 hkey), fun name hname => by
    rw [← hperm.count_eq]
    exact h.2 name hname⟩

theorem AreKeys.concat {keys : List (Option String)} {name : String} (h : AreKeys names keys)
    (hname : name ∉ names) : AreKeys names (keys ++ [some name]) := by
  refine ⟨fun key hkey => ?_, fun n hn => ?_⟩
  · rcases List.mem_append.1 hkey with hkey | hkey
    · exact h.1 key hkey
    · rw [List.mem_singleton.1 hkey]
      rfl
  · have hne : some name ≠ some n := fun he => hname (Option.some.inj he ▸ hn)
    rw [List.count_append, List.count_singleton, if_neg (by simpa using hne)]
    exact h.2 n hn

/-- Of fields with a name that stands at most once, the first one is the only one. -/
theorem Fields.lookup_perm {name : String} (hperm : fields.Perm fields')
    (honce : (fields.map Prod.fst).count (some name) ≤ 1) :
    fields'.lookup name = fields.lookup name := by
  have hfilter := hperm.filter (·.1 == some name)
  have hlength : (fields.filter (·.1 == some name)).length ≤ 1 := by
    rwa [List.count, List.countP_map, List.countP_eq_length_filter] at honce
  rw [Fields.lookup, Fields.lookup, ← List.head?_filter, ← List.head?_filter]
  generalize fields.filter (·.1 == some name) = found at hfilter hlength
  rcases found with _ | ⟨f, _ | ⟨g, rest⟩⟩
  · rw [hfilter.nil_eq]
  · rw [List.perm_singleton.1 hfilter.symm]
  · simp at hlength

theorem Fields.lookup_concat {name n : String} {j : Json} (hne : name ≠ n) :
    Fields.lookup (fields ++ [(some name, j)]) n = fields.lookup n := by
  simp [Fields.lookup, hne]

/-- Only under the name of a field that is edited, something else is found. -/
theorem Fields.lookup_edited (l r : Fields) (key : Option String) (j j' : Json) (name : String) :
    Fields.lookup (l ++ (key, j') :: r) name = Fields.lookup (l ++ (key, j) :: r) name ∨
      key = some name ∧ Fields.lookup (l ++ (key, j) :: r) name = some j ∧
        Fields.lookup (l ++ (key, j') :: r) name = some j' := by
  simp only [Fields.lookup, List.find?_append]
  cases l.find? (·.1 == some name) with
  | some f => exact .inl rfl
  | none =>
    by_cases hkey : key = some name
    · exact .inr (by simp [hkey])
    · exact .inl (by simp [hkey])

theorem lookup_zip_edited (names : List String) (l r : List Json) (j j' : Json) (name : String) :
    Record.lookup (names.zip (l ++ j' :: r)) name = Record.lookup (names.zip (l ++ j :: r)) name ∨
      names[l.length]? = some name ∧ Record.lookup (names.zip (l ++ j :: r)) name = some j ∧
        Record.lookup (names.zip (l ++ j' :: r)) name = some j' := by
  induction l generalizing names with
  | nil =>
    rcases names with _ | ⟨n, names⟩
    · exact .inl rfl
    · by_cases hn : n = name
      · exact .inr (by simp [hn])
      · exact .inl (by simp [hn])
  | cons x l ih =>
    rcases names with _ | ⟨n, names⟩
    · exact .inl rfl
    · by_cases hn : n = name
      · exact .inl (by simp [hn])
      · simpa [hn] using ih names

end

section
variable {known : Known} {r : Record}

/-- An object stays a record if its keys stay keys of a record and it holds the same up to edits. -/
theorem record?_obj_edited {fields fields' : Fields}
    (h : record? (known.map Prod.fst) (.obj fields) = some r)
    (hkeys : AreKeys (known.map Prod.fst) (fields'.map Prod.fst))
    (hlookup : ∀ name s, (name, s) ∈ known → fields'.lookup name = fields.lookup name ∨
      ∃ j j', fields.lookup name = some j ∧ fields'.lookup name = some j' ∧ Edit s j j') :
    ∃ r', record? (known.map Prod.fst) (.obj fields') = some r' ∧ Related known r r' := by
  obtain ⟨r', hr'⟩ := exists_record?_obj_iff.2 hkeys
  refine ⟨r', hr', fun name s hs => ?_⟩
  have hname : (known.map Prod.fst).contains name = true := by
    simpa using ⟨s, hs⟩
  rw [lookup_record_obj h hname, lookup_record_obj hr' hname]
  exact hlookup name s hs

theorem record?_field_edited {l back : Fields} {key : Option String} {j j' : Json}
    (h : record? (known.map Prod.fst) (.obj (l ++ (key, j) :: back)) = some r)
    (hedit : ∀ name s, (name, s) ∈ known → key = some name → Edit s j j') :
    ∃ r', record? (known.map Prod.fst) (.obj (l ++ (key, j') :: back)) = some r' ∧
      Related known r r' := by
  have hkeys := exists_record?_obj_iff.1 ⟨r, h⟩
  refine record?_obj_edited h (by simpa using hkeys) fun name s hs => ?_
  rcases Fields.lookup_edited l back key j j' name with heq | ⟨hkey, hj, hj'⟩
  · exact .inl heq
  · exact .inr ⟨j, j', hj, hj', hedit name s hs hkey⟩

theorem record?_item_edited {l back : List Json} {j j' : Json}
    (h : record? (known.map Prod.fst) (.arr (l ++ j :: back)) = some r)
    (hedit : ∀ name s, (name, s) ∈ known → (known.map Prod.fst)[l.length]? = some name →
      Edit s j j') :
    ∃ r', record? (known.map Prod.fst) (.arr (l ++ j' :: back)) = some r' ∧ Related known r r' := by
  simp only [record?, List.length_append, List.length_cons] at h ⊢
  split at h
  · next hlength =>
    cases h
    refine ⟨_, if_pos hlength, fun name s hs => ?_⟩
    rcases lookup_zip_edited (known.map Prod.fst) l back j j' name with heq | ⟨hname, hj, hj'⟩
    · exact .inl heq
    · exact .inr ⟨j, j', hj, hj', hedit name s hs hname⟩
  · cases h

/-- **An edit of a record** leaves a record that holds the same up to edits. -/
theorem record?_edited (hnodup : (known.map Prod.fst).Nodup) {j j' : Json}
    (hedit : Edit (.record known) j j') (h : record? (known.map Prod.fst) j = some r) :
    ∃ r', record? (known.map Prod.fst) j' = some r' ∧ Related known r r' := by
  cases hedit with
  | permuted hperm =>
    cases hperm with
    | obj hfields =>
      have hkeys := exists_record?_obj_iff.1 ⟨r, h⟩
      refine record?_obj_edited h (hkeys.perm (hfields.map _)) fun name s hs => .inl ?_
      exact Fields.lookup_perm hfields (hkeys.2 name (List.mem_map_of_mem hs))
    | item hj => exact record?_item_edited h fun _ _ _ _ => .permuted hj
    | field hj => exact record?_field_edited h fun _ _ _ _ => .permuted hj
  | @add _ fields name j hname =>
    have hkeys := exists_record?_obj_iff.1 ⟨r, h⟩
    refine record?_obj_edited h (by simpa using hkeys.concat hname) fun n s hs => .inl ?_
    exact Fields.lookup_concat fun he => hname (he ▸ List.mem_map_of_mem hs)
  | field hs hj =>
    refine record?_field_edited h fun name s' hs' hkey => ?_
    cases hkey
    exact eq_of_mem_of_nodup hnodup hs hs' ▸ hj
  | position hs hj =>
    refine record?_item_edited h fun name s' hs' hname => ?_
    rw [List.getElem?_map, hs] at hname
    cases hname
    exact eq_of_mem_of_nodup hnodup (List.mem_of_getElem? hs) hs' ▸ hj

end

/-! ## Readers of records -/

/-- What is read from a record is read from every record that holds the same up to edits. -/
def Stable {α : Type} (known : Known) (read : Record → Option α) : Prop :=
  ∀ ⦃r r' : Record⦄ ⦃a : α⦄, Related known r r' → read r = some a → read r' = some a

section
variable {α β : Type} {known : Known}

theorem stable_pure (a : α) : Stable known fun _ => some a := fun _ _ _ _ h => h

theorem Stable.bind {read : Record → Option α} {next : α → Record → Option β}
    (hread : Stable known read) (hnext : ∀ a, Stable known (next a)) :
    Stable known fun r => (read r).bind fun a => next a r := by
  intro r r' b hrelated h
  obtain ⟨a, ha, hb⟩ := Option.bind_eq_some_iff.1 h
  exact Option.bind_eq_some_iff.2 ⟨a, hread hrelated ha, hnext a hrelated hb⟩

theorem stable_required {name : String} {s : Shape} (hs : (name, s) ∈ known)
    {read : Json → Option α} (h : Respects s read) : Stable known (·.required name read) := by
  intro r r' a hrelated hr
  rcases hrelated name s hs with heq | ⟨j, j', hj, hj', hedit⟩
  · simpa only [Record.required, heq] using hr
  · simp only [Record.required, hj, hj', Option.bind_some] at hr ⊢
    exact h hedit hr

theorem stable_defaulted {name : String} {s : Shape} (hs : (name, s) ∈ known) (default : α)
    {read : Json → Option α} (h : Respects s read) :
    Stable known (·.defaulted name default read) := by
  intro r r' a hrelated hr
  rcases hrelated name s hs with heq | ⟨j, j', hj, hj', hedit⟩
  · simpa only [Record.defaulted, heq] using hr
  · simp only [Record.defaulted, hj, hj'] at hr ⊢
    exact h hedit hr

/-- **A record of readers that respect edits respects edits.** -/
theorem respects_record {read : Record → Option α} (hnodup : (known.map Prod.fst).Nodup)
    (h : Stable known read) :
    Respects (.record known) fun j => (j.record? (known.map Prod.fst)).bind read := by
  intro j j' a hedit hread
  obtain ⟨r, hr, ha⟩ := Option.bind_eq_some_iff.1 hread
  obtain ⟨r', hr', hrelated⟩ := record?_edited hnodup hedit hr
  exact Option.bind_eq_some_iff.2 ⟨r', hr', h hrelated ha⟩

theorem respects_twoTexts {first second : String} (hne : first ≠ second)
    (make : String → String → α) :
    Respects (.record [(first, .plain), (second, .plain)]) fun j => do
      let r ← j.record? [first, second]
      return make (← r.required first text?) (← r.required second text?) :=
  respects_record (by simpa using hne) <|
    (stable_required (by simp) respects_text?).bind fun _ =>
    (stable_required (by simp) respects_text?).bind fun _ => stable_pure _

theorem respects_oneList {name : String} {item : Json → Option β} (h : Respects .plain item)
    (make : List β → α) :
    Respects (.record [(name, .list .plain)]) fun j => do
      let r ← j.record? [name]
      return make (← r.required name (list? item)) :=
  respects_record (by simp) <|
    (stable_required (by simp) (respects_list? h)).bind fun _ => stable_pure _

end

end CloudDrive.Json
