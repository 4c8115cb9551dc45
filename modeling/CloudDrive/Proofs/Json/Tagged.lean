import CloudDrive.Proofs.Json.Edits

/-!
# Edits of tagged values

* `respects_tagged`: a reader of an object that one tag names.
* `Edit.isMeaningful`: what is meaningful after an edit was so before.
* `selfTagged?_edited`: the tag of a record is found wherever it stands, if all of the record can
  still be read.
-/

namespace CloudDrive.Json

/-! ## Objects with one tag -/

section
variable {α : Type} {variants : List (String × Shape)} {j j' body : Json} {tag : String}

theorem tagged?_eq_some : j.tagged? = some (tag, body) ↔ j = .obj [(some tag, body)] := by
  constructor
  · intro h
    unfold tagged? at h
    split at h
    · cases h
      rfl
    · cases h
  · rintro rfl
    rfl

theorem tagged?_edited (hnodup : (variants.map Prod.fst).Nodup)
    (hedit : Edit (.tagged variants) j j') (h : j.tagged? = some (tag, body)) :
    ∃ body', j'.tagged? = some (tag, body') ∧
      (body' = body ∨ ∀ s, (tag, s) ∈ variants → Edit s body body') := by
  obtain rfl := tagged?_eq_some.1 h
  generalize ho : Json.obj [(some tag, body)] = o at hedit
  cases hedit with
  | permuted hperm =>
    subst ho
    rcases hperm.of_singleton with rfl | ⟨body', rfl, hbody⟩
    · exact ⟨body, rfl, .inl rfl⟩
    · exact ⟨body', rfl, .inr fun _ _ => .permuted hbody⟩
  | body hs hbody =>
    cases ho
    exact ⟨_, rfl, .inr fun s' hs' => eq_of_mem_of_nodup hnodup hs hs' ▸ hbody⟩

theorem unit?_edited {name : String} (hedit : Edit (.tagged variants) j j')
    (h : j.unit? = some name) : j'.unit? = some name := by
  cases hedit with
  | permuted hperm => exact respects_unit? (.permuted hperm) h
  | body _ hbody =>
    unfold unit? at h
    split at h
    · next ho => cases ho
    · next ho =>
      cases ho
      cases hbody with
      | permuted hperm => cases hperm
    · cases h

theorem unit?_ne_of_tagged? {name : String} (h : j.tagged? = some (tag, body)) (hne : tag ≠ name) :
    j.unit? ≠ some name := by
  obtain rfl := tagged?_eq_some.1 h
  intro hunit
  unfold unit? at hunit
  split at hunit
  · next ho => cases ho
  · next ho =>
    cases ho
    exact hne (Option.some.inj hunit)
  · cases hunit

/-- **A reader of tagged values respects edits** if it reads only known tags, and each body with
respect. -/
theorem respects_tagged {read : String × Json → Option α} (hnodup : (variants.map Prod.fst).Nodup)
    (h : ∀ tag body a, read (tag, body) = some a →
      ∃ s, (tag, s) ∈ variants ∧ Respects s fun body => read (tag, body)) :
    Respects (.tagged variants) fun j => (j.tagged?).bind read := by
  intro j j' a hedit hread
  obtain ⟨⟨tag, body⟩, hj, ha⟩ := Option.bind_eq_some_iff.1 hread
  obtain ⟨body', hj', hbody⟩ := tagged?_edited hnodup hedit hj
  refine Option.bind_eq_some_iff.2 ⟨_, hj', ?_⟩
  rcases hbody with rfl | hbody
  · exact ha
  · obtain ⟨s, hs, hrespects⟩ := h tag body a ha
    exact hrespects (hbody s hs) ha

end

/-! ## Values that are read as a whole -/

section
variable {double? : Doubles}

theorem areMeaningful_eq_all (depth : Nat) (items : List Json) :
    areMeaningful double? depth items = items.all (isMeaningful double? depth) := by
  induction items with
  | nil => rfl
  | cons item items ih => rw [areMeaningful, ih, List.all_cons]

theorem fieldsAreMeaningful_eq_all (depth : Nat) (fields : Fields) :
    fieldsAreMeaningful double? depth fields =
      fields.all fun f => f.1.isSome && f.2.isMeaningful double? depth := by
  induction fields with
  | nil => rfl
  | cons f fields ih => rw [fieldsAreMeaningful, ih, List.all_cons]

theorem Permuted.isMeaningful_eq {j j' : Json} (h : Permuted j j') (depth : Nat) :
    j'.isMeaningful double? depth = j.isMeaningful double? depth := by
  induction h generalizing depth with
  | obj hperm =>
    simp only [isMeaningful, fieldsAreMeaningful_eq_all]
    rw [hperm.all_eq]
  | item _ ih => simp [isMeaningful, areMeaningful_eq_all, ih]
  | field _ ih => simp [isMeaningful, fieldsAreMeaningful_eq_all, ih]

/-- What is meaningful after an edit was so before. -/
theorem Edit.isMeaningful {s : Shape} {j j' : Json} (h : Edit s j j') {depth : Nat} :
    j'.isMeaningful double? depth = true → j.isMeaningful double? depth = true := by
  induction h generalizing depth with
  | permuted hperm => exact (hperm.isMeaningful_eq depth ▸ ·)
  | selfTagged _ _ _ ih => exact ih
  | item _ ih | position _ _ ih =>
    simp only [Json.isMeaningful, areMeaningful_eq_all, List.all_append, List.all_cons,
      Bool.and_eq_true]
    exact fun ⟨hdepth, hl, hj, hr⟩ => ⟨hdepth, hl, ih hj, hr⟩
  | add _ =>
    simp only [Json.isMeaningful, fieldsAreMeaningful_eq_all, List.all_append, Bool.and_eq_true]
    exact fun ⟨hdepth, hfields, _⟩ => ⟨hdepth, hfields⟩
  | field _ _ ih =>
    simp only [Json.isMeaningful, fieldsAreMeaningful_eq_all, List.all_append, List.all_cons,
      Bool.and_eq_true]
    exact fun ⟨hdepth, hl, ⟨hkey, hj⟩, hr⟩ => ⟨hdepth, hl, ⟨hkey, ih hj⟩, hr⟩
  | body _ _ ih =>
    simp only [Json.isMeaningful, fieldsAreMeaningful_eq_all, List.all_cons, Bool.and_eq_true]
    exact fun ⟨hdepth, ⟨hkey, hj⟩, hr⟩ => ⟨hdepth, ⟨hkey, ih hj⟩, hr⟩
  | selfTaggedItems _ _ ih =>
    simp only [Json.isMeaningful, areMeaningful, Bool.and_eq_true] at ih ⊢
    exact fun ⟨hdepth, hkind, hitems⟩ => ⟨hdepth, hkind, (ih ⟨hdepth, hitems⟩).2⟩

end

/-! ## Records that are tagged by one of their fields -/

section
variable {double? : Doubles} {tagField kind : String} {j j' rest : Json}

/-- The tag of a record stands in one field, or in front of its items. -/
theorem selfTagged?_eq_some : selfTagged? double? tagField j = some (kind, rest) ↔
    j.isMeaningful double? maxDepth = true ∧
      ((∃ fields key, j = .obj fields ∧
          fields.filter (·.1 == some tagField) = [(key, .str (some kind))] ∧
          rest = .obj (fields.filter (! ·.1 == some tagField))) ∨
        ∃ items, j = .arr (.str (some kind) :: items) ∧ rest = .arr items) := by
  constructor
  · intro h
    unfold selfTagged? at h
    split at h
    · cases h
    · next hmeaningful =>
      refine ⟨by simpa using hmeaningful, ?_⟩
      split at h
      · split at h
        · next hfilter =>
          cases h
          exact .inl ⟨_, _, rfl, hfilter, rfl⟩
        · cases h
      · cases h
        exact .inr ⟨_, rfl, rfl⟩
      · cases h
  · rintro ⟨hmeaningful, ⟨fields, key, rfl, hfilter, rfl⟩ | ⟨items, rfl, rfl⟩⟩
    · simp [selfTagged?, hmeaningful, hfilter]
    · simp [selfTagged?, hmeaningful]

theorem not_edit_str {s : Shape} {text : Option String} : ¬ Edit s (.str text) j := by
  intro h
  cases h with
  | permuted hperm => cases hperm

/-- Where the tag stands once, as a text, the field that is edited is another one. -/
theorem key_ne_of_edit {s : Shape} {l r : Fields} {key k : Option String} {value value' : Json}
    (hfilter : (l ++ (key, value) :: r).filter (·.1 == some tagField) = [(k, .str (some kind))])
    (hedit : Edit s value value') : key ≠ some tagField := by
  rintro rfl
  have hmem : (some tagField, value) ∈ [(k, Json.str (some kind))] := by
    rw [← hfilter]
    simp
  cases List.mem_singleton.1 hmem
  exact not_edit_str hedit

theorem fields_edited {known : Known} {fields : Fields} {k : Option String} {o : Json}
    (hedit : Edit (.record ((tagField, .plain) :: known)) (.obj fields) o)
    (hfilter : fields.filter (·.1 == some tagField) = [(k, .str (some kind))]) :
    ∃ fields', o = .obj fields' ∧
      fields'.filter (·.1 == some tagField) = [(k, .str (some kind))] ∧
      Edit (.record known) (.obj (fields.filter (! ·.1 == some tagField)))
        (.obj (fields'.filter (! ·.1 == some tagField))) := by
  cases hedit with
  | permuted hperm =>
    cases hperm with
    | obj hfields =>
      have htag := hfields.filter (·.1 == some tagField)
      rw [hfilter] at htag
      exact ⟨_, rfl, List.perm_singleton.1 htag.symm, .permuted (.obj (hfields.filter _))⟩
    | field hj =>
      have hkey := key_ne_of_edit hfilter (.permuted (s := .plain) hj)
      refine ⟨_, rfl, by simpa [List.filter_append, hkey] using hfilter, ?_⟩
      simpa [List.filter_append, hkey] using .permuted (.field hj)
  | @add _ _ name value hname =>
    have hne : name ≠ tagField := fun he => hname (by simp [he])
    refine ⟨_, rfl, by simpa [List.filter_append, hne] using hfilter, ?_⟩
    simpa [List.filter_append, List.filter_cons, hne] using
      .add fun hmem => hname (List.mem_cons_of_mem _ hmem)
  | @field _ name s value value' l r hs hj =>
    have hkey := key_ne_of_edit hfilter hj
    have hne : name ≠ tagField := fun he => hkey (congrArg some he)
    have hs : (name, s) ∈ known := by simpa [hne] using hs
    refine ⟨_, rfl, by simpa [List.filter_append, hne] using hfilter, ?_⟩
    simpa [List.filter_append, List.filter_cons, hne] using .field hs hj

/-- **The tag is found wherever it stands**, if all of the record can be read; and the record without
the tag is edited as one of the kind that the tag names. -/
theorem selfTagged?_edited {variants : List (String × Known)}
    (hnodup : (variants.map Prod.fst).Nodup) (hedit : Edit (.selfTagged tagField variants) j j')
    (h : selfTagged? double? tagField j = some (kind, rest))
    (hmeaningful : j'.isMeaningful double? maxDepth = true) :
    ∃ rest', selfTagged? double? tagField j' = some (kind, rest') ∧
      ∀ known, (kind, known) ∈ variants → Edit (.record known) rest rest' := by
  have htags := (selfTagged?_eq_some.1 h).2
  cases hedit with
  | permuted hperm =>
    rcases htags with ⟨fields, key, rfl, hfilter, rfl⟩ | ⟨items, rfl, rfl⟩
    · obtain ⟨fields', rfl, hfilter', -⟩ :=
        fields_edited (.permuted hperm : Edit (.record [(tagField, .plain)]) _ _) hfilter
      refine ⟨_, selfTagged?_eq_some.2 ⟨hmeaningful, .inl ⟨_, _, rfl, hfilter', rfl⟩⟩,
        fun known _ => ?_⟩
      obtain ⟨_, ho, -, hrest⟩ :=
        fields_edited (.permuted hperm : Edit (.record ((tagField, .plain) :: known)) _ _) hfilter
      cases ho
      exact hrest
    · obtain ⟨l, v, v', r, hitems, rfl, hv⟩ := hperm.of_arr
      rcases l with _ | ⟨x, l⟩
      · cases hitems
        exact absurd (.permuted hv : Edit .plain _ _) not_edit_str
      · cases hitems
        exact ⟨_, selfTagged?_eq_some.2 ⟨hmeaningful, .inr ⟨_, rfl, rfl⟩⟩,
          fun _ _ => .permuted (.item hv)⟩
  | selfTagged hvariant hmem hfields =>
    rcases htags with ⟨fields, key, ho, hfilter, rfl⟩ | ⟨items, ho, -⟩
    · cases ho
      have htag := (List.mem_filter (p := (·.1 == some tagField))).2 ⟨hmem, by simp⟩
      rw [hfilter] at htag
      cases List.mem_singleton.1 htag
      obtain ⟨_, ho, hfilter', hrest⟩ := fields_edited hfields hfilter
      cases ho
      refine ⟨_, selfTagged?_eq_some.2 ⟨hmeaningful, .inl ⟨_, _, rfl, hfilter', rfl⟩⟩,
        fun known hknown => ?_⟩
      exact eq_of_mem_of_nodup hnodup hvariant hknown ▸ hrest
    · cases ho
  | selfTaggedItems hvariant hitems =>
    rcases htags with ⟨fields, key, ho, -⟩ | ⟨items, ho, rfl⟩
    · cases ho
    · cases ho
      exact ⟨_, selfTagged?_eq_some.2 ⟨hmeaningful, .inr ⟨_, rfl, rfl⟩⟩,
        fun known hknown => eq_of_mem_of_nodup hnodup hvariant hknown ▸ hitems⟩

end

/-- **A reader of self-tagged records respects the edits after which all can be read**, if it reads
only known kinds, and each of them with respect. -/
theorem respects_selfTagged {α : Type} {double? : Doubles} {tagField : String}
    {variants : List (String × Known)} {read : String × Json → Option α}
    (hnodup : (variants.map Prod.fst).Nodup)
    (h : ∀ kind rest a, read (kind, rest) = some a →
      ∃ known, (kind, known) ∈ variants ∧ Respects (.record known) fun rest => read (kind, rest))
    {j j' : Json} {a : α} (hedit : Edit (.selfTagged tagField variants) j j')
    (hmeaningful : j'.isMeaningful double? maxDepth = true)
    (hread : (j.selfTagged? double? tagField).bind read = some a) :
    (j'.selfTagged? double? tagField).bind read = some a := by
  obtain ⟨⟨kind, rest⟩, hj, ha⟩ := Option.bind_eq_some_iff.1 hread
  obtain ⟨rest', hj', hrest⟩ := selfTagged?_edited hnodup hedit hj hmeaningful
  obtain ⟨known, hknown, hrespects⟩ := h kind rest a ha
  exact Option.bind_eq_some_iff.2 ⟨_, hj', hrespects (hrest known hknown) ha⟩

end CloudDrive.Json
