import CloudDrive.Proofs.Json.Spelling
import CloudDrive.Proofs.Store.Undo
import CloudDrive.Proofs.Wire.RoundTrip

/-!
# Fixtures lose nothing

* `find?_ofEntries`: of several entries with one path, a catalog keeps the last.
* `ofText?_eq`: a fixture tells the catalog of the entries that it writes down.
* `ofText?_toText_and_find?`: a catalog is read again from its text, and a text tells the last entry
  for each path.
-/

namespace CloudDrive.Store.Catalog

open Json (Record list?)

/-! ## The last entry for a path -/

theorem find?_foldl_insert (entries : List Entry) (c : Catalog) (p : String) :
    (entries.foldl insert c).find? p = (entries.filter (·.path == p)).getLast?.or (c.find? p) := by
  induction entries generalizing c with
  | nil => rfl
  | cons e entries ih =>
    rw [List.foldl_cons, ih, find?_insert]
    by_cases h : e.path = p
    · rw [List.filter_cons_of_pos (by simpa using h), if_pos h.symm, List.getLast?_cons]
      cases (entries.filter (·.path == p)).getLast? <;> rfl
    · rw [List.filter_cons_of_neg (by simpa using h), if_neg fun he => h he.symm]

/-- Of several entries with one path, a catalog keeps the last. -/
theorem find?_ofEntries (entries : List Entry) (p : String) :
    (ofEntries entries).find? p = (entries.filter (·.path == p)).getLast? := by
  rw [ofEntries, find?_foldl_insert]
  exact Option.or_none

theorem getLast?_filter_entries (c : Catalog) (p : String) :
    (c.entries.filter (·.path == p)).getLast? = c.find? p := by
  have hsorted := c.sorted.sublist (List.filter_sublist (p := (·.path == p)))
  have hpath : ∀ e ∈ c.entries.filter (·.path == p), e.path = p := fun e he => by
    simpa using (List.mem_filter.1 he).2
  rw [find?, ← List.head?_filter]
  generalize c.entries.filter (·.path == p) = found at hsorted hpath
  rcases found with _ | ⟨e, _ | ⟨e', found⟩⟩
  · rfl
  · rfl
  · have hlt := (List.pairwise_cons.1 hsorted).1 e' List.mem_cons_self
    rw [hpath e (by simp), hpath e' (by simp)] at hlt
    exact absurd hlt (String.lt_irrefl p)

theorem ofEntries_entries (c : Catalog) : ofEntries c.entries = c :=
  ext_find? fun p => by rw [find?_ofEntries, getLast?_filter_entries]

/-! ## Texts -/

/-- The entries that a fixture writes down, in their order. -/
def writtenEntries? (text : String) : Option (List Entry) := do
  let r ← (← Json.parse? text).record? ["entries"]
  r.required "entries" (list? Entry.ofJson?)

theorem ofText?_eq (text : String) : ofText? text = (writtenEntries? text).map ofEntries := by
  cases hj : Json.parse? text with
  | none => simp [ofText?, writtenEntries?, hj]
  | some j =>
    cases hr : j.record? ["entries"] with
    | none => simp [ofText?, writtenEntries?, ofJson?, hj, hr]
    | some r => simp [ofText?, writtenEntries?, ofJson?, hj, hr, Option.map_eq_bind]

/-- The catalog that the text of a catalog tells. -/
def told (c : Catalog) : Catalog where
  entries := c.entries.map Entry.told
  sorted := List.pairwise_map.2 c.sorted

theorem told_eq_self_iff {c : Catalog} :
    c.told = c ↔ ∀ e ∈ c.entries, e.modified.LeapsAtEnd := by
  have hentries : c.told = c ↔ c.entries.map Entry.told = c.entries.map id := by
    rw [List.map_id]
    exact ⟨congrArg entries, fun h => ext_entries h⟩
  rw [hentries, List.map_inj_left]
  exact forall₂_congr fun e _ => Entry.told_eq_self_iff

theorem writtenEntries?_toText {c : Catalog} (h : ∀ e ∈ c.entries, e.InYears) :
    writtenEntries? c.toText = some c.told.entries := by
  have hentries := Json.list?_map_map fun e he => Entry.ofJson?_toJson (h e he)
  rw [writtenEntries?, toText, Json.parse?_pretty, toJson]
  simp [Json.record?_record, Record.required, hentries, told]

theorem ofText?_toText {c : Catalog} (h : ∀ e ∈ c.entries, e.InYears) :
    ofText? c.toText = some c.told := by
  rw [ofText?_eq, writtenEntries?_toText h, Option.map_some, ofEntries_entries]

theorem leapsAtEnd_of_writtenEntries? {text : String} {entries : List Entry}
    (h : writtenEntries? text = some entries) : ∀ e ∈ entries, e.modified.LeapsAtEnd := by
  intro e he
  simp only [writtenEntries?, Option.bind_eq_bind, Option.bind_eq_some_iff] at h
  obtain ⟨_, -, _, -, h⟩ := h
  obtain ⟨field, -, hfield⟩ := Option.bind_eq_some_iff.1 h
  obtain ⟨item, hitem⟩ := Json.exists_of_mem_list? hfield he
  exact Entry.leapsAtEnd_of_ofJson? hitem

/-- **Fixtures lose nothing that their texts tell.** A catalog whose times lie in years of four digits
is read again from its text, and exactly as it was unless a time lies in a leap second inside a
minute, which is read as the second after it. A text that tells a catalog writes down entries, of
which the catalog has the last one for each path; saved and loaded once more, it is the same. -/
theorem ofText?_toText_and_find? :
    (∀ c : Catalog, (∀ e ∈ c.entries, e.InYears) →
      ∃ c', ofText? c.toText = some c' ∧ c'.entries = c.entries.map Entry.told ∧
        (c' = c ↔ ∀ e ∈ c.entries, e.modified.LeapsAtEnd)) ∧
      ∀ (text : String) (c : Catalog), ofText? text = some c →
        ∃ entries, writtenEntries? text = some entries ∧
          (∀ p, c.find? p = (entries.filter (·.path == p)).getLast?) ∧
          ((∀ e ∈ entries, e.InYears) → ofText? c.toText = some c) := by
  refine ⟨fun c h => ⟨c.told, ofText?_toText h, rfl, told_eq_self_iff⟩, fun text c h => ?_⟩
  rw [ofText?_eq] at h
  obtain ⟨entries, hentries, rfl⟩ := Option.map_eq_some_iff.1 h
  -- What the catalog holds stands in the text.
  have hmem : ∀ e ∈ (ofEntries entries).entries, e ∈ entries := fun e he => by
    rw [mem_entries, find?_ofEntries] at he
    exact (List.mem_filter.1 (List.mem_of_getLast? he)).1
  refine ⟨entries, hentries, find?_ofEntries entries, fun hyears => ?_⟩
  have htold : (ofEntries entries).told = ofEntries entries :=
    told_eq_self_iff.2 fun e he => leapsAtEnd_of_writtenEntries? hentries e (hmem e he)
  rw [ofText?_toText fun e he => hyears e (hmem e he), htold]

/-- A file that was changed a tenth of a second into the second after the leap second of
`Entry.leaping`. -/
def nextEntry : Entry :=
  .file "/b" 0 { Entry.landed.modified with nano := 100000000, nano_lt := by decide }

/-- A file that was changed in a leap second at half a minute is not read as it was: it was the older
of two files, and is read as the newer. -/
theorem ofText?_toText_leaping :
    (∀ e ∈ (ofEntries [Entry.leaping, nextEntry]).entries, e.InYears) ∧
      ofText? (ofEntries [Entry.leaping, nextEntry]).toText =
        some (ofEntries [Entry.landed, nextEntry]) ∧
      ofEntries [Entry.landed, nextEntry] ≠ ofEntries [Entry.leaping, nextEntry] ∧
      Entry.leaping.modified.isLE nextEntry.modified = true ∧
      Entry.landed.modified.isLE nextEntry.modified = false := by
  have hyears : ∀ e ∈ (ofEntries [Entry.leaping, nextEntry]).entries, e.InYears := by decide
  have htold : (ofEntries [Entry.leaping, nextEntry]).told = ofEntries [Entry.landed, nextEntry] :=
    ext_entries (by decide)
  exact ⟨hyears, (ofText?_toText hyears).trans (congrArg some htold), by decide, by decide, by decide⟩

/-- A text in which one path stands twice, the first time without owner and size. -/
def twiceText : String :=
  "\x7b\"entries\": [\x7b\"path\": \"/\\u0061\", \"name\": \"a\", \"type\": \"FILE\", " ++
    "\"lastModified\": \"2001-01-01T00:00:00Z\"\x7d, \x7b\"path\": \"/a\", \"name\": \"a\", " ++
    "\"type\": \"FILE\", \"size\": 5, \"lastModified\": \"2001-06-30T23:59:60.5Z\", " ++
    "\"owner\": \"\\n\"\x7d]\x7d"

/-- The entries of the text; the last was changed in a leap second. -/
def twiceEntries : List Entry :=
  [.file "/a" 0 ((Instant.parse? "2001-01-01T00:00:00Z").getD .epoch),
    ⟨"a", "/a", .file, 5, (Instant.parse? "2001-06-30T23:59:60.5Z").getD .epoch, "\n"⟩]

theorem ofText?_twiceText :
    ofText? twiceText = some (ofEntries twiceEntries) ∧
      (∀ p, (ofEntries twiceEntries).find? p = (twiceEntries.filter (·.path == p)).getLast?) ∧
      ofText? (ofEntries twiceEntries).toText = some (ofEntries twiceEntries) := by
  have hwritten : writtenEntries? twiceText = some twiceEntries := by
    have hchars : twiceText.toList = _ := String.toList_append
    rw [String.toList_append, String.toList_append] at hchars
    rw [writtenEntries?, Json.parse?, hchars]
    -- each literal is its list of characters; to decode its bytes would take far longer
    iterate 4 rw [show String.toList _ = _ from String.toList_ofList]
    decide +kernel
  have htext : ofText? twiceText = some (ofEntries twiceEntries) := by rw [ofText?_eq, hwritten]; rfl
  have hyears : ∀ e ∈ twiceEntries, e.InYears := by decide
  obtain ⟨entries, hentries, hfind, hagain⟩ := ofText?_toText_and_find?.2 twiceText _ htext
  obtain rfl : twiceEntries = entries := Option.some.inj (hwritten.symm.trans hentries)
  exact ⟨htext, hfind, hagain hyears⟩

end CloudDrive.Store.Catalog
