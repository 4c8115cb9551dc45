import CloudDrive.Proofs.Time.Rfc3339
import CloudDrive.Wire.Operations
import CloudDrive.Wire.Settings
import CloudDrive.Wire.Views
import Mathlib.Data.List.Nodup

/-!
# What is written as JSON is read as it was

Each reader gives back the value whose JSON it is given.

* `list?_map_map`: a list is read item by item.
* `ofJson?_toJson` for each wire format. A time has to lie in the years 0 to 9999 (`Entry.InYears`),
  which are written with four digits, and is read as its written form tells it (`Entry.told`); a count
  of an outcome has 64 bits (`BatchOutcome.IsTold`).
-/

namespace CloudDrive

namespace Json

/-! ## Simple values -/

@[simp] theorem text?_text (s : String) : (text s).text? = some s := rfl

theorem natBelow?_nat {n bound : Nat} (h : n < bound) : (nat n).natBelow? bound = some n := if_pos h

theorem nat64?_nat {n : Nat} (h : n < UInt64.size) : (nat n).nat64? = some n := natBelow?_nat h

@[simp] theorem word64?_nat (w : UInt64) : (nat w.toNat).word64? = some w := by
  rw [word64?, nat64?_nat w.toNat_lt_size, Option.map_some, UInt64.ofNat_toNat]

@[simp] theorem word32?_nat (w : UInt32) : (nat w.toNat).word32? = some w := by
  rw [word32?, natBelow?_nat w.toNat_lt_size, Option.map_some, UInt32.ofNat_toNat]

@[simp] theorem byte?_nat (b : UInt8) : (nat b.toNat).byte? = some b := by
  rw [byte?, natBelow?_nat b.toNat_lt_size, Option.map_some, UInt8.ofNat_toNat]

theorem list?_map_map {α β : Type} {write : α → Json} {read : Json → Option β} {f : α → β}
    {l : List α} (h : ∀ a ∈ l, read (write a) = some (f a)) :
    list? read (.arr (l.map write)) = some (l.map f) := by
  show (l.map write).mapM read = some (l.map f)
  induction l with
  | nil => rfl
  | cons a l ih =>
    rw [List.map_cons, List.mapM_cons, h a List.mem_cons_self,
      ih fun a' ha => h a' (List.mem_cons_of_mem _ ha)]
    rfl

theorem list?_map {α : Type} {write : α → Json} {read : Json → Option α} {l : List α}
    (h : ∀ a ∈ l, read (write a) = some a) : list? read (.arr (l.map write)) = some l := by
  rw [list?_map_map (f := id) h, List.map_id]

theorem exists_of_mem_list? {α : Type} {read : Json → Option α} {j : Json} {l : List α} {a : α}
    (h : list? read j = some l) (ha : a ∈ l) : ∃ item, read item = some a := by
  unfold list? at h
  split at h
  · next items =>
    induction items generalizing l with
    | nil =>
      cases h
      cases ha
    | cons item items ih =>
      simp only [List.mapM_cons, Option.bind_eq_bind, Option.bind_eq_some_iff] at h
      obtain ⟨b, hb, l', hl', h⟩ := h
      cases h
      rcases List.mem_cons.1 ha with rfl | ha
      · exact ⟨item, hb⟩
      · exact ih ha hl'
  · cases h

@[simp] theorem list?_texts (ss : List String) : list? text? (texts ss) = some ss :=
  list?_map fun s _ => text?_text s

/-! ## Records -/

/-- A record whose fields have known names of their own is read with all its fields. -/
theorem record?_record {names : List String} {fields : List (String × Json)}
    (hknown : ∀ f ∈ fields, f.1 ∈ names) (hnodup : (fields.map (·.1)).Nodup) :
    (record fields).record? names = some fields := by
  have hkeys : (fields.map fun f => (some f.1, f.2)).all (·.1.isSome) = true := by simp
  have honce : names.all (occurrences · (fields.map fun f => (some f.1, f.2)) ≤ 1) = true := by
    refine List.all_eq_true.2 fun name _ => decide_eq_true ?_
    have hcount := List.nodup_iff_count_le_one.1 hnodup name
    rw [List.count, List.countP_map] at hcount
    rw [occurrences, List.countP_map]
    simpa [Function.comp_def] using hcount
  have hfields : (fields.map fun f => ((some f.1 : Option String), f.2)).filterMap
      (fun f => f.1.bind fun name => if names.contains name then some (name, f.2) else none) =
      fields := by
    rw [List.filterMap_map]
    refine (List.filterMap_congr fun f hf => ?_).trans List.filterMap_some
    simp [hknown f hf]
  simp only [record, record?, knownFields?, hkeys, honce, hfields]
  rfl

@[simp] theorem tagged?_record (tag : String) (body : Json) :
    (record [(tag, body)]).tagged? = some (tag, body) := rfl

/-! ## Values that are read as a whole -/

/-- The conversion takes every word of 64 bits. -/
def TakesWords (double? : Doubles) : Prop :=
  ∀ n < UInt64.size, (double? (.integer false n)).isSome = true

/-- Words of 64 bits are finite, by far. -/
theorem lt_infinite {n : Nat} (h : n < UInt64.size) : n < infinite := by
  have hsize : UInt64.size ≤ infinite := by decide +kernel
  exact Nat.lt_of_lt_of_le h hsize

theorem takesWords_nearest? : TakesWords nearest? := by
  intro n hn
  have hfinite : (Number.integer false n).isFinite = true := by
    rw [Number.isFinite, decide_eq_true_eq]
    exact lt_infinite hn
  rw [nearest?, if_pos hfinite]
  rfl

section
variable {double? : Doubles}

@[simp] theorem isMeaningful_text (depth : Nat) (s : String) :
    (text s).isMeaningful double? depth = true := rfl

theorem TakesWords.isMeaningful_nat (hwords : TakesWords double?) {n : Nat} (h : n < UInt64.size)
    (depth : Nat) : (nat n).isMeaningful double? depth = true := by
  rw [nat, isMeaningful]
  exact hwords n h

theorem areMeaningful_map {α : Type} {write : α → Json} {depth : Nat} {l : List α}
    (h : ∀ a ∈ l, (write a).isMeaningful double? depth = true) :
    areMeaningful double? depth (l.map write) = true := by
  induction l with
  | nil => rfl
  | cons a l ih =>
    rw [List.map_cons, areMeaningful, h a List.mem_cons_self,
      ih fun a' ha => h a' (List.mem_cons_of_mem _ ha)]
    rfl

@[simp] theorem isMeaningful_texts (depth : Nat) (ss : List String) :
    (texts ss).isMeaningful double? (depth + 1) = true :=
  areMeaningful_map fun s _ => isMeaningful_text depth s

theorem selfTagged?_obj {tagField tag : String} {key : Option String}
    {fields : List (Option String × Json)}
    (hmeaningful : (obj fields).isMeaningful double? maxDepth = true)
    (htag : fields.filter (·.1 == some tagField) = [(key, .str (some tag))]) :
    selfTagged? double? tagField (.obj fields) =
      some (tag, .obj (fields.filter (! ·.1 == some tagField))) := by
  simp only [selfTagged?, hmeaningful, htag]
  rfl

/-- The tag of a record is taken off, if no other field has its name. -/
theorem selfTagged?_record {tagField kind : String} {fields : List (String × Json)}
    (hkeys : ∀ f ∈ fields, f.1 ≠ tagField)
    (hmeaningful :
      (record ((tagField, text kind) :: fields)).isMeaningful double? maxDepth = true) :
    selfTagged? double? tagField (record ((tagField, text kind) :: fields)) =
      some (kind, record fields) := by
  have hne : ∀ f ∈ fields.map fun f => ((some f.1 : Option String), f.2),
      (f.1 == some tagField) = false := by
    intro f hf
    obtain ⟨g, hg, rfl⟩ := List.mem_map.1 hf
    simpa using hkeys g hg
  have hothers := List.filter_eq_nil_iff.2 fun f hf => Bool.eq_false_iff.1 (hne f hf)
  have hrest := List.filter_eq_self.2 fun f hf => (congrArg not (hne f hf)).trans Bool.not_false
  have htag : ((some tagField, text kind) :: fields.map fun f => (some f.1, f.2)).filter
      (·.1 == some tagField) = [(some tagField, .str (some kind))] := by
    simp [hothers, text]
  rw [record, List.map_cons] at hmeaningful ⊢
  rw [selfTagged?_obj hmeaningful htag]
  simp [record, hrest]

end

end Json

/-! ## Entries and listings -/

/-- The time of the entry lies in a year that is written with four digits. -/
def Entry.InYears (e : Entry) : Prop := 0 ≤ e.modified.date.year ∧ e.modified.date.year ≤ 9999

instance (e : Entry) : Decidable e.InYears := inferInstanceAs (Decidable (_ ∧ _))

/-- The time of the entry is told by its written form. -/
def Entry.IsTold (e : Entry) : Prop := e.InYears ∧ e.modified.LeapsAtEnd

instance (e : Entry) : Decidable e.IsTold := inferInstanceAs (Decidable (_ ∧ _))

/-- The entry that the written form tells. -/
def Entry.told (e : Entry) : Entry := { e with modified := e.modified.told }

theorem Entry.told_eq_self_iff {e : Entry} : e.told = e ↔ e.modified.LeapsAtEnd := by
  rw [← Instant.told_eq_self_iff]
  refine ⟨fun h => congrArg Entry.modified h, fun h => ?_⟩
  rw [Entry.told, h]

/-- A file that was changed in a leap second at half a minute. -/
def Entry.leaping : Entry :=
  .file "/a" 0 { date := .epoch, second := 43230, nano := 1333333333 }

/-- The same file, changed a third of a second into the second after. -/
def Entry.landed : Entry :=
  .file "/a" 0 { date := .epoch, second := 43231, nano := 333333333 }

theorem Entry.told_leaping : Entry.leaping.told = Entry.landed := by decide

theorem Instant.ofJson?_toJson {t : Instant} (hpos : 0 ≤ t.date.year) (hle : t.date.year ≤ 9999) :
    Instant.ofJson? t.toJson = some t.told :=
  (Option.bind_some _ _).trans (parse?_text hpos hle)

theorem EntryKind.ofJson?_toJson (k : EntryKind) : EntryKind.ofJson? k.toJson = some k := by
  cases k <;> decide

open Json

theorem Entry.ofJson?_toJson {e : Entry} (h : e.InYears) :
    Entry.ofJson? e.toJson = some e.told := by
  rw [Entry.ofJson?, Entry.toJson, record?_record (by simp [fieldNames]) (by simp)]
  simp [Record.required, Record.defaulted, EntryKind.ofJson?_toJson,
    Instant.ofJson?_toJson h.1 h.2, Entry.told]

theorem Entry.IsTold.ofJson?_toJson {e : Entry} (h : e.IsTold) :
    Entry.ofJson? e.toJson = some e := by
  rw [Entry.ofJson?_toJson h.1, Entry.told_eq_self_iff.2 h.2]

theorem Entry.leapsAtEnd_of_ofJson? {j : Json} {e : Entry} (h : Entry.ofJson? j = some e) :
    e.modified.LeapsAtEnd := by
  simp only [Entry.ofJson?, Option.bind_eq_bind, Option.bind_eq_some_iff] at h
  obtain ⟨r, -, name, -, path, -, kind, -, size, -, modified, hmodified, owner, -, h⟩ := h
  cases h
  obtain ⟨field, -, hfield⟩ := Option.bind_eq_some_iff.1 hmodified
  obtain ⟨text, -, htext⟩ := Option.bind_eq_some_iff.1 hfield
  exact Instant.leapsAtEnd_of_parse? htext

theorem Path.Crumb.ofJson?_toJson (c : Path.Crumb) : Path.Crumb.ofJson? c.toJson = some c := by
  rw [Path.Crumb.ofJson?, Path.Crumb.toJson, record?_record (by simp) (by simp)]
  simp [Record.required]

theorem Listing.ofJson?_toJson {l : Listing} (h : ∀ e ∈ l.entries, e.IsTold) :
    Listing.ofJson? l.toJson = some l := by
  have hcrumbs := list?_map fun c (_ : c ∈ l.crumbs) => Path.Crumb.ofJson?_toJson c
  have hentries := list?_map fun e he => (h e he).ofJson?_toJson
  rw [Listing.ofJson?, Listing.toJson, record?_record (by simp) (by simp)]
  simp [Record.required, Record.defaulted, hcrumbs, hentries]

/-! ## What the session keeps about its directory -/

theorem View.Preset.oneOf?_label (p : View.Preset) :
    (text p.label).oneOf? View.Preset.wireNames = some p := by
  cases p <;> decide

theorem View.SortMode.oneOf?_wireName (m : View.SortMode) :
    (text m.wireName).oneOf? View.SortMode.wireNames = some m := by
  cases m <;> decide

theorem View.Options.ofJson?_toJson (o : View.Options) :
    View.Options.ofJson? o.toJson = some o := by
  rw [View.Options.ofJson?, View.Options.toJson, record?_record (by simp) (by simp)]
  simp [Record.defaulted, View.Preset.oneOf?_label, View.SortMode.oneOf?_wireName, bool?]

theorem Cache.Patch.ofJson?_toJson (p : Cache.Patch) : Cache.Patch.ofJson? p.toJson = some p := by
  cases p with
  | remove removed =>
    rw [Cache.Patch.ofJson?, Cache.Patch.toJson, tagged?_record]
    simp [record?_record, Record.required]
  | move moves =>
    have hmoves : list? (pair? text? text?) (.arr (moves.map fun m => texts [m.1, m.2])) =
        some moves := list?_map fun m _ => rfl
    rw [Cache.Patch.ofJson?, Cache.Patch.toJson, tagged?_record]
    simp [record?_record, Record.required, hmoves]

theorem Cache.Scope.ofJson?_toJson (s : Cache.Scope) : Cache.Scope.ofJson? s.toJson = some s := by
  cases s with
  | allListings => rfl
  | paths listed =>
    have hunit : (record [("Paths", texts listed)]).unit? = none := rfl
    rw [Cache.Scope.ofJson?, Cache.Scope.toJson, hunit, tagged?_record]
    simp
  | subtree ancestor =>
    have hunit : (record [("Subtree", text ancestor)]).unit? = none := rfl
    rw [Cache.Scope.ofJson?, Cache.Scope.toJson, hunit, tagged?_record]
    simp

/-! ## Operations and batches -/

theorem MoveRequest.ofJson?_toJson (m : MoveRequest) : MoveRequest.ofJson? m.toJson = some m := by
  rw [MoveRequest.ofJson?, MoveRequest.toJson, record?_record (by simp) (by simp)]
  simp [Record.required]

theorem MoveFailure.ofJson?_toJson (f : MoveFailure) : MoveFailure.ofJson? f.toJson = some f := by
  rw [MoveFailure.ofJson?, MoveFailure.toJson, record?_record (by simp) (by simp)]
  simp [Record.required]

/-- The counts of the outcome fit into 64 bits. -/
structure BatchOutcome.IsTold (o : BatchOutcome) : Prop where
  successCount : o.successCount < UInt64.size
  total : o.total < UInt64.size
  conflicts : o.conflicts < UInt64.size

theorem BatchOutcome.ofJson?_toJson {o : BatchOutcome} (h : o.IsTold) :
    BatchOutcome.ofJson? o.toJson = some o := by
  have hfailures := list?_map fun f (_ : f ∈ o.failures) => MoveFailure.ofJson?_toJson f
  rw [BatchOutcome.ofJson?, BatchOutcome.toJson, record?_record (by simp) (by simp)]
  simp [Record.required, nat64?_nat h.successCount, nat64?_nat h.total, nat64?_nat h.conflicts,
    hfailures]

theorem Remote.UploadFile.ofJson?_toJson (f : Remote.UploadFile) :
    Remote.UploadFile.ofJson? f.toJson = some f := by
  have hdata : list? byte? (.arr (f.data.map fun b => nat b.toNat)) = some f.data :=
    list?_map fun b _ => byte?_nat b
  rw [Remote.UploadFile.ofJson?, Remote.UploadFile.toJson, record?_record (by simp) (by simp)]
  simp [Record.required, hdata]

section
variable {double? : Doubles} (hwords : TakesWords double?) (o : Operation)
include hwords

theorem Operation.isMeaningful_toJson : o.toJson.isMeaningful double? maxDepth = true := by
  have hdata : ∀ (data : List UInt8) (depth : Nat),
      areMeaningful double? depth (data.map fun b => nat b.toNat) = true := fun data depth =>
    areMeaningful_map fun b _ => hwords.isMeaningful_nat (b.toNat_lt.trans (by decide)) depth
  cases o <;> simp [Operation.toJson, Remote.UploadFile.toJson, record, isMeaningful,
    fieldsAreMeaningful, maxDepth, hdata]

theorem Operation.ofJsonBy?_toJson : Operation.ofJsonBy? double? o.toJson = some o := by
  have hmeaningful := Operation.isMeaningful_toJson hwords o
  cases o with
  | upload file directory =>
    rw [Operation.toJson] at hmeaningful ⊢
    rw [Operation.ofJsonBy?, selfTagged?_record (by simp) hmeaningful]
    simp [Operation.ofFields?, Record.required, record?_record,
      Remote.UploadFile.ofJson?_toJson]
  | _ =>
    rw [Operation.toJson] at hmeaningful ⊢
    rw [Operation.ofJsonBy?, selfTagged?_record (by simp) hmeaningful]
    simp [Operation.ofFields?, Record.required, record?_record]

end

/-! ## Settings and failures -/

theorem RetryPolicy.ofJson?_toJson (p : RetryPolicy) : RetryPolicy.ofJson? p.toJson = some p := by
  rw [RetryPolicy.ofJson?, RetryPolicy.toJson, record?_record (by simp) (by simp)]
  simp [Record.required]

theorem Remote.FailureKind.ofJson?_wireName (k : Remote.FailureKind) :
    Remote.FailureKind.ofJson? (text k.wireName) = some k := by
  cases k <;> decide

theorem Remote.Failure.ofJson?_toJson (f : Remote.Failure) :
    Remote.Failure.ofJson? f.toJson = some f := by
  rw [Remote.Failure.ofJson?, Remote.Failure.toJson, record?_record (by simp) (by simp)]
  simp [Record.required, Remote.FailureKind.ofJson?_wireName]

end CloudDrive
