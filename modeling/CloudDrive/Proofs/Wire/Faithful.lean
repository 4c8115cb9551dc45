import CloudDrive.Proofs.Json.Spelling
import CloudDrive.Proofs.Json.Tagged
import CloudDrive.Proofs.Wire.RoundTrip
import Mathlib.Logic.Relation

/-!
# The wire formats are faithful

What is written is read as it was, and no reader notices a reordering of fields or a field that it
does not know. The operations alone are read as a whole before their kind is known, so what is added
to them has to be readable, too.

* `shape` of each format: where its records stand. `respects_ofJson?`: its reader respects edits.
* `Faithful`, `wireFormats_faithful`: the two halves together, for texts.
* `wireFormats_unfaithful`: what is not told, and what may not be added.
-/

namespace CloudDrive

open Json

/-! ## Faithful formats -/

/-- What a reader gives for the value of a text. -/
def Json.decode {α : Type} (read : Json → Option α) (text : String) : Option α :=
  (parse? text).bind read

/-- A text that tells `j` is edited, step by step, into one that tells `j'`. -/
def Json.Edits (s : Shape) (j j' : Json) : Prop := Relation.ReflTransGen (Edit s) j j'

/-- The fields of objects are reordered, step by step. -/
def Json.Reorders (j j' : Json) : Prop := Relation.ReflTransGen Permuted j j'

section
variable {α : Type} {s : Shape} {read : Json → Option α} {j j' : Json} {a : α}

theorem Json.Reorders.edits (h : Reorders j j') : Edits s j j' :=
  Relation.ReflTransGen.mono (fun _ _ => Edit.permuted) _ _ h

theorem Json.Reorders.isMeaningful_eq {double? : Doubles} (h : Reorders j j') (depth : Nat) :
    j'.isMeaningful double? depth = j.isMeaningful double? depth := by
  induction h with
  | refl => rfl
  | tail _ hstep ih => rw [hstep.isMeaningful_eq, ih]

/-- A reader that respects each edit to which a test has no objection respects a row of edits, if the
test has none to the result, and none to what comes before. -/
theorem Json.Edits.respected {whole : Json → Prop}
    (hback : ∀ {i k : Json}, Edit s i k → whole k → whole i)
    (hstep : ∀ {i k : Json} {a : α}, Edit s i k → whole k → read i = some a → read k = some a)
    (h : Edits s j j') (hwhole : whole j') (hread : read j = some a) : read j' = some a := by
  induction h with
  | refl => exact hread
  | tail _ hedit ih => exact hstep hedit hwhole (ih (hback hedit hwhole))

end

/-- A format is faithful: a value that can be told is read from what is written for it, compactly or
with indentation; and whatever is read from a text is read from every text that comes from it by
reordering fields, or by adding fields that no record knows, if the result is readable as a whole. -/
structure Json.Faithful {α : Type} (s : Shape) (write : α → Json) (read : Json → Option α)
    (told : α → Prop) (whole : Json → Prop) : Prop where
  written : ∀ a, told a →
    decode read (write a).compact = some a ∧ decode read (write a).pretty = some a
  reordered : ∀ {text text' : String} {j j' : Json} {a : α}, parse? text = some j →
    parse? text' = some j' → Reorders j j' → decode read text = some a →
    decode read text' = some a
  edited : ∀ {text text' : String} {j j' : Json} {a : α}, parse? text = some j →
    parse? text' = some j' → Edits s j j' → whole j' → decode read text = some a →
    decode read text' = some a

/-- A format whose values are read again and whose reader respects edits is faithful. -/
theorem Json.Faithful.intro {α : Type} {s : Shape} {write : α → Json} {read : Json → Option α}
    {told : α → Prop} {whole : Json → Prop} (hwritten : ∀ a, told a → read (write a) = some a)
    (hback : ∀ {i k : Json}, Edit s i k → whole k → whole i)
    (hreordered : ∀ {i k : Json} {a : α}, Reorders i k → read i = some a → whole k)
    (hstep : ∀ {i k : Json} {a : α}, Edit s i k → whole k → read i = some a → read k = some a) :
    Faithful s write read told whole where
  written a ha := by
    simp only [decode, parse?_compact, parse?_pretty, Option.bind_some]
    exact ⟨hwritten a ha, hwritten a ha⟩
  reordered := by
    intro text text' j j' a hj hj' h hread
    simp only [decode, hj, hj', Option.bind_some] at hread ⊢
    exact h.edits.respected hback hstep (hreordered h hread) hread
  edited := by
    intro text text' j j' a hj hj' h hwhole hread
    simp only [decode, hj, hj', Option.bind_some] at hread ⊢
    exact h.respected hback hstep hwhole hread

theorem Json.Respects.faithful {α : Type} {s : Shape} {write : α → Json} {read : Json → Option α}
    {told : α → Prop} (h : Respects s read) (hwritten : ∀ a, told a → read (write a) = some a) :
    Faithful s write read told fun _ => True :=
  .intro hwritten (fun _ _ => trivial) (fun _ _ => trivial) fun hedit _ => h hedit

/-! ## Entries and listings -/

/-- The shape of a record of simple values. -/
def Json.Shape.simple (names : List String) : Shape := .record (names.map (·, .plain))

def Entry.shape : Shape := .simple Entry.fieldNames

def Path.Crumb.shape : Shape := .simple ["name", "path"]

def Listing.shape : Shape :=
  .record [("currentPath", .plain), ("breadcrumbs", .list Path.Crumb.shape),
    ("items", .list Entry.shape)]

theorem respects_word64? : Respects .plain word64? := (respects_natBelow? _).map _

theorem Entry.respects_ofJson? : Respects Entry.shape Entry.ofJson? :=
  respects_record (by decide) <|
    (stable_required (by simp [Entry.fieldNames]) respects_text?).bind fun _ =>
    (stable_required (by simp [Entry.fieldNames]) respects_text?).bind fun _ =>
    (stable_required (by simp [Entry.fieldNames]) (respects_oneOf? EntryKind.wireNames)).bind fun _ =>
    (stable_defaulted (by simp [Entry.fieldNames]) 0 respects_word64?).bind fun _ =>
    (stable_required (by simp [Entry.fieldNames]) (respects_text?.bind _)).bind fun _ =>
    (stable_defaulted (by simp [Entry.fieldNames]) "" respects_text?).bind fun _ => stable_pure _

theorem Path.Crumb.respects_ofJson? : Respects Path.Crumb.shape Path.Crumb.ofJson? :=
  respects_twoTexts (by decide) Path.Crumb.mk

theorem Listing.respects_ofJson? : Respects Listing.shape Listing.ofJson? :=
  respects_record (by decide) <|
    (stable_required (by simp) respects_text?).bind fun _ =>
    (stable_defaulted (by simp) [] (respects_list? Path.Crumb.respects_ofJson?)).bind fun _ =>
    (stable_required (by simp) (respects_list? Entry.respects_ofJson?)).bind fun _ => stable_pure _

/-! ## What the session keeps about its directory -/

def View.Options.shape : Shape := .simple ["search", "show_hidden", "preset", "sort"]

def Cache.Patch.shape : Shape :=
  .tagged [("Remove", .record [("paths", .list .plain)]), ("Move", .record [("moves", .list .plain)])]

def Cache.Scope.shape : Shape := .tagged [("Paths", .list .plain), ("Subtree", .plain)]

theorem View.Options.respects_ofJson? : Respects View.Options.shape View.Options.ofJson? :=
  respects_record (by decide) <|
    (stable_defaulted (by simp) "" respects_text?).bind fun _ =>
    (stable_defaulted (by simp) false respects_bool?).bind fun _ =>
    (stable_defaulted (by simp) .all (respects_oneOf? View.Preset.wireNames)).bind fun _ =>
    (stable_defaulted (by simp) .nameAsc (respects_oneOf? View.SortMode.wireNames)).bind fun _ =>
    stable_pure _

theorem Cache.Patch.respects_ofJson? : Respects Cache.Patch.shape Cache.Patch.ofJson? := by
  refine respects_tagged (by decide) fun tag body patch h => ?_
  by_cases hremove : tag = "Remove"
  · subst hremove
    exact ⟨_, List.mem_cons_self, respects_oneList respects_text? Cache.Patch.remove⟩
  by_cases hmove : tag = "Move"
  · subst hmove
    exact ⟨_, List.mem_cons_of_mem _ List.mem_cons_self,
      respects_oneList (respects_pair? respects_text? respects_text?) Cache.Patch.move⟩
  · simp [hremove, hmove] at h

theorem Cache.Scope.respects_ofJson? : Respects Cache.Scope.shape Cache.Scope.ofJson? := by
  intro j j' scope hedit hread
  unfold Cache.Scope.ofJson? at hread ⊢
  split at hread
  · next hunit => rwa [if_pos (unit?_edited hedit hunit)]
  · -- Only a scope with a body is left, and its tag is not the name of the one without.
    have hread' := respects_tagged (by decide) (fun tag body scope h => ?_) hedit hread
    · obtain ⟨⟨tag, body⟩, hj', hbody⟩ := Option.bind_eq_some_iff.1 hread'
      have hne : tag ≠ "AllListings" := by
        rintro rfl
        cases hbody
      rwa [if_neg (unit?_ne_of_tagged? hj' hne)]
    · by_cases hpaths : tag = "Paths"
      · subst hpaths
        exact ⟨_, List.mem_cons_self, (respects_list? respects_text?).bind _⟩
      by_cases hsubtree : tag = "Subtree"
      · subst hsubtree
        exact ⟨_, List.mem_cons_of_mem _ List.mem_cons_self, respects_text?.bind _⟩
      · simp [hpaths, hsubtree] at h

/-! ## Operations and batches -/

def MoveRequest.shape : Shape := .simple ["source_path", "destination_path"]

def MoveFailure.shape : Shape := .simple ["source_path", "reason"]

def BatchOutcome.shape : Shape :=
  .record [("success_count", .plain), ("failures", .list MoveFailure.shape), ("total", .plain),
    ("conflicts", .plain)]

def Remote.UploadFile.shape : Shape := .record [("name", .plain), ("data", .list .plain)]

/-- The kinds of operations with their fields. -/
def Operation.kinds : List (String × Known) :=
  [("move_entries", [("sources", .list .plain), ("destination", .plain)]),
    ("move_to_trash", [("sources", .list .plain)]),
    ("restore_from_trash", [("names", .list .plain)]),
    ("delete_entries", [("paths", .list .plain)]),
    ("create_directory", [("parent", .plain), ("name", .plain)]),
    ("rename", [("path", .plain), ("new_name", .plain)]),
    ("upload", [("file", Remote.UploadFile.shape), ("directory", .plain)])]

def Operation.shape : Shape := .selfTagged "op" Operation.kinds

theorem MoveRequest.respects_ofJson? : Respects MoveRequest.shape MoveRequest.ofJson? :=
  respects_twoTexts (by decide) MoveRequest.mk

theorem MoveFailure.respects_ofJson? : Respects MoveFailure.shape MoveFailure.ofJson? :=
  respects_twoTexts (by decide) MoveFailure.mk

theorem BatchOutcome.respects_ofJson? : Respects BatchOutcome.shape BatchOutcome.ofJson? :=
  respects_record (by decide) <|
    (stable_required (by simp) (respects_natBelow? _)).bind fun _ =>
    (stable_required (by simp) (respects_list? MoveFailure.respects_ofJson?)).bind fun _ =>
    (stable_required (by simp) (respects_natBelow? _)).bind fun _ =>
    (stable_required (by simp) (respects_natBelow? _)).bind fun _ => stable_pure _

theorem Remote.UploadFile.respects_ofJson? :
    Respects Remote.UploadFile.shape Remote.UploadFile.ofJson? :=
  respects_record (by decide) <|
    (stable_required (by simp) respects_text?).bind fun _ =>
    (stable_required (by simp) (respects_list? ((respects_natBelow? _).map _))).bind fun _ =>
    stable_pure _

theorem Operation.respects_ofFields? {kind : String} {known : Known}
    (h : (kind, known) ∈ Operation.kinds) : Respects (.record known) (Operation.ofFields? kind) := by
  simp only [Operation.kinds, List.mem_cons, List.not_mem_nil, or_false, Prod.mk.injEq] at h
  rcases h with ⟨rfl, rfl⟩ | ⟨rfl, rfl⟩ | ⟨rfl, rfl⟩ | ⟨rfl, rfl⟩ | ⟨rfl, rfl⟩ | ⟨rfl, rfl⟩ |
    ⟨rfl, rfl⟩
  · refine respects_record (by decide) ?_
    exact (stable_required (by simp) (respects_list? respects_text?)).bind fun _ =>
      (stable_required (by simp) respects_text?).bind fun _ => stable_pure _
  · exact respects_oneList respects_text? Operation.moveToTrash
  · exact respects_oneList respects_text? Operation.restoreFromTrash
  · exact respects_oneList respects_text? Operation.deleteEntries
  · exact respects_twoTexts (by decide) Operation.createDirectory
  · exact respects_twoTexts (by decide) Operation.rename
  · refine respects_record (by decide) ?_
    exact (stable_required (by simp) Remote.UploadFile.respects_ofJson?).bind fun _ =>
      (stable_required (by simp) respects_text?).bind fun _ => stable_pure _

theorem Operation.mem_kinds_of_ofFields? {kind : String} {j : Json} {o : Operation}
    (h : Operation.ofFields? kind j = some o) : ∃ known, (kind, known) ∈ Operation.kinds := by
  unfold Operation.ofFields? at h
  split_ifs at h <;> simp [Operation.kinds, *]

/-! ## Settings and failures -/

def RetryPolicy.shape : Shape := .simple ["max_attempts", "initial_backoff_ms", "max_backoff_ms"]

def Remote.Failure.shape : Shape := .simple ["kind", "reason"]

theorem RetryPolicy.respects_ofJson? : Respects RetryPolicy.shape RetryPolicy.ofJson? :=
  respects_record (by decide) <|
    (stable_required (by simp) ((respects_natBelow? _).map _)).bind fun _ =>
    (stable_required (by simp) respects_word64?).bind fun _ =>
    (stable_required (by simp) respects_word64?).bind fun _ => stable_pure _

theorem Remote.Failure.respects_ofJson? : Respects Remote.Failure.shape Remote.Failure.ofJson? :=
  respects_record (by decide) <|
    (stable_required (by simp) (respects_oneOf? _)).bind fun _ =>
    (stable_required (by simp) respects_text?).bind fun _ => stable_pure _

/-! ## All formats -/

theorem Operation.faithful {double? : Doubles} (hwords : TakesWords double?) :
    Faithful Operation.shape Operation.toJson (Operation.ofJsonBy? double?) (fun _ => True)
      fun j => j.isMeaningful double? maxDepth = true := by
  refine .intro (fun o _ => Operation.ofJsonBy?_toJson hwords o)
    (fun hedit => hedit.isMeaningful) ?_ ?_
  · intro j j' o h hread
    obtain ⟨⟨kind, rest⟩, htag, -⟩ := Option.bind_eq_some_iff.1 hread
    rw [h.isMeaningful_eq]
    exact (selfTagged?_eq_some.1 htag).1
  · intro j j' o hedit hwhole hread
    refine respects_selfTagged (by decide) (fun kind rest o h => ?_) hedit hwhole hread
    obtain ⟨known, hknown⟩ := Operation.mem_kinds_of_ofFields? h
    exact ⟨known, hknown, Operation.respects_ofFields? hknown⟩

/-- **The wire formats are faithful**, whatever the conversion of numbers to doubles, if it takes every
word of 64 bits. -/
theorem wireFormats_faithful {double? : Doubles} (hwords : TakesWords double?) :
    Faithful Entry.shape Entry.toJson Entry.ofJson? Entry.IsTold (fun _ => True) ∧
    Faithful Listing.shape Listing.toJson Listing.ofJson? (fun l => ∀ e ∈ l.entries, e.IsTold)
      (fun _ => True) ∧
    Faithful Operation.shape Operation.toJson (Operation.ofJsonBy? double?) (fun _ => True)
      (fun j => j.isMeaningful double? maxDepth = true) ∧
    Faithful View.Options.shape View.Options.toJson View.Options.ofJson? (fun _ => True)
      (fun _ => True) ∧
    Faithful Cache.Patch.shape Cache.Patch.toJson Cache.Patch.ofJson? (fun _ => True)
      (fun _ => True) ∧
    Faithful Cache.Scope.shape Cache.Scope.toJson Cache.Scope.ofJson? (fun _ => True)
      (fun _ => True) ∧
    Faithful MoveRequest.shape MoveRequest.toJson MoveRequest.ofJson? (fun _ => True)
      (fun _ => True) ∧
    Faithful BatchOutcome.shape BatchOutcome.toJson BatchOutcome.ofJson? BatchOutcome.IsTold
      (fun _ => True) ∧
    Faithful Remote.UploadFile.shape Remote.UploadFile.toJson Remote.UploadFile.ofJson?
      (fun _ => True) (fun _ => True) ∧
    Faithful RetryPolicy.shape RetryPolicy.toJson RetryPolicy.ofJson? (fun _ => True)
      (fun _ => True) ∧
    Faithful Remote.Failure.shape Remote.Failure.toJson Remote.Failure.ofJson? (fun _ => True)
      (fun _ => True) :=
  ⟨Entry.respects_ofJson?.faithful fun _ h => h.ofJson?_toJson,
    Listing.respects_ofJson?.faithful fun _ => Listing.ofJson?_toJson,
    Operation.faithful hwords,
    View.Options.respects_ofJson?.faithful fun o _ => o.ofJson?_toJson,
    Cache.Patch.respects_ofJson?.faithful fun p _ => p.ofJson?_toJson,
    Cache.Scope.respects_ofJson?.faithful fun s _ => s.ofJson?_toJson,
    MoveRequest.respects_ofJson?.faithful fun m _ => m.ofJson?_toJson,
    BatchOutcome.respects_ofJson?.faithful fun _ => BatchOutcome.ofJson?_toJson,
    Remote.UploadFile.respects_ofJson?.faithful fun f _ => f.ofJson?_toJson,
    RetryPolicy.respects_ofJson?.faithful fun p _ => p.ofJson?_toJson,
    Remote.Failure.respects_ofJson?.faithful fun f _ => f.ofJson?_toJson⟩

/-- An operation with its kind in front. -/
def trashFields : Fields := [(some "op", .text "move_to_trash"), (some "sources", .texts ["/a"])]

/-- The same operation with a field that it does not know. -/
def trashFieldsWith (j : Json) : Fields := trashFields ++ [(some "x", j)]

theorem edit_trashFieldsWith (j : Json) :
    Edit Operation.shape (.obj trashFields) (.obj (trashFieldsWith j)) :=
  .selfTagged (List.mem_cons_of_mem _ List.mem_cons_self) List.mem_cons_self
    (.add (by decide))

/-- A field is added to an operation, and its kind goes last. -/
theorem wireFormats_faithful_kindLast :
    decode Operation.ofJson? "\x7b\"x\":[1],\"sources\":[\"/a\"],\"op\":\"move_to_trash\"\x7d" =
      some (.moveToTrash ["/a"]) := by
  let edited := trashFieldsWith (.arr [.nat 1])
  have htext : "\x7b\"x\":[1],\"sources\":[\"/a\"],\"op\":\"move_to_trash\"\x7d" =
      (Json.obj edited.reverse).compact := by decide
  have hedits : Edits Operation.shape (.obj trashFields) (.obj edited.reverse) :=
    .tail (.single (edit_trashFieldsWith _)) (.permuted (.obj (List.reverse_perm _).symm))
  rw [htext]
  have hfaithful := (wireFormats_faithful takesWords_nearest?).2.2.1
  exact hfaithful.edited (parse?_compact (.obj trashFields)) (parse?_compact _) hedits
    (by decide +kernel) (hfaithful.written (.moveToTrash ["/a"]) trivial).1

/-- Values that cannot be read as a whole: a number beyond the greatest double, half of a surrogate
pair, and too deep a nesting. -/
def unreadable : List Json :=
  [.num (.decimal false 1 400), .str none, Nat.repeat (fun j => .arr [j]) maxDepth (.nat 1)]

/-- The fields of a move, and one whose name is half of a surrogate pair. -/
def unpairedFields : Fields :=
  [(some "source_path", .text "/a"), (some "destination_path", .text "/b"), (none, .nat 1)]

/-- **What the formats do not carry.** An entry that was changed in a leap second inside a minute is
read as one that was changed in the second after. An operation has to be readable as a whole, so a
value that is not is refused in a field that it does not know. A name that is no text is refused in
every record. -/
theorem wireFormats_unfaithful :
    (Entry.leaping.InYears ∧ decode Entry.ofJson? Entry.leaping.toJson.compact = some Entry.landed ∧
      Entry.landed ≠ Entry.leaping) ∧
    decode Operation.ofJson? (Json.obj trashFields).compact = some (.moveToTrash ["/a"]) ∧
    (Json.obj (trashFieldsWith (.num (.decimal false 1 400)))).compact =
      "\x7b\"op\":\"move_to_trash\",\"sources\":[\"/a\"],\"x\":1e400\x7d" ∧
    (∀ j ∈ unreadable, Edit Operation.shape (.obj trashFields) (.obj (trashFieldsWith j)) ∧
      decode Operation.ofJson? (Json.obj (trashFieldsWith j)).compact = none) ∧
    (Json.obj unpairedFields).compact =
      "\x7b\"source_path\":\"/a\",\"destination_path\":\"/b\",\"\\ud800\":1\x7d" ∧
    decode MoveRequest.ofJson? (Json.obj unpairedFields.dropLast).compact = some ⟨"/a", "/b"⟩ ∧
    decode MoveRequest.ofJson? (Json.obj unpairedFields).compact = none := by
  have hyears : Entry.leaping.InYears := by decide
  have hleap : decode Entry.ofJson? Entry.leaping.toJson.compact = some Entry.landed := by
    rw [decode, parse?_compact, Option.bind_some, Entry.ofJson?_toJson hyears, Entry.told_leaping]
  have hrefused : ∀ j ∈ unreadable,
      decode Operation.ofJson? (Json.obj (trashFieldsWith j)).compact = none := by
    simp only [decode, parse?_compact]
    decide +kernel
  exact ⟨⟨hyears, hleap, by decide⟩, by decide +kernel, by decide,
    fun j hj => ⟨edit_trashFieldsWith j, hrefused j hj⟩, by decide +kernel, by decide +kernel,
    by decide +kernel⟩

end CloudDrive
