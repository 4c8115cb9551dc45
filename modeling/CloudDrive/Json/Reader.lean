import CloudDrive.Json

/-!
# Reading values out of JSON

Readers take a value apart and refuse what does not have the form that they expect. A record is
given as an object, whose unknown fields are ignored and whose known fields stand at most once, or
as an array of its fields in their order, from which fields with a default may be left off the end.

* `lookup_record_obj`: in an object, a record finds each field where it stands.
-/

namespace CloudDrive.Json

/-! ## Simple values -/

/-- The text of a string. -/
def text? : Json → Option String
  | .str text => text
  | _ => none

/-- The value of `true` or `false`. -/
def bool? : Json → Option Bool
  | .bool b => some b
  | _ => none

/-- A natural number below `bound`, written with digits alone. -/
def natBelow? (bound : Nat) : Json → Option Nat
  | .num (.integer false n) => if n < bound then some n else none
  | _ => none

/-- A natural number of at most 64 bits. -/
def nat64? (j : Json) : Option Nat := j.natBelow? UInt64.size

/-- A 64-bit word. -/
def word64? (j : Json) : Option UInt64 := (j.nat64?).map UInt64.ofNat

/-- A 32-bit word. -/
def word32? (j : Json) : Option UInt32 := (j.natBelow? UInt32.size).map UInt32.ofNat

/-- A byte. -/
def byte? (j : Json) : Option UInt8 := (j.natBelow? UInt8.size).map UInt8.ofNat

/-- The items of an array. -/
def list? {α : Type} (read : Json → Option α) : Json → Option (List α)
  | .arr items => items.mapM read
  | _ => none

/-- The two items of an array of two. -/
def pair? {α β : Type} (first : Json → Option α) (second : Json → Option β) : Json → Option (α × β)
  | .arr [a, b] => do return (← first a, ← second b)
  | _ => none

/-! ## Numbers with a fraction -/

/-- The magnitude `mantissa * 10 ^ exponent`, rounded to the nearest double. Beyond the guards every
magnitude rounds to infinity or to zero. -/
def magnitude (mantissa : Nat) (exponent : Int) : Float :=
  let digits : Int := (Nat.toDigits 10 mantissa).length
  if mantissa = 0 then 0
  else if 400 < digits + exponent then 1 / 0
  else if digits + exponent < -400 then 0
  else if 0 ≤ exponent then Float.ofScientific mantissa false exponent.toNat
  else Float.ofScientific mantissa true (-exponent).toNat

/-- The double nearest to a number. -/
def Number.toFloat : Number → Float
  | .integer negative n => if negative then -(magnitude n 0) else magnitude n 0
  | .decimal negative n e => if negative then -(magnitude n e) else magnitude n e

/-- The least magnitude that rounds to infinity: half way from the greatest double to `2 ^ 1024`. -/
def infinite : Nat := Nat.pow 2 1024 - Nat.pow 2 970

/-- Does the magnitude `mantissa * 10 ^ exponent` round to a finite double? The guards are those of
`magnitude`. -/
def isFiniteMagnitude (mantissa : Nat) (exponent : Int) : Bool :=
  let digits : Int := (Nat.toDigits 10 mantissa).length
  if mantissa = 0 then true
  else if 400 < digits + exponent then false
  else if digits + exponent < -400 then true
  else if 0 ≤ exponent then mantissa * Nat.pow 10 exponent.toNat < infinite
  else mantissa < infinite * Nat.pow 10 (-exponent).toNat

/-- Does the number round to a finite double? -/
def Number.isFinite : Number → Bool
  | .integer _ n => n < infinite
  | .decimal _ n e => isFiniteMagnitude n e

/-- A conversion of numbers to doubles. A number beyond all doubles has none; how often the others are
rounded on the way is left open, so that near the greatest double conversions differ. -/
abbrev Doubles := Number → Option Float

/-- The conversion that rounds once, to the nearest double. -/
def nearest? : Doubles := fun n => if n.isFinite then some n.toFloat else none

/-- A finite number. -/
def float? : Json → Option Float
  | .num n => nearest? n
  | _ => none

/-! ## Records -/

/-- The fields of a record that are given, by name. -/
abbrev Record := List (String × Json)

/-- The value of a field that is given. -/
def Record.lookup (r : Record) (name : String) : Option Json :=
  (r.find? (·.1 == name)).map (·.2)

/-- A field that has to be given. -/
def Record.required {α : Type} (r : Record) (name : String) (read : Json → Option α) : Option α :=
  (r.lookup name).bind read

/-- A field with a default. -/
def Record.defaulted {α : Type} (r : Record) (name : String) (default : α)
    (read : Json → Option α) : Option α :=
  match r.lookup name with
  | none => some default
  | some j => read j

/-- How often a field of this name stands among `fields`. -/
def occurrences (name : String) (fields : List (Option String × Json)) : Nat :=
  fields.countP (·.1 == some name)

/-- The fields of an object whose names are known: every name has to be a text, and a known name
stands at most once. -/
def knownFields? (names : List String) (fields : List (Option String × Json)) : Option Record :=
  if fields.all (·.1.isSome) && names.all (occurrences · fields ≤ 1) then
    some (fields.filterMap fun f => f.1.bind fun name =>
      if names.contains name then some (name, f.2) else none)
  else
    none

/-- The fields of a record with the field names `names`, in their order. -/
def record? (names : List String) : Json → Option Record
  | .obj fields => knownFields? names fields
  | .arr items => if items.length ≤ names.length then some (names.zip items) else none
  | _ => none

/-! ## Tagged values -/

/-- A value of an enumeration: its name alone, or an object that gives it `null`. -/
def unit? : Json → Option String
  | .str text => text
  | .obj [(some name, .null)] => some name
  | _ => none

/-- One of the named values. -/
def oneOf? {α : Type} (values : List (String × α)) (j : Json) : Option α :=
  (j.unit?).bind fun name => (values.find? (·.1 == name)).map (·.2)

/-- A value with a body: an object of one field, whose name is the tag. -/
def tagged? : Json → Option (String × Json)
  | .obj [(some tag, body)] => some (tag, body)
  | _ => none

/-! ## Values that are read as a whole

A record whose tag may stand anywhere is read as a whole before its form is known. All of it has to
have a meaning then, also the fields that are ignored afterwards, and it may not be too deep. Which
numbers have a meaning is decided by the conversion to doubles. -/

/-- The levels of nesting that a value may have when it is read as a whole. -/
def maxDepth : Nat := 127

mutual

/-- Does every text and every number have a meaning, at `depth` levels or fewer? -/
def isMeaningful (double? : Doubles) (depth : Nat) : Json → Bool
  | .null => true
  | .bool _ => true
  | .num n => (double? n).isSome
  | .str text => text.isSome
  | .arr items => 0 < depth && areMeaningful double? (depth - 1) items
  | .obj fields => 0 < depth && fieldsAreMeaningful double? (depth - 1) fields

/-- Is every item meaningful? -/
def areMeaningful (double? : Doubles) (depth : Nat) : List Json → Bool
  | [] => true
  | item :: items => isMeaningful double? depth item && areMeaningful double? depth items

/-- Is every field meaningful, its name included? -/
def fieldsAreMeaningful (double? : Doubles) (depth : Nat) : List (Option String × Json) → Bool
  | [] => true
  | (name, value) :: fields =>
    name.isSome && isMeaningful double? depth value && fieldsAreMeaningful double? depth fields

end

/-- The tag and the remaining fields of a record that is tagged by one of its fields, or by the
first item of an array. -/
def selfTagged? (double? : Doubles) (tagField : String) (j : Json) : Option (String × Json) :=
  if ! j.isMeaningful double? maxDepth then
    none
  else
    match j with
    | .obj fields =>
      match fields.filter (·.1 == some tagField) with
      | [(_, .str (some tag))] => some (tag, .obj (fields.filter (! ·.1 == some tagField)))
      | _ => none
    | .arr (.str (some tag) :: items) => some (tag, .arr items)
    | _ => none

/-! ## Lemmas -/

@[simp] theorem lookup_cons (key name : String) (j : Json) (r : Record) :
    Record.lookup ((key, j) :: r) name = if key = name then some j else Record.lookup r name := by
  by_cases h : key = name
  · simp [Record.lookup, h]
  · simp [Record.lookup, h]

theorem lookup_filterMap_known {names : List String} {fields : List (Option String × Json)}
    {name : String} (h : names.contains name = true) :
    Record.lookup (fields.filterMap fun f => f.1.bind fun n =>
      if names.contains n then some (n, f.2) else none) name =
      (fields.find? (·.1 == some name)).map (·.2) := by
  unfold Record.lookup
  induction fields with
  | nil => rfl
  | cons f fields ih =>
    obtain ⟨_ | n, v⟩ := f
    · simpa using ih
    · by_cases hn : n = name
      · subst hn
        simp [show n ∈ names by simpa using h]
      · by_cases hk : n ∈ names
        · simpa [List.filterMap_cons, hk, hn] using ih
        · simpa [List.filterMap_cons, hk, hn] using ih

/-- In an object, a record finds each known field where it stands. -/
theorem lookup_record_obj {names : List String} {fields : List (Option String × Json)}
    {r : Record} {name : String} (h : record? names (.obj fields) = some r)
    (hn : names.contains name = true) :
    r.lookup name = (fields.find? (·.1 == some name)).map (·.2) := by
  simp only [record?, knownFields?] at h
  split at h
  · cases h
    exact lookup_filterMap_known hn
  · cases h

end CloudDrive.Json
