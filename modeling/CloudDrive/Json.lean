/-!
# JSON values

A value as it is written: numbers keep their decimal form, objects keep the order of their fields
and fields of one name. What a value means is left to its reader (`CloudDrive.Json.Reader`).
-/

namespace CloudDrive

/-- A number as it is written in decimal. -/
inductive Json.Number where
  /-- Digits alone. -/
  | integer (negative : Bool) (magnitude : Nat)
  /-- Digits with a fraction or an exponent: the magnitude is `mantissa * 10 ^ exponent`. -/
  | decimal (negative : Bool) (mantissa : Nat) (exponent : Int)
  deriving Repr, DecidableEq, Inhabited

/-- A JSON value. A text is `none` if its escapes leave half of a surrogate pair, so that they stand
for no character. -/
inductive Json where
  | null
  | bool (value : Bool)
  | num (value : Json.Number)
  | str (text : Option String)
  | arr (items : List Json)
  | obj (fields : List (Option String × Json))
  deriving Inhabited

namespace Json

/-- A text as a value. -/
def text (s : String) : Json := .str (some s)

/-- A natural number as a value. -/
def nat (n : Nat) : Json := .num (.integer false n)

/-- A list of texts as a value. -/
def texts (ss : List String) : Json := .arr (ss.map text)

/-- An object with named fields, in this order. -/
def record (fields : List (String × Json)) : Json := .obj (fields.map fun f => (some f.1, f.2))

/-- A value, or `null` where there is none. -/
def optional {α : Type} (write : α → Json) : Option α → Json
  | none => .null
  | some a => write a

end Json

end CloudDrive
