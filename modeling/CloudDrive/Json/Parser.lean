import CloudDrive.Json

/-!
# Reading JSON texts

Strict JSON: nothing but white space around the value, no comments, no leading zeros, no raw control
characters in strings. The readers take characters from the front of a list and give back the rest.

* `parse?`: the value of a whole text.
-/

namespace CloudDrive.Json

/-! ## White space and digits -/

/-- The four characters that may stand between tokens. -/
def isBlank (c : Char) : Bool := c == ' ' || c == '\n' || c == '\t' || c == '\r'

/-- The characters from the next token on. -/
def skipBlanks (cs : List Char) : List Char := cs.dropWhile isBlank

/-- The value of a hexadecimal digit. -/
def hexDigit? (c : Char) : Option Nat :=
  if '0' ≤ c ∧ c ≤ '9' then some (c.toNat - '0'.toNat)
  else if 'a' ≤ c ∧ c ≤ 'f' then some (c.toNat - 'a'.toNat + 10)
  else if 'A' ≤ c ∧ c ≤ 'F' then some (c.toNat - 'A'.toNat + 10)
  else none

/-- The value of four hexadecimal digits. -/
def hexUnit? (a b c d : Char) : Option Nat := do
  return (((← hexDigit? a) * 16 + (← hexDigit? b)) * 16 + (← hexDigit? c)) * 16 + (← hexDigit? d)

/-! ## Strings -/

/-- What a string literal is made of: characters, and UTF-16 code units given by number. -/
inductive Piece where
  | char (c : Char)
  | unit (n : Nat)

/-- The character that a backslash and `c` stand for. -/
def shortEscape? (c : Char) : Option Char :=
  match c with
  | '"' => some '"'
  | '\\' => some '\\'
  | '/' => some '/'
  | 'b' => some '\x08'
  | 'f' => some '\x0c'
  | 'n' => some '\n'
  | 'r' => some '\r'
  | 't' => some '\t'
  | _ => none

/-- The pieces of a string literal after its opening quote, and what follows the closing one. -/
def scanPieces : List Char → Option (List Piece × List Char)
  | [] => none
  | '"' :: rest => some ([], rest)
  | '\\' :: 'u' :: a :: b :: c :: d :: rest => do
    let n ← hexUnit? a b c d
    let (pieces, rest) ← scanPieces rest
    return (.unit n :: pieces, rest)
  | '\\' :: e :: rest => do
    let c ← shortEscape? e
    let (pieces, rest) ← scanPieces rest
    return (.char c :: pieces, rest)
  | c :: rest =>
    if c.toNat < 0x20 ∨ c = '\\' then
      none
    else do
      let (pieces, rest) ← scanPieces rest
      return (.char c :: pieces, rest)

/-- The first half of a surrogate pair. -/
def isHighSurrogate (n : Nat) : Bool := 0xD800 ≤ n && n ≤ 0xDBFF

/-- The second half of a surrogate pair. -/
def isLowSurrogate (n : Nat) : Bool := 0xDC00 ≤ n && n ≤ 0xDFFF

/-- The characters that pieces stand for; `none` if half of a surrogate pair stands alone. -/
def assemble : List Piece → Option (List Char)
  | [] => some []
  | .char c :: rest => (c :: ·) <$> assemble rest
  | .unit n :: .unit m :: rest =>
    if isHighSurrogate n then
      if isLowSurrogate m then
        (Char.ofNat (0x10000 + (n - 0xD800) * 0x400 + (m - 0xDC00)) :: ·) <$> assemble rest
      else
        none
    else if isLowSurrogate n then
      none
    else
      (Char.ofNat n :: ·) <$> assemble (.unit m :: rest)
  | .unit n :: rest =>
    if isHighSurrogate n || isLowSurrogate n then none else (Char.ofNat n :: ·) <$> assemble rest

/-- The text of a string literal after its opening quote, and what follows the closing one. -/
def scanText (cs : List Char) : Option (Option String × List Char) := do
  let (pieces, rest) ← scanPieces cs
  return ((assemble pieces).map String.ofList, rest)

/-! ## Numbers -/

/-- The digits at the front and what follows them; there has to be at least one. -/
def scanDigits (cs : List Char) : Option (List Char × List Char) :=
  if (cs.takeWhile Char.isDigit).isEmpty then none
  else some (cs.takeWhile Char.isDigit, cs.dropWhile Char.isDigit)

/-- The value of decimal digits. -/
def ofDigits (digits : List Char) : Nat := Nat.ofDigitChars 10 digits 0

/-- The digits after a decimal point, if one stands here. -/
def scanFraction : List Char → Option (Option (List Char) × List Char)
  | '.' :: rest => do
    let (digits, rest) ← scanDigits rest
    return (some digits, rest)
  | cs => some (none, cs)

/-- The exponent, if one stands here. -/
def scanExponent : List Char → Option (Option Int × List Char)
  | c :: rest =>
    if c = 'e' ∨ c = 'E' then
      let (negative, rest) : Bool × List Char :=
        match rest with
        | '-' :: rest => (true, rest)
        | '+' :: rest => (false, rest)
        | _ => (false, rest)
      do
        let (digits, rest) ← scanDigits rest
        let n : Int := ofDigits digits
        return (some (if negative then -n else n), rest)
    else
      some (none, c :: rest)
  | [] => some (none, [])

/-- A number without its sign. -/
def scanMagnitude (negative : Bool) (cs : List Char) : Option (Number × List Char) := do
  let (whole, rest) ← scanDigits cs
  if whole.head? = some '0' ∧ whole ≠ ['0'] then
    none
  else
    let (fraction, rest) ← scanFraction rest
    let (exponent, rest) ← scanExponent rest
    match fraction, exponent with
    | none, none => return (.integer negative (ofDigits whole), rest)
    | _, _ =>
      let places := fraction.getD []
      let scale := exponent.getD 0 - places.length
      return (.decimal negative (ofDigits (whole ++ places)) scale, rest)

/-- A number at the front. -/
def scanNumber : List Char → Option (Number × List Char)
  | '-' :: rest => scanMagnitude true rest
  | cs => scanMagnitude false cs

/-! ## Values -/

mutual

/-- A value at the front, after any white space. Every step into a value takes one from `fuel`. -/
def scanValue (fuel : Nat) (cs : List Char) : Option (Json × List Char) :=
  match fuel with
  | 0 => none
  | fuel + 1 =>
    match skipBlanks cs with
    | 'n' :: 'u' :: 'l' :: 'l' :: rest => some (.null, rest)
    | 't' :: 'r' :: 'u' :: 'e' :: rest => some (.bool true, rest)
    | 'f' :: 'a' :: 'l' :: 's' :: 'e' :: rest => some (.bool false, rest)
    | '"' :: rest => (scanText rest).map fun (text, rest) => (.str text, rest)
    | '[' :: rest =>
      match skipBlanks rest with
      | ']' :: rest => some (.arr [], rest)
      | _ => (scanItems fuel rest).map fun (items, rest) => (.arr items, rest)
    | '\x7b' :: rest =>
      match skipBlanks rest with
      | '\x7d' :: rest => some (.obj [], rest)
      | _ => (scanFields fuel rest).map fun (fields, rest) => (.obj fields, rest)
    | rest => (scanNumber rest).map fun (number, rest) => (.num number, rest)

/-- The items of an array up to its closing bracket. -/
def scanItems (fuel : Nat) (cs : List Char) : Option (List Json × List Char) :=
  match fuel with
  | 0 => none
  | fuel + 1 => do
    let (value, rest) ← scanValue fuel cs
    match skipBlanks rest with
    | ',' :: rest =>
      let (values, rest) ← scanItems fuel rest
      return (value :: values, rest)
    | ']' :: rest => return ([value], rest)
    | _ => none

/-- The fields of an object up to its closing brace. -/
def scanFields (fuel : Nat) (cs : List Char) : Option (List (Option String × Json) × List Char) :=
  match fuel with
  | 0 => none
  | fuel + 1 =>
    match skipBlanks cs with
    | '"' :: rest => do
      let (key, rest) ← scanText rest
      match skipBlanks rest with
      | ':' :: rest =>
        let (value, rest) ← scanValue fuel rest
        match skipBlanks rest with
        | ',' :: rest =>
          let (fields, rest) ← scanFields fuel rest
          return ((key, value) :: fields, rest)
        | '\x7d' :: rest => return ([(key, value)], rest)
        | _ => none
      | _ => none
    | _ => none

end

/-- The value that a whole text stands for. A step into a value reads at least half a character on
average, so the fuel never runs out. -/
def parse? (s : String) : Option Json := do
  let (value, rest) ← scanValue (2 * s.toList.length + 2) s.toList
  if (skipBlanks rest).isEmpty then some value else none

end CloudDrive.Json
