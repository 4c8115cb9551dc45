import CloudDrive.Json

/-!
# Writing JSON texts

A value is written compactly, or with a line per item and two spaces per level. Only quotes,
backslashes and control characters are escaped.
-/

namespace CloudDrive.Json

/-- A hexadecimal digit, in lower case. -/
def hexChar (n : Nat) : Char := Nat.digitChar n

/-- A character inside a string literal. -/
def escapeChar (c : Char) : List Char :=
  if c = '"' then ['\\', '"']
  else if c = '\\' then ['\\', '\\']
  else if c = '\x08' then ['\\', 'b']
  else if c = '\x0c' then ['\\', 'f']
  else if c = '\n' then ['\\', 'n']
  else if c = '\r' then ['\\', 'r']
  else if c = '\t' then ['\\', 't']
  else if c.toNat < 0x20 then
    ['\\', 'u', '0', '0', hexChar (c.toNat / 16), hexChar (c.toNat % 16)]
  else [c]

/-- A text as a string literal. -/
def quote (cs : List Char) : List Char := '"' :: (cs.flatMap escapeChar ++ ['"'])

/-- A string literal; half of a surrogate pair alone has only its escape. -/
def writeText : Option String → List Char
  | some s => quote s.toList
  | none => ['"', '\\', 'u', 'd', '8', '0', '0', '"']

/-- A natural number in decimal. -/
def writeNat (n : Nat) : List Char := Nat.toDigits 10 n

/-- A whole number in decimal. -/
def writeInt : Int → List Char
  | .ofNat n => writeNat n
  | .negSucc n => '-' :: writeNat (n + 1)

/-- The sign of a number. -/
def writeSign (negative : Bool) : List Char := if negative then ['-'] else []

/-- A number. -/
def writeNumber : Number → List Char
  | .integer negative magnitude => writeSign negative ++ writeNat magnitude
  | .decimal negative mantissa exponent =>
    writeSign negative ++ writeNat mantissa ++ 'e' :: writeInt exponent

/-! ## The compact form -/

mutual

/-- A value without any white space. -/
def writeCompact : Json → List Char
  | .null => ['n', 'u', 'l', 'l']
  | .bool true => ['t', 'r', 'u', 'e']
  | .bool false => ['f', 'a', 'l', 's', 'e']
  | .num number => writeNumber number
  | .str text => writeText text
  | .arr items => '[' :: writeItems items
  | .obj fields => '\x7b' :: writeFields fields

/-- The items of an array and its closing bracket. -/
def writeItems : List Json → List Char
  | [] => [']']
  | [item] => writeCompact item ++ [']']
  | item :: items => writeCompact item ++ ',' :: writeItems items

/-- The fields of an object and its closing brace. -/
def writeFields : List (Option String × Json) → List Char
  | [] => ['\x7d']
  | [(key, value)] => writeText key ++ ':' :: (writeCompact value ++ ['\x7d'])
  | (key, value) :: fields =>
    writeText key ++ ':' :: (writeCompact value ++ ',' :: writeFields fields)

end

/-- The compact text of a value. -/
def compact (value : Json) : String := String.ofList (writeCompact value)

/-! ## The indented form -/

/-- A new line that is indented by `level` steps of two spaces. -/
def newLine (level : Nat) : List Char := '\n' :: List.replicate (2 * level) ' '

mutual

/-- A value with a line per item, at a level of indentation. -/
def writePretty (level : Nat) : Json → List Char
  | .null => ['n', 'u', 'l', 'l']
  | .bool true => ['t', 'r', 'u', 'e']
  | .bool false => ['f', 'a', 'l', 's', 'e']
  | .num number => writeNumber number
  | .str text => writeText text
  | .arr [] => ['[', ']']
  | .arr items => '[' :: writeItemLines level items
  | .obj [] => ['\x7b', '\x7d']
  | .obj fields => '\x7b' :: writeFieldLines level fields

/-- The items of an array, each on its line, and the closing bracket. -/
def writeItemLines (level : Nat) : List Json → List Char
  | [] => newLine level ++ [']']
  | [item] => newLine (level + 1) ++ writePretty (level + 1) item ++ newLine level ++ [']']
  | item :: items =>
    newLine (level + 1) ++ writePretty (level + 1) item ++ ',' :: writeItemLines level items

/-- The fields of an object, each on its line, and the closing brace. -/
def writeFieldLines (level : Nat) : List (Option String × Json) → List Char
  | [] => newLine level ++ ['\x7d']
  | [(key, value)] =>
    newLine (level + 1) ++ writeText key ++ [':', ' '] ++ writePretty (level + 1) value ++
      newLine level ++ ['\x7d']
  | (key, value) :: fields =>
    newLine (level + 1) ++ writeText key ++ [':', ' '] ++ writePretty (level + 1) value ++
      ',' :: writeFieldLines level fields

end

/-- The indented text of a value. -/
def pretty (value : Json) : String := String.ofList (writePretty 0 value)

end CloudDrive.Json
