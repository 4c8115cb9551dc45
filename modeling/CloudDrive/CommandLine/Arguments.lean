/-!
# Arguments

The arguments begin with the options that every command has, then name the command, then give its
options and operands in any order. Options are written short (`-f x`, `-fx`, `-f=x`, several in a
row) or long (`--fixture x`, `--fixture=x`). After `--` all arguments are operands. The first
argument that has no place is what the user is told about; a request for help is met as soon as it
is read.

* `parse`: what the arguments ask for.
* `parse_help`: a request for help at the front is all that counts.
-/

namespace CloudDrive.CommandLine

/-! ## Requests -/

/-- What is to be done to the store. -/
inductive Action where
  | list (path : String) (all : Bool) (search : String)
  | createDirectory (parent name : String)
  | move (directory target : String) (names : List String)
  | trash (directory : String) (names : List String)
  | restore (names : List String)
  | purge (names : List String)
  | rename (directory name newName : String)
  | upload (directory : String) (files : List String)
  deriving Repr, DecidableEq, Inhabited

/-- A run of the program. -/
structure Invocation where
  /-- The file that holds the store. -/
  fixture : String
  /-- Is the store written back? -/
  write : Bool
  /-- Is JSON printed instead of text? -/
  json : Bool
  action : Action
  deriving Repr, DecidableEq, Inhabited

/-- What the arguments ask for. -/
inductive Request where
  | run (invocation : Invocation)
  | help
  | version
  deriving Repr, DecidableEq, Inhabited

/-- Why arguments are refused. -/
inductive ArgumentError where
  | unknownOption (text : String)
  | missingValue (option : String)
  | unexpectedValue (option : String)
  | repeatedOption (option : String)
  /-- A path is empty. -/
  | emptyPath
  | unknownCommand (name : String)
  | missingCommand
  | missingOperand
  | missingOption (option : String)
  | surplusOperand (text : String)
  deriving Repr, DecidableEq, Inhabited

/-- What the user is told. -/
def ArgumentError.message : ArgumentError → String
  | .unknownOption text => "unexpected argument '" ++ text ++ "' found"
  | .missingValue option => "a value is required for '--" ++ option ++ "' but none was supplied"
  | .unexpectedValue option => "'--" ++ option ++ "' takes no value"
  | .repeatedOption option => "the argument '--" ++ option ++ "' cannot be used multiple times"
  | .emptyPath => "a path cannot be empty"
  | .unknownCommand name => "unrecognized subcommand '" ++ name ++ "'"
  | .missingCommand => "a subcommand is required"
  | .missingOperand => "the following required arguments were not provided"
  | .missingOption option => "the option '--" ++ option ++ "' is required"
  | .surplusOperand text => "unexpected argument '" ++ text ++ "' found"

/-! ## Options and commands -/

/-- An option. -/
inductive Flag where
  | fixture
  | write
  | json
  | all
  | search
  | into
  | help
  | version
  deriving Repr, DecidableEq, Inhabited

/-- The long name of an option. -/
def Flag.long : Flag → String
  | .fixture => "fixture"
  | .write => "write"
  | .json => "json"
  | .all => "all"
  | .search => "search"
  | .into => "into"
  | .help => "help"
  | .version => "version"

/-- The short name of an option. -/
def Flag.short? : Flag → Option Char
  | .fixture => some 'f'
  | .write => some 'w'
  | .json => none
  | .all => some 'a'
  | .search => some 's'
  | .into => none
  | .help => some 'h'
  | .version => some 'V'

/-- Does the option take a value? -/
def Flag.takesValue : Flag → Bool
  | .fixture => true
  | .search => true
  | .into => true
  | _ => false

/-- The commands by which actions are named. -/
inductive Verb where
  | ls
  | mkdir
  | mv
  | trash
  | restore
  | purge
  | rename
  | upload
  | help
  deriving Repr, DecidableEq, Inhabited

/-- The commands by their names. -/
def Verb.names : List (String × Verb) :=
  [("ls", .ls), ("mkdir", .mkdir), ("mv", .mv), ("trash", .trash), ("restore", .restore),
    ("purge", .purge), ("rename", .rename), ("upload", .upload), ("help", .help)]

/-- The command of a name. -/
def Verb.ofName? (name : String) : Option Verb := (names.find? (·.1 == name)).map (·.2)

/-- The options that are known before the command, or after it. -/
def knownFlags : Option Verb → List Flag
  | none => [.fixture, .write, .json, .help, .version]
  | some .ls => [.all, .search, .help]
  | some .mv => [.into, .help]
  | some _ => [.help]

/-- The most operands of a command, if there is a most. -/
def Verb.maxOperands? : Verb → Option Nat
  | .ls => some 1
  | .mkdir => some 2
  | .rename => some 3
  | .help => some 1
  | _ => none

/-! ## Reading -/

/-- What has been read of the arguments. -/
structure Reading where
  /-- The command, once it is named. -/
  verb : Option Verb := none
  /-- The options that were given, with their values. -/
  values : List (Flag × String) := []
  operands : List String := []
  /-- An option that waits for its value. -/
  pending : Option Flag := none
  /-- Has `--` been read? -/
  optionsOver : Bool := false
  /-- A request that is met at once. -/
  asked : Option Request := none
  deriving Inhabited

namespace Reading

/-- The value that an option was given. -/
def value? (r : Reading) (flag : Flag) : Option String :=
  (r.values.find? (·.1 == flag)).map (·.2)

/-- Was the option given? -/
def has (r : Reading) (flag : Flag) : Bool := (r.value? flag).isSome

/-- An option with its value. -/
def give (r : Reading) (flag : Flag) (value : String) : Except ArgumentError Reading :=
  if r.has flag then .error (.repeatedOption flag.long)
  else if flag = .fixture ∧ value = "" then .error .emptyPath
  else .ok { r with values := r.values ++ [(flag, value)], pending := none }

/-- An option without a value. -/
def raise (r : Reading) (flag : Flag) : Except ArgumentError Reading :=
  match flag with
  | .help => .ok { r with asked := some .help }
  | .version => .ok { r with asked := some .version }
  | _ => r.give flag ""

/-- Short options in a row; what follows one that takes a value is its value. -/
def readShort (r : Reading) : List Char → Except ArgumentError Reading
  | [] => .ok r
  | c :: rest =>
    match (knownFlags r.verb).find? (·.short? == some c) with
    | none => .error (.unknownOption (String.ofList ['-', c]))
    | some flag =>
      if flag.takesValue then
        match rest with
        | [] => .ok { r with pending := some flag }
        | '=' :: value => r.give flag (String.ofList value)
        | value => r.give flag (String.ofList value)
      else
        match r.raise flag with
        | .error e => .error e
        | .ok r => if r.asked.isSome then .ok r else r.readShort rest

/-- A long option, perhaps with its value after `=`. -/
def readLong (r : Reading) (text : List Char) : Except ArgumentError Reading :=
  let name := String.ofList (text.takeWhile (· != '='))
  match (knownFlags r.verb).find? (·.long == name) with
  | none => .error (.unknownOption ("--" ++ name))
  | some flag =>
    match flag.takesValue, text.dropWhile (· != '=') with
    | true, [] => .ok { r with pending := some flag }
    | true, _ :: value => r.give flag (String.ofList value)
    | false, [] => r.raise flag
    | false, _ :: _ => .error (.unexpectedValue name)

/-- An operand; the first one names the command. -/
def readOperand (r : Reading) (text : String) : Except ArgumentError Reading :=
  match r.verb with
  | none =>
    if r.optionsOver then .error (.surplusOperand text)
    else
      match Verb.ofName? text with
      | none => .error (.unknownCommand text)
      | some verb => .ok { r with verb := some verb }
  | some verb =>
    if verb.maxOperands?.any (· ≤ r.operands.length) then .error (.surplusOperand text)
    else if verb = .help ∧ (Verb.ofName? text).isNone then .error (.unknownCommand text)
    else if verb = .upload ∧ r.operands ≠ [] ∧ text = "" then .error .emptyPath
    else .ok { r with operands := r.operands ++ [text] }

/-- An argument that is no option: the value that an option waits for, or an operand. -/
def readPlain (r : Reading) (text : String) : Except ArgumentError Reading :=
  match r.pending with
  | some flag => r.give flag text
  | none => r.readOperand text

/-- One more argument. -/
def read (r : Reading) (text : String) : Except ArgumentError Reading :=
  if r.asked.isSome then .ok r
  else if r.optionsOver || r.verb == some .help then r.readOperand text
  else
    match text.toList, r.pending with
    | '-' :: _ :: _, some flag => .error (.missingValue flag.long)
    | ['-', '-'], none => .ok { r with optionsOver := true }
    | '-' :: '-' :: option, none => r.readLong option
    | '-' :: c :: others, none => r.readShort (c :: others)
    | _, _ => r.readPlain text

/-- The value of an option that has to be given. -/
def require (r : Reading) (flag : Flag) : Except ArgumentError String :=
  match r.value? flag with
  | some value => .ok value
  | none => .error (.missingOption flag.long)

/-- The action that was read. -/
def action (r : Reading) : Except ArgumentError Action :=
  match r.verb, r.operands with
  | none, _ => .error .missingCommand
  | some .ls, [] => .ok (.list "/" (r.has .all) ((r.value? .search).getD ""))
  | some .ls, path :: _ => .ok (.list path (r.has .all) ((r.value? .search).getD ""))
  | some .mkdir, [parent, name] => .ok (.createDirectory parent name)
  | some .mv, directory :: first :: others =>
    (r.require .into).map fun target => .move directory target (first :: others)
  | some .trash, directory :: first :: others => .ok (.trash directory (first :: others))
  | some .restore, first :: others => .ok (.restore (first :: others))
  | some .purge, first :: others => .ok (.purge (first :: others))
  | some .rename, [directory, name, newName] => .ok (.rename directory name newName)
  | some .upload, directory :: first :: others => .ok (.upload directory (first :: others))
  | some _, _ => .error .missingOperand

/-- What the arguments ask for once all are read. -/
def request (r : Reading) : Except ArgumentError Request :=
  match r.asked, r.pending, r.verb with
  | some request, _, _ => .ok request
  | none, some flag, _ => .error (.missingValue flag.long)
  | none, none, some .help => .ok .help
  | none, none, _ => do
    let fixture ← r.require .fixture
    return .run { fixture, write := r.has .write, json := r.has .json, action := ← r.action }

end Reading

/-- What arguments ask for. -/
def parse (arguments : List String) : Except ArgumentError Request := do
  (← arguments.foldlM Reading.read {}).request

/-! ## Help -/

/-- The answer to a request for the version. -/
def versionText : String := "cumulus 0.1.0"

/-- The answer to a request for help. -/
def helpText : String := String.intercalate "\n" [
  "Client-side file-operation orchestrator for personal cloud storage",
  "",
  "Usage: cumulus [OPTIONS] --fixture <FIXTURE> <COMMAND>",
  "",
  "Commands:",
  "  ls [OPTIONS] [PATH]             List a directory",
  "  mkdir <PARENT> <NAME>           Create a directory",
  "  mv <DIR> --into <INTO> <NAMES>  Move entries of a directory into another directory",
  "  trash <DIR> <NAMES>             Move entries to the trash",
  "  restore <NAMES>                 Restore entries from the trash to the root",
  "  purge <NAMES>                   Permanently delete entries from the trash",
  "  rename <DIR> <FROM> <TO>        Rename an entry",
  "  upload <DIR> <FILES>            Upload local files into a directory",
  "  help                            Print this message",
  "",
  "Options:",
  "  -f, --fixture <FIXTURE>  JSON fixture holding the remote store",
  "  -w, --write              Write the resulting store back to the fixture",
  "      --json               Print JSON instead of text",
  "  -h, --help               Print help",
  "  -V, --version            Print version",
  "",
  "Options of ls:",
  "  -a, --all                Include dotfiles and OS metadata files",
  "  -s, --search <SEARCH>    Only show names containing this text"]

/-! ## Lemmas -/

/-- Once a request is met at once, what follows counts for nothing. -/
theorem foldlM_read_of_asked {r : Reading} (h : r.asked.isSome = true) (arguments : List String) :
    arguments.foldlM Reading.read r = .ok r := by
  induction arguments with
  | nil => rfl
  | cons text arguments ih =>
    have hr : r.read text = .ok r := by simp [Reading.read, h]
    rw [List.foldlM_cons, hr]
    exact ih

/-- A request for help at the front is all that counts. -/
theorem parse_help (arguments : List String) : parse ("--help" :: arguments) = .ok .help := by
  have hr : Reading.read {} "--help" = .ok { asked := some .help } := rfl
  unfold parse
  rw [List.foldlM_cons, hr]
  exact congrArg (· >>= Reading.request) (foldlM_read_of_asked rfl arguments)

end CloudDrive.CommandLine
