import CloudDrive.Path

/-!
# Configuration

The settings of a session, and the check that a draft of them passes before it is used.

* `RetryPolicy.delayAfter`: the wait after a failed attempt doubles each time, up to a limit.
* `Draft.build`: a draft is refused for the first rule that it breaks.
-/

namespace CloudDrive

/-! ## Backoff -/

/-- How often a read is tried, and how long the waits between the attempts are. -/
structure RetryPolicy where
  /-- The attempts in all, the first included. -/
  maxAttempts : UInt32
  /-- The wait before the second attempt, in milliseconds. -/
  initialBackoff : UInt64
  /-- The longest wait, in milliseconds. -/
  maxBackoff : UInt64
  deriving Repr, DecidableEq

namespace RetryPolicy

/-- One attempt only. -/
def once : RetryPolicy := ⟨1, 0, 0⟩

/-- Three attempts, with waits from a quarter of a second up to four seconds. -/
def standard : RetryPolicy := ⟨3, 250, 4000⟩

instance : Inhabited RetryPolicy := ⟨standard⟩

/-- A product that stops at the largest 64-bit number. -/
def saturatingMul (a b : UInt64) : UInt64 :=
  if a.toNat * b.toNat < UInt64.size then a * b else 0xFFFFFFFFFFFFFFFF

/-- A number less one, or zero. -/
def saturatingPred (n : UInt32) : UInt32 := if n = 0 then 0 else n - 1

/-- The wait in milliseconds after the given failed attempt, counted from 1. It doubles from attempt
to attempt, sixteen times at most, and never exceeds the longest wait. -/
def delayAfter (p : RetryPolicy) (attempt : UInt32) : UInt64 :=
  let doublings := min (saturatingPred attempt) 16
  min (saturatingMul p.initialBackoff (1 <<< doublings.toUInt64)) p.maxBackoff

end RetryPolicy

/-! ## Settings -/

/-- The settings of a session. -/
structure Config where
  /-- The root of the store, to which trashed entries are restored. -/
  rootPath : String := "/"
  /-- The directory that holds trashed entries. -/
  trashPath : String := "/.trash"
  /-- The most tasks that the ledger keeps. -/
  historyLimit : Nat := 30
  /-- How far the pointer has to travel, in pixels, to turn a press into a drag. -/
  dragThreshold : Float := 8.0
  /-- The most directories that are remembered as recent. -/
  recentLimit : Nat := 8
  /-- How listings are fetched. -/
  readRetry : RetryPolicy := RetryPolicy.standard

namespace Config

instance : Inhabited Config := ⟨{}⟩

/-- The name of the trash inside its parent. -/
def trashName (c : Config) : String := Path.name c.trashPath

/-- The directory that holds the trash. -/
def trashParent (c : Config) : String := Path.parent c.trashPath

/-- Which setting of a draft is refused. -/
inductive Refusal where
  | trashPath
  | rootPath
  | historyLimit
  | dragThreshold
  | readRetry
  deriving Repr, DecidableEq, Inhabited

/-- What the user is told. -/
def Refusal.message : Refusal → String
  | .trashPath => "Trash path must be an absolute path below the root"
  | .rootPath => "Root path must be absolute"
  | .historyLimit => "Task history limit must be greater than 0"
  | .dragThreshold => "Drag threshold must be a non-negative number"
  | .readRetry => "Retry policy needs at least one attempt"

/-- Settings of which some are given. -/
structure Draft where
  rootPath : Option String := none
  trashPath : Option String := none
  historyLimit : Option Nat := none
  dragThreshold : Option Float := none
  recentLimit : Option Nat := none
  readRetry : Option RetryPolicy := none

/-- Does the path start at the root? -/
def isAbsolute (path : String) : Bool := path.toList.head? == some '/'

/-- Is the path absolute and not the root? -/
def isBelowRoot (path : String) : Bool := isAbsolute path && ! (Path.stem path.toList).isEmpty

/-- Is the number finite and not below zero? -/
def isDistance (x : Float) : Bool := x.isFinite && decide (0.0 ≤ x)

namespace Draft

/-- The first rule that the draft breaks, if it breaks one. -/
def refusal? (d : Draft) : Option Refusal :=
  if d.trashPath.any (! isBelowRoot ·) then some .trashPath
  else if d.rootPath.any (! isAbsolute ·) then some .rootPath
  else if d.historyLimit.any (· == 0) then some .historyLimit
  else if d.dragThreshold.any (! isDistance ·) then some .dragThreshold
  else if d.readRetry.any (·.maxAttempts == 0) then some .readRetry
  else none

/-- The settings of the draft; what is not given has its default. -/
def settings (d : Draft) : Config :=
  let c : Config := {}
  { rootPath := d.rootPath.getD c.rootPath
    trashPath := d.trashPath.getD c.trashPath
    historyLimit := d.historyLimit.getD c.historyLimit
    dragThreshold := d.dragThreshold.getD c.dragThreshold
    recentLimit := d.recentLimit.getD c.recentLimit
    readRetry := d.readRetry.getD c.readRetry }

/-- The settings of a draft that breaks no rule. -/
def build (d : Draft) : Except Refusal Config :=
  match d.refusal? with
  | some refusal => .error refusal
  | none => .ok d.settings

end Draft

end Config

end CloudDrive
