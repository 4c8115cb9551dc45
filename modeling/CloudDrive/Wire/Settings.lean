import CloudDrive.Config
import CloudDrive.Json.Reader
import CloudDrive.Remote.Failure

/-!
# Settings and failures as JSON

The wire form of retry policies and failures, and the reader of configurations.
-/

namespace CloudDrive

namespace RetryPolicy

/-- The policy as JSON. -/
def toJson (p : RetryPolicy) : Json :=
  .record [("max_attempts", .nat p.maxAttempts.toNat),
    ("initial_backoff_ms", .nat p.initialBackoff.toNat),
    ("max_backoff_ms", .nat p.maxBackoff.toNat)]

/-- The policy that a value tells. -/
def ofJson? (j : Json) : Option RetryPolicy := do
  let r ← j.record? ["max_attempts", "initial_backoff_ms", "max_backoff_ms"]
  return {
    maxAttempts := ← r.required "max_attempts" Json.word32?
    initialBackoff := ← r.required "initial_backoff_ms" Json.word64?
    maxBackoff := ← r.required "max_backoff_ms" Json.word64? }

end RetryPolicy

namespace Config

/-- The settings that a value tells. Each may be left out; none is checked. -/
def ofJson? (j : Json) : Option Config := do
  let r ← j.record? ["root_path", "trash_path", "task_history_limit", "drag_threshold_px",
    "recent_paths_limit", "read_retry"]
  let c : Config := {}
  return {
    rootPath := ← r.defaulted "root_path" c.rootPath Json.text?
    trashPath := ← r.defaulted "trash_path" c.trashPath Json.text?
    historyLimit := ← r.defaulted "task_history_limit" c.historyLimit Json.nat64?
    dragThreshold := ← r.defaulted "drag_threshold_px" c.dragThreshold Json.float?
    recentLimit := ← r.defaulted "recent_paths_limit" c.recentLimit Json.nat64?
    readRetry := ← r.defaulted "read_retry" c.readRetry RetryPolicy.ofJson? }

end Config

namespace Remote

/-- The name of a kind of failure on the wire. -/
def FailureKind.wireName : FailureKind → String
  | .network => "Network"
  | .unauthorized => "Unauthorized"
  | .notFound => "NotFound"
  | .alreadyExists => "AlreadyExists"
  | .rateLimited => "RateLimited"
  | .server => "Server"

/-- Every kind of failure. -/
def FailureKind.all : List FailureKind :=
  [.network, .unauthorized, .notFound, .alreadyExists, .rateLimited, .server]

/-- The kind of a name. -/
def FailureKind.ofJson? (j : Json) : Option FailureKind :=
  j.oneOf? (all.map fun k => (k.wireName, k))

/-- The failure as JSON. -/
def Failure.toJson (f : Failure) : Json :=
  .record [("kind", .text f.kind.wireName), ("reason", .text f.reason)]

/-- The failure that a value tells. -/
def Failure.ofJson? (j : Json) : Option Failure := do
  let r ← j.record? ["kind", "reason"]
  return {
    kind := ← r.required "kind" FailureKind.ofJson?
    reason := ← r.required "reason" Json.text? }

end Remote

end CloudDrive
