import CloudDrive.Time.Instant

/-!
# Notices

The one message that is shown to the user; a new one replaces the one before.
-/

namespace CloudDrive

/-- How a notice is presented. -/
inductive Severity where
  | success
  | info
  | warning
  | error
  deriving Repr, DecidableEq, Inhabited

/-- The name of the severity. -/
def Severity.label : Severity → String
  | .success => "success"
  | .info => "info"
  | .warning => "warning"
  | .error => "error"

/-- Every severity. -/
def Severity.all : List Severity := [.success, .info, .warning, .error]

/-- One message for the user. -/
structure Notice where
  message : String
  severity : Severity
  createdAt : Instant
  deriving DecidableEq, Inhabited

end CloudDrive
