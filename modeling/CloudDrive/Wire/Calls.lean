import CloudDrive.Json.Reader
import CloudDrive.Remote.Call

/-!
# Calls as JSON

The log of a store as JSON: a call under the name of its kind, without the bytes of a file. The
report of a deletion as JSON.

* `wireName_injective`: no two kinds share a name.
-/

namespace CloudDrive.Remote

namespace CallKind

/-- The name of a kind of call on the wire. -/
def wireName : CallKind → String
  | .list => "List"
  | .delete => "Delete"
  | .move => "Move"
  | .createDirectory => "CreateDirectory"
  | .upload => "Upload"

/-- Every kind of call. -/
def all : List CallKind := [.list, .delete, .move, .createDirectory, .upload]

/-- The kind of a name. -/
def ofJson? (j : Json) : Option CallKind := j.oneOf? (all.map fun k => (k.wireName, k))

/-- Kinds of one name are one kind. -/
theorem wireName_injective {a b : CallKind} (h : a.wireName = b.wireName) : a = b := by
  cases a <;> cases b <;> simp_all [wireName]

end CallKind

/-- What a call is about, as JSON. -/
def Call.details : Call → Json
  | .list path => .record [("path", .text path)]
  | .delete paths => .record [("paths", .texts paths)]
  | .move source destination =>
    .record [("source", .text source), ("destination", .text destination)]
  | .createDirectory parent name => .record [("parent", .text parent), ("name", .text name)]
  | .upload file directory => .record [("name", .text file.name), ("directory", .text directory)]

/-- The call as JSON. -/
def Call.toJson (c : Call) : Json := .record [(c.kind.wireName, c.details)]

/-- The failure of one path as JSON. -/
def DeleteFailure.toJson (f : DeleteFailure) : Json :=
  .record [("path", .text f.path), ("reason", .text f.reason)]

/-- The report as JSON. -/
def DeleteReport.toJson (r : DeleteReport) : Json :=
  .record [("deleted", .texts r.deleted), ("failed", .arr (r.failed.map (·.toJson)))]

end CloudDrive.Remote
