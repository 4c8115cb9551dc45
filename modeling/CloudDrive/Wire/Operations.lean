import CloudDrive.Batch
import CloudDrive.Json.Reader
import CloudDrive.Ledger
import CloudDrive.Time.Rfc3339
import CloudDrive.Wire.Entries

/-!
# Operations, batches and tasks as JSON

The wire form of what is done to the store: `toJson` writes it, `ofJson?` reads it.
-/

namespace CloudDrive

namespace Remote.UploadFile

/-- The file as JSON, byte by byte. -/
def toJson (f : UploadFile) : Json :=
  .record [("name", .text f.name), ("data", .arr (f.data.map fun b => .nat b.toNat))]

/-- The file that a value tells. -/
def ofJson? (j : Json) : Option UploadFile := do
  let r ← j.record? ["name", "data"]
  return {
    name := ← r.required "name" Json.text?
    data := ← r.required "data" (Json.list? Json.byte?) }

end Remote.UploadFile

namespace Operation

/-- The operation as JSON; its kind stands in the field `op`. -/
def toJson : Operation → Json
  | .moveEntries sources destination =>
    .record [("op", .text "move_entries"), ("sources", .texts sources),
      ("destination", .text destination)]
  | .moveToTrash sources => .record [("op", .text "move_to_trash"), ("sources", .texts sources)]
  | .restoreFromTrash names => .record [("op", .text "restore_from_trash"), ("names", .texts names)]
  | .deleteEntries paths => .record [("op", .text "delete_entries"), ("paths", .texts paths)]
  | .createDirectory parent name =>
    .record [("op", .text "create_directory"), ("parent", .text parent), ("name", .text name)]
  | .rename path newName =>
    .record [("op", .text "rename"), ("path", .text path), ("new_name", .text newName)]
  | .upload file directory =>
    .record [("op", .text "upload"), ("file", file.toJson), ("directory", .text directory)]

/-- The operation of a kind whose fields a value gives. -/
def ofFields? (kind : String) (j : Json) : Option Operation :=
  if kind = "move_entries" then do
    let r ← j.record? ["sources", "destination"]
    return .moveEntries (← r.required "sources" (Json.list? Json.text?))
      (← r.required "destination" Json.text?)
  else if kind = "move_to_trash" then do
    let r ← j.record? ["sources"]
    return .moveToTrash (← r.required "sources" (Json.list? Json.text?))
  else if kind = "restore_from_trash" then do
    let r ← j.record? ["names"]
    return .restoreFromTrash (← r.required "names" (Json.list? Json.text?))
  else if kind = "delete_entries" then do
    let r ← j.record? ["paths"]
    return .deleteEntries (← r.required "paths" (Json.list? Json.text?))
  else if kind = "create_directory" then do
    let r ← j.record? ["parent", "name"]
    return .createDirectory (← r.required "parent" Json.text?) (← r.required "name" Json.text?)
  else if kind = "rename" then do
    let r ← j.record? ["path", "new_name"]
    return .rename (← r.required "path" Json.text?) (← r.required "new_name" Json.text?)
  else if kind = "upload" then do
    let r ← j.record? ["file", "directory"]
    return .upload (← r.required "file" Remote.UploadFile.ofJson?)
      (← r.required "directory" Json.text?)
  else
    none

/-- The operation that a value tells a reader with this conversion of numbers. -/
def ofJsonBy? (double? : Json.Doubles) (j : Json) : Option Operation := do
  let (kind, fields) ← j.selfTagged? double? "op"
  ofFields? kind fields

/-- The operation that a value tells. -/
def ofJson? : Json → Option Operation := ofJsonBy? Json.nearest?

end Operation

namespace MoveRequest

/-- The request as JSON. -/
def toJson (m : MoveRequest) : Json :=
  .record [("source_path", .text m.source), ("destination_path", .text m.destination)]

/-- The request that a value tells. -/
def ofJson? (j : Json) : Option MoveRequest := do
  let r ← j.record? ["source_path", "destination_path"]
  return {
    source := ← r.required "source_path" Json.text?
    destination := ← r.required "destination_path" Json.text? }

end MoveRequest

namespace MoveFailure

/-- The failure as JSON. -/
def toJson (f : MoveFailure) : Json :=
  .record [("source_path", .text f.source), ("reason", .text f.reason)]

/-- The failure that a value tells. -/
def ofJson? (j : Json) : Option MoveFailure := do
  let r ← j.record? ["source_path", "reason"]
  return {
    source := ← r.required "source_path" Json.text?
    reason := ← r.required "reason" Json.text? }

end MoveFailure

namespace BatchOutcome

/-- The outcome as JSON. -/
def toJson (o : BatchOutcome) : Json :=
  .record [("success_count", .nat o.successCount),
    ("failures", .arr (o.failures.map (·.toJson))),
    ("total", .nat o.total), ("conflicts", .nat o.conflicts)]

/-- The outcome that a value tells. -/
def ofJson? (j : Json) : Option BatchOutcome := do
  let r ← j.record? ["success_count", "failures", "total", "conflicts"]
  return {
    successCount := ← r.required "success_count" Json.nat64?
    failures := ← r.required "failures" (Json.list? MoveFailure.ofJson?)
    total := ← r.required "total" Json.nat64?
    conflicts := ← r.required "conflicts" Json.nat64? }

end BatchOutcome

/-- The task as JSON. -/
def Task.toJson (t : Task) : Json :=
  .record [("id", .nat t.id.number), ("label", .text t.label), ("status", .text t.status.label),
    ("started_at", t.startedAt.toJson), ("finished_at", .optional Instant.toJson t.finishedAt),
    ("error_message", .optional .text t.error), ("summary", .optional .text t.summary),
    ("retry", .optional Operation.toJson t.retry)]

end CloudDrive
