import CloudDrive.Entry
import CloudDrive.Json.Reader
import CloudDrive.Time.Rfc3339

/-!
# Entries and listings as JSON

The wire form of entries, breadcrumbs and listings: `toJson` writes it, `ofJson?` reads it.
-/

namespace CloudDrive

/-- A time as JSON: its RFC 3339 text. -/
def Instant.toJson (t : Instant) : Json := .text t.text

/-- The time that a text tells. -/
def Instant.ofJson? (j : Json) : Option Instant := j.text?.bind Instant.parse?

namespace EntryKind

/-- The kinds by their names on the wire. -/
def wireNames : List (String × EntryKind) := [("FILE", .file), ("DIRECTORY", .directory)]

/-- The kind as JSON. -/
def toJson : EntryKind → Json
  | .file => .text "FILE"
  | .directory => .text "DIRECTORY"

/-- The kind of a name. -/
def ofJson? (j : Json) : Option EntryKind := j.oneOf? wireNames

end EntryKind

namespace Entry

/-- The fields of an entry, in their order. -/
def fieldNames : List String := ["name", "path", "type", "size", "lastModified", "owner"]

/-- The entry as JSON. -/
def toJson (e : Entry) : Json :=
  .record [("name", .text e.name), ("path", .text e.path), ("type", e.kind.toJson),
    ("size", .nat e.size.toNat), ("lastModified", e.modified.toJson), ("owner", .text e.owner)]

/-- The entry that a value tells. Size and owner may be left out. -/
def ofJson? (j : Json) : Option Entry := do
  let r ← j.record? fieldNames
  return {
    name := ← r.required "name" Json.text?
    path := ← r.required "path" Json.text?
    kind := ← r.required "type" EntryKind.ofJson?
    size := ← r.defaulted "size" 0 Json.word64?
    modified := ← r.required "lastModified" Instant.ofJson?
    owner := ← r.defaulted "owner" "" Json.text? }

end Entry

namespace Path.Crumb

/-- The crumb as JSON. -/
def toJson (c : Crumb) : Json := .record [("name", .text c.name), ("path", .text c.path)]

/-- The crumb that a value tells. -/
def ofJson? (j : Json) : Option Crumb := do
  let r ← j.record? ["name", "path"]
  return { name := ← r.required "name" Json.text?, path := ← r.required "path" Json.text? }

end Path.Crumb

namespace Listing

/-- The listing as JSON. -/
def toJson (l : Listing) : Json :=
  .record [("currentPath", .text l.path), ("breadcrumbs", .arr (l.crumbs.map (·.toJson))),
    ("items", .arr (l.entries.map (·.toJson)))]

/-- The listing that a value tells. The breadcrumbs may be left out. -/
def ofJson? (j : Json) : Option Listing := do
  let r ← j.record? ["currentPath", "breadcrumbs", "items"]
  return {
    path := ← r.required "currentPath" Json.text?
    crumbs := ← r.defaulted "breadcrumbs" [] (Json.list? Path.Crumb.ofJson?)
    entries := ← r.required "items" (Json.list? Entry.ofJson?) }

end Listing

end CloudDrive
