import CloudDrive.Cache.Transaction
import CloudDrive.Json.Reader
import CloudDrive.View

/-!
# View options, patches and scopes as JSON

The wire form of what the session keeps about its directory: `toJson` writes it, `ofJson?` reads it.
-/

namespace CloudDrive

namespace View

/-- The sort modes by their names on the wire. -/
def SortMode.wireNames : List (String × SortMode) :=
  [("NameAsc", .nameAsc), ("NameDesc", .nameDesc), ("DateDesc", .dateDesc), ("DateAsc", .dateAsc)]

/-- The name of a sort mode on the wire. -/
def SortMode.wireName : SortMode → String
  | .nameAsc => "NameAsc"
  | .nameDesc => "NameDesc"
  | .dateDesc => "DateDesc"
  | .dateAsc => "DateAsc"

/-- The quick filters by their names on the wire, which are their labels. -/
def Preset.wireNames : List (String × Preset) := Preset.every.map fun p => (p.label, p)

namespace Options

/-- The options as JSON. -/
def toJson (o : Options) : Json :=
  .record [("search", .text o.search), ("show_hidden", .bool o.showHidden),
    ("preset", .text o.preset.label), ("sort", .text o.sort.wireName)]

/-- The options that a value tells. Each may be left out. -/
def ofJson? (j : Json) : Option Options := do
  let r ← j.record? ["search", "show_hidden", "preset", "sort"]
  return {
    search := ← r.defaulted "search" "" Json.text?
    showHidden := ← r.defaulted "show_hidden" false Json.bool?
    preset := ← r.defaulted "preset" .all (Json.oneOf? Preset.wireNames)
    sort := ← r.defaulted "sort" .nameAsc (Json.oneOf? SortMode.wireNames) }

end Options

end View

namespace Cache

/-- The patch as JSON. -/
def Patch.toJson : Patch → Json
  | .remove removed => .record [("Remove", .record [("paths", .texts removed)])]
  | .move moves =>
    .record [("Move", .record [("moves", .arr (moves.map fun m => .texts [m.1, m.2]))])]

/-- The patch that a value tells. -/
def Patch.ofJson? (j : Json) : Option Patch := do
  let (tag, body) ← j.tagged?
  if tag = "Remove" then
    let r ← body.record? ["paths"]
    return .remove (← r.required "paths" (Json.list? Json.text?))
  else if tag = "Move" then
    let r ← body.record? ["moves"]
    return .move (← r.required "moves" (Json.list? (Json.pair? Json.text? Json.text?)))
  else
    none

/-- The scope as JSON. -/
def Scope.toJson : Scope → Json
  | .allListings => .text "AllListings"
  | .paths listed => .record [("Paths", .texts listed)]
  | .subtree ancestor => .record [("Subtree", .text ancestor)]

/-- The scope that a value tells. -/
def Scope.ofJson? (j : Json) : Option Scope :=
  if j.unit? = some "AllListings" then
    some .allListings
  else do
    let (tag, body) ← j.tagged?
    if tag = "Paths" then return .paths (← body.list? Json.text?)
    else if tag = "Subtree" then return .subtree (← body.text?)
    else none

end Cache

end CloudDrive
