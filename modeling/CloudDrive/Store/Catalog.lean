import CloudDrive.Entry
import CloudDrive.Json.Parser
import CloudDrive.Json.Printer
import CloudDrive.Wire.Entries

/-!
# The catalog

The entries of a store, each under its path, in the order of the paths. The root is no entry.

* `pairwise_insertByPath`: an insertion keeps the order.
* `find?_insert`, `find?_erase`, `find?_eraseWithin`: look-up after each change.
-/

namespace CloudDrive.Store

/-- An entry put to its place among entries in the order of their paths. -/
def insertByPath (e : Entry) : List Entry → List Entry
  | [] => [e]
  | x :: rest =>
    if e.path < x.path then e :: x :: rest
    else if e.path = x.path then e :: rest
    else x :: insertByPath e rest

theorem mem_insertByPath {e y : Entry} {l : List Entry} (h : y ∈ insertByPath e l) :
    y = e ∨ y ∈ l := by
  induction l with
  | nil => exact .inl (by simpa [insertByPath] using h)
  | cons x l ih =>
    unfold insertByPath at h
    split at h
    · simpa using h
    · split at h
      · rcases List.mem_cons.1 h with h | h
        · exact .inl h
        · exact .inr (List.mem_cons_of_mem _ h)
      · rcases List.mem_cons.1 h with h | h
        · exact .inr (h ▸ List.mem_cons_self)
        · exact (ih h).imp_right (List.mem_cons_of_mem _)

theorem pairwise_insertByPath (e : Entry) {l : List Entry}
    (h : l.Pairwise (·.path < ·.path)) : (insertByPath e l).Pairwise (·.path < ·.path) := by
  induction l with
  | nil => simp [insertByPath]
  | cons x l ih =>
    have hx := List.pairwise_cons.1 h
    unfold insertByPath
    split
    · next hlt =>
      refine List.pairwise_cons.2 ⟨fun y hy => ?_, h⟩
      rcases List.mem_cons.1 hy with rfl | hy
      · exact hlt
      · exact String.lt_trans hlt (hx.1 y hy)
    · next hlt =>
      split
      · next heq => exact List.pairwise_cons.2 ⟨fun y hy => heq ▸ hx.1 y hy, hx.2⟩
      · next hne =>
        refine List.pairwise_cons.2 ⟨fun y hy => ?_, ih hx.2⟩
        rcases mem_insertByPath hy with rfl | hy
        · exact String.not_le.1 fun hle => hne (String.le_antisymm (String.not_lt.1 hlt) hle).symm
        · exact hx.1 y hy

/-- The entries of a store, in the order of their paths. -/
structure Catalog where
  entries : List Entry
  sorted : entries.Pairwise (·.path < ·.path)
  deriving DecidableEq

namespace Catalog

/-- No entries. -/
def empty : Catalog := ⟨[], .nil⟩

instance : Inhabited Catalog := ⟨empty⟩

/-- The paths of the entries, in order. -/
def paths (c : Catalog) : List String := c.entries.map (·.path)

/-- The entry at a path. -/
def find? (c : Catalog) (path : String) : Option Entry := c.entries.find? (·.path == path)

/-- Does an entry lie at the path? The root always exists. -/
def contains (c : Catalog) (path : String) : Bool := path == Path.root || (c.find? path).isSome

/-- An entry put under its path; it replaces any that lies there. -/
def insert (c : Catalog) (e : Entry) : Catalog :=
  ⟨insertByPath e c.entries, pairwise_insertByPath e c.sorted⟩

/-- The entries that pass a test. -/
def filter (c : Catalog) (p : Entry → Bool) : Catalog :=
  ⟨c.entries.filter p, c.sorted.sublist List.filter_sublist⟩

/-- The entry at a path taken out. -/
def erase (c : Catalog) (path : String) : Catalog := c.filter (·.path != path)

/-- The entry at a path taken out, with all beneath it. -/
def eraseWithin (c : Catalog) (path : String) : Catalog :=
  c.filter fun e => ! Path.isWithin e.path path

/-- The entries put into an empty catalog one after another. -/
def ofEntries (entries : List Entry) : Catalog := entries.foldl insert empty

/-- What lies directly inside a directory. -/
def children (c : Catalog) (directory : String) : List Entry :=
  c.entries.filter fun e => Path.parent e.path == directory && e.path != directory

/-- The entry at `path` taken to where the path lies after `source` has become `destination`. -/
def carry (source destination : String) (c : Catalog) (path : String) : Catalog :=
  match c.find? path, Path.rebase path source destination with
  | some e, some newPath => (c.erase path).insert (e.relocated newPath)
  | _, _ => c.erase path

/-- The entry at `source` and all beneath it moved to `destination`, in the order of the paths. -/
def move (c : Catalog) (source destination : String) : Catalog :=
  (c.paths.filter (Path.isWithin · source)).foldl (carry source destination) c

/-! ## Fixtures -/

/-- The catalog as JSON. -/
def toJson (c : Catalog) : Json := .record [("entries", .arr (c.entries.map (·.toJson)))]

/-- The catalog that a value tells; of several entries with one path the last counts. -/
def ofJson? (j : Json) : Option Catalog := do
  let r ← j.record? ["entries"]
  return ofEntries (← r.required "entries" (Json.list? Entry.ofJson?))

/-- The text of a fixture. -/
def toText (c : Catalog) : String := c.toJson.pretty

/-- The catalog of a fixture. -/
def ofText? (text : String) : Option Catalog := (Json.parse? text).bind ofJson?

/-! ## Lemmas -/

theorem find?_insertByPath {e : Entry} {l : List Entry} (h : l.Pairwise (·.path < ·.path))
    (path : String) :
    (insertByPath e l).find? (·.path == path) =
      if path = e.path then some e else l.find? (·.path == path) := by
  induction l with
  | nil =>
    by_cases hp : path = e.path
    · simp [insertByPath, hp]
    · have hp' : ¬ e.path = path := fun h => hp h.symm
      simp [insertByPath, hp, hp']
  | cons x l ih =>
    have hx := List.pairwise_cons.1 h
    unfold insertByPath
    by_cases hp : path = e.path
    · subst hp
      split
      · simp
      · split
        · simp
        · next hne =>
          rw [List.find?_cons_of_neg (by simpa using fun e => hne e.symm), ih hx.2]
          simp
    · have hp' : ¬ e.path = path := fun h => hp h.symm
      split
      · rw [List.find?_cons_of_neg (by simpa using hp')]
      · split
        · next heq =>
          rw [List.find?_cons_of_neg (by simpa using hp'),
            List.find?_cons_of_neg (by simpa [← heq] using hp')]
        · simp only [List.find?_cons, ih hx.2, hp, if_false]

/-- An inserted entry is found at its path, and every other entry where it was. -/
@[simp] theorem find?_insert (c : Catalog) (e : Entry) (path : String) :
    (c.insert e).find? path = if path = e.path then some e else c.find? path :=
  find?_insertByPath c.sorted path

theorem find?_filter_path (c : Catalog) (p : String → Bool) (path : String) :
    (c.filter (p ·.path)).find? path = if p path then c.find? path else none := by
  unfold find? filter
  have hpath : (fun e : Entry => decide (p e.path = true ∧ (e.path == path) = true)) =
      fun e => p path && e.path == path := by
    funext e
    by_cases h : e.path = path
    · simp [h]
    · simp [beq_eq_false_iff_ne.2 h]
  rw [List.find?_filter, hpath]
  cases p path <;> simp

@[simp] theorem find?_erase (c : Catalog) (erased path : String) :
    (c.erase erased).find? path = if path = erased then none else c.find? path := by
  unfold erase
  rw [find?_filter_path c (· != erased)]
  by_cases h : path = erased <;> simp [h]

@[simp] theorem find?_eraseWithin (c : Catalog) (erased path : String) :
    (c.eraseWithin erased).find? path =
      if Path.isWithin path erased then none else c.find? path := by
  unfold eraseWithin
  rw [find?_filter_path c fun p => ! Path.isWithin p erased]
  cases Path.isWithin path erased <;> rfl

end Catalog

end CloudDrive.Store
