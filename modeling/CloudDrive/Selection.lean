/-!
# Selection

The selected names in the order of selection, and the anchor from which a range is extended. Indices
refer to the visible sequence, which the caller gives as the list of its names.

* `mem_insertNew`, `nodup_insertNew`: the selection grows at its end and holds each name once.
* `names_retainVisible`: pruning keeps the survivors in order.
-/

namespace CloudDrive

/-- The selection. -/
structure Selection where
  /-- The selected names, in the order of selection. -/
  names : List String := []
  /-- The visible index from which a range is extended. -/
  anchor : Option Nat := none
  /-- The name that was toggled off last, and the place it had, so that toggling it again puts it
  back there. -/
  untoggled : Option (String × Nat) := none
  deriving Repr, DecidableEq, Inhabited

namespace Selection

/-- No selection. -/
def empty : Selection := {}

/-- Is the name selected? -/
def contains (s : Selection) (name : String) : Bool := s.names.contains name

/-- Nothing selected means no anchor. -/
def dropIdleAnchor (s : Selection) : Selection :=
  if s.names.isEmpty then { s with anchor := none } else s

/-- The names with `name` added at the end, unless it is among them. -/
def insertNew (names : List String) (name : String) : List String :=
  if names.contains name then names else names ++ [name]

/-- Only the entry `name`, at the visible index `index`. -/
def selectOnly (_ : Selection) (name : String) (index : Nat) : Selection :=
  { names := [name], anchor := some index, untoggled := none }

/-- Where a name goes that is toggled on: to the place that it was toggled off from, if it was the
last one toggled off, and to the end otherwise. -/
def placeFor (s : Selection) (name : String) : Nat :=
  match s.untoggled with
  | some (last, place) => if last = name then min place s.names.length else s.names.length
  | none => s.names.length

/-- The entry `name` added or taken away; the others stay. -/
def toggle (s : Selection) (name : String) (index : Nat) : Selection :=
  if s.contains name then
    dropIdleAnchor
      { names := s.names.erase name
        anchor := some index
        untoggled := some (name, s.names.idxOf name) }
  else
    { names := s.names.insertIdx (s.placeFor name) name
      anchor := some index
      untoggled := none }

/-- The visible names between two indices, both included, in either order; an index beyond the end
counts as the last one. -/
def between (first second : Nat) (visible : List String) : List String :=
  let last := visible.length - 1
  let low := min (min first second) last
  let high := min (max first second) last
  (visible.drop low).take (high + 1 - low)

/-- The names between two visible indices added. -/
def selectRange (s : Selection) (first second : Nat) (visible : List String) : Selection :=
  { s with names := (between first second visible).foldl insertNew s.names }

/-- The range from the anchor to a visible index added; without an anchor, only the entry there. -/
def extendTo (s : Selection) (target : Nat) (visible : List String) : Selection :=
  match s.anchor with
  | some anchor => s.selectRange anchor target visible
  | none =>
    match visible[target]? with
    | some name => s.selectOnly name target
    | none => s

/-- The entry `name` added if it is not selected; it becomes the anchor if there is none. -/
def ensureSelected (s : Selection) (name : String) (index : Nat) : Selection :=
  if s.contains name then s
  else { s with names := s.names ++ [name], anchor := s.anchor.orElse fun _ => some index }

/-- Every visible entry. -/
def selectAll (s : Selection) (visible : List String) : Selection :=
  dropIdleAnchor { s with names := visible.eraseDups, untoggled := none }

/-- Nothing. -/
def clear (_ : Selection) : Selection := empty

/-- What is still visible. An anchor beyond the visible sequence is dropped. -/
def retainVisible (s : Selection) (visible : List String) : Selection :=
  dropIdleAnchor
    { s with
      names := s.names.filter visible.contains
      anchor := s.anchor.filter (· < visible.length) }

/-! ## Lemmas -/

@[simp] theorem names_dropIdleAnchor (s : Selection) : s.dropIdleAnchor.names = s.names := by
  unfold dropIdleAnchor
  split <;> rfl

theorem mem_insertNew {names : List String} {a b : String} :
    a ∈ insertNew names b ↔ a ∈ names ∨ a = b := by
  unfold insertNew
  split
  · next h => simp at h; constructor
              · exact .inl
              · rintro (h' | rfl)
                · exact h'
                · exact h
  · simp

theorem nodup_insertNew {names : List String} (h : names.Nodup) (name : String) :
    (insertNew names name).Nodup := by
  unfold insertNew
  split
  · exact h
  · next hn =>
    simp at hn
    rw [List.nodup_append]
    exact ⟨h, by simp, by rintro a ha b hb rfl; simp at hb; exact hn (hb ▸ ha)⟩

/-- Pruning keeps exactly the visible names, in order. -/
theorem names_retainVisible (s : Selection) (visible : List String) :
    (s.retainVisible visible).names = s.names.filter visible.contains := by
  simp [retainVisible]

end Selection

end CloudDrive
