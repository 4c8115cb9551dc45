/-!
# Ordered tables

Values under text keys. A table keeps its keys in the order in which they came: a new key goes last,
a value stored under a key that is there keeps the place of the key, and what is left after a
removal keeps its order.

* `find?_insert`, `find?_erase`, `find?_filterKeys`, `find?_mapValues`: look-up after each
  operation.
* `keys_mapValues`, `keys_insert_of_contains`: what keeps the keys.
-/

namespace CloudDrive

/-- A table of values under text keys, in the order in which the keys came. -/
structure OrderedTable (α : Type) where
  /-- The keys with their values, in order. -/
  toList : List (String × α)
  nodup_keys : (toList.map (·.1)).Nodup
  deriving DecidableEq

namespace OrderedTable

variable {α : Type}

/-- The table without keys. -/
def empty : OrderedTable α := ⟨[], by simp⟩

instance : Inhabited (OrderedTable α) := ⟨empty⟩

/-- The keys, in order. -/
def keys (t : OrderedTable α) : List String := t.toList.map (·.1)

/-- The values, in the order of their keys. -/
def values (t : OrderedTable α) : List α := t.toList.map (·.2)

/-- The number of keys. -/
def size (t : OrderedTable α) : Nat := t.toList.length

/-- The value under a key. -/
def find? (t : OrderedTable α) (key : String) : Option α :=
  (t.toList.find? (·.1 == key)).map (·.2)

/-- Is there a value under the key? -/
def contains (t : OrderedTable α) (key : String) : Bool := t.keys.contains key

/-- A value for every key. -/
def mapWithKey {β : Type} (t : OrderedTable α) (f : String → α → β) : OrderedTable β :=
  ⟨t.toList.map fun (k, v) => (k, f k v), by
    have h : (t.toList.map fun (k, v) => (k, f k v)).map (·.1) = t.toList.map (·.1) := by simp
    rw [h]
    exact t.nodup_keys⟩

/-- Every value changed, the keys kept. -/
def mapValues {β : Type} (t : OrderedTable α) (f : α → β) : OrderedTable β :=
  t.mapWithKey fun _ v => f v

/-- A key added at the end. -/
def push (t : OrderedTable α) (key : String) (value : α) (h : t.contains key = false) :
    OrderedTable α :=
  ⟨t.toList ++ [(key, value)], by
    have h' : key ∉ t.toList.map (·.1) := by simpa [contains, keys] using h
    rw [List.map_append, List.nodup_append]
    refine ⟨t.nodup_keys, by simp, ?_⟩
    rintro a ha b hb rfl
    simp at hb
    exact h' (hb ▸ ha)⟩

/-- The value under the key replaced, or the key added at the end. -/
def insert (t : OrderedTable α) (key : String) (value : α) : OrderedTable α :=
  if h : t.contains key = false then t.push key value h
  else t.mapWithKey fun k v => if k = key then value else v

/-- The keys that pass a test. -/
def filterKeys (t : OrderedTable α) (p : String → Bool) : OrderedTable α :=
  ⟨t.toList.filter fun (k, _) => p k, by
    have h := (List.filter_sublist (l := t.toList) (p := fun x => p x.1)).map (·.1)
    exact t.nodup_keys.sublist h⟩

/-- The table without a key. -/
def erase (t : OrderedTable α) (key : String) : OrderedTable α := t.filterKeys (· != key)

/-- The value under a key changed, if there is one. -/
def modify (t : OrderedTable α) (key : String) (f : α → α) : OrderedTable α :=
  t.mapWithKey fun k v => if k = key then f v else v

/-! ## Look-up -/

theorem find?_list_mapWithKey {β : Type} (l : List (String × α)) (f : String → α → β)
    (key : String) :
    ((l.map fun (k, v) => (k, f k v)).find? (·.1 == key)).map (·.2) =
      ((l.find? (·.1 == key)).map (·.2)).map (f key) := by
  induction l with
  | nil => rfl
  | cons x l ih =>
    obtain ⟨k, v⟩ := x
    by_cases h : k = key
    · subst h; simp
    · simpa [List.find?_cons, h] using ih

@[simp] theorem find?_empty (key : String) : (empty : OrderedTable α).find? key = none := rfl

@[simp] theorem find?_mapWithKey {β : Type} (t : OrderedTable α) (f : String → α → β)
    (key : String) : (t.mapWithKey f).find? key = (t.find? key).map (f key) :=
  find?_list_mapWithKey t.toList f key

@[simp] theorem find?_mapValues {β : Type} (t : OrderedTable α) (f : α → β) (key : String) :
    (t.mapValues f).find? key = (t.find? key).map f := by
  simp [mapValues]

@[simp] theorem find?_modify (t : OrderedTable α) (key : String) (f : α → α) (k : String) :
    (t.modify key f).find? k = if k = key then (t.find? k).map f else t.find? k := by
  unfold modify
  rw [find?_mapWithKey]
  split <;> simp

@[simp] theorem find?_filterKeys (t : OrderedTable α) (p : String → Bool) (key : String) :
    (t.filterKeys p).find? key = if p key then t.find? key else none := by
  unfold find? filterKeys
  have hkey : (fun x : String × α => decide (p x.1 = true ∧ (x.1 == key) = true)) =
      fun x => p key && x.1 == key := by
    funext x
    by_cases h : x.1 = key
    · simp [h]
    · simp [beq_eq_false_iff_ne.2 h]
  simp only [List.find?_filter, hkey]
  cases p key <;> simp

@[simp] theorem find?_erase (t : OrderedTable α) (key k : String) :
    (t.erase key).find? k = if k = key then none else t.find? k := by
  unfold erase
  rw [find?_filterKeys]
  by_cases h : k = key <;> simp [h]

theorem contains_eq_isSome (t : OrderedTable α) (key : String) :
    t.contains key = (t.find? key).isSome := by
  unfold contains keys find?
  induction t.toList with
  | nil => rfl
  | cons x l ih =>
    obtain ⟨k, v⟩ := x
    by_cases h : k = key
    · subst h; simp
    · have h' : ¬ key = k := fun e => h e.symm
      rw [List.find?_cons_of_neg (by simpa using h), ← ih]
      simp [h']

@[simp] theorem find?_insert (t : OrderedTable α) (key : String) (value : α) (k : String) :
    (t.insert key value).find? k = if k = key then some value else t.find? k := by
  unfold insert
  split
  · next h =>
    have hn : t.find? key = none := by
      rw [contains_eq_isSome] at h
      simpa using h
    unfold find? at hn ⊢
    rw [push, List.find?_append]
    by_cases hk : k = key
    · subst hk
      rw [Option.map_eq_none_iff.1 hn]
      simp
    · rw [List.find?_cons_of_neg (by simpa using fun e => hk e.symm)]
      simp [hk]
  · next h =>
    have hs : (t.find? key).isSome = true := by
      rw [← contains_eq_isSome]
      simpa using h
    rw [find?_mapWithKey]
    by_cases hk : k = key
    · subst hk
      obtain ⟨v, hv⟩ := Option.isSome_iff_exists.1 hs
      simp [hv]
    · simp [hk]

/-! ## Keys -/

@[simp] theorem keys_mapWithKey {β : Type} (t : OrderedTable α) (f : String → α → β) :
    (t.mapWithKey f).keys = t.keys := by
  simp [keys, mapWithKey]

@[simp] theorem keys_mapValues {β : Type} (t : OrderedTable α) (f : α → β) :
    (t.mapValues f).keys = t.keys := by
  simp [mapValues]

theorem keys_insert_of_contains {t : OrderedTable α} {key : String} (h : t.contains key = true)
    (value : α) : (t.insert key value).keys = t.keys := by
  simp [insert, h]

end OrderedTable

end CloudDrive
