import CloudDrive.Cache.Transaction
import CloudDrive.Proofs.Cache.Rollback
import CloudDrive.Proofs.Path.Canonical
import CloudDrive.Proofs.Relocation

/-!
# What a patch does to each directory

* `get?_moveEntry_of_not_mem`: a move leaves every directory alone that it cannot touch; this holds
  for any texts.
* `get?_moveEntry_source`, `get?_moveEntry_target`, `get?_moveEntry_apart`: the listings after a move
  of canonical paths.
-/

namespace CloudDrive.Cache

open Path (Canonical)

theorem relocates_moveListing (source destination : String) :
    Relocates OrderedTable.find? (moveListing source destination)
      (Path.rebase · source destination)
      (fun q l => Listing.ofEntries q (l.entries.map (rebasedEntry source destination))) := by
  intro t x p
  unfold moveListing
  cases hx : t.find? x with
  | none => simp
  | some l =>
    cases hq : Path.rebase x source destination with
    | none => simp [hq]
    | some q => simp [hq]

theorem nodup_keysWithin (c : Cache) (path : String) : (c.keysWithin path).Nodup :=
  c.listings.nodup_keys.filter _

theorem mem_keysWithin {c : Cache} {path key : String} :
    key ∈ c.keysWithin path ↔ (c.get? key).isSome = true ∧ Path.isWithin key path = true := by
  unfold keysWithin
  rw [List.mem_filter, mem_keys_iff]

theorem mem_touchedByMove {c : Cache} {source destination key : String} :
    key ∈ c.touchedByMove source destination ↔
      key = Path.parent source ∨ key = Path.parent destination ∨
        key ∈ c.keysWithin source ∨
          ∃ k ∈ c.keysWithin source, Path.rebase k source destination = some key := by
  unfold touchedByMove
  simp only [List.mem_cons, List.mem_flatMap, List.mem_append, Option.mem_toList,
    List.not_mem_nil, or_false]
  constructor
  · rintro (h | h | ⟨k, hk, h | rfl⟩)
    · exact .inl h
    · exact .inr (.inl h)
    · exact .inr (.inr (.inr ⟨k, hk, h⟩))
    · exact .inr (.inr (.inl hk))
  · rintro (h | h | h | ⟨k, hk, h⟩)
    · exact .inl h
    · exact .inr (.inl h)
    · exact .inr (.inr ⟨key, h, .inr rfl⟩)
    · exact .inr (.inr ⟨k, hk, .inl h⟩)

/-! ## Stages of a move -/

section
variable (c : Cache) (source destination : String)

/-- The listings after the moved entry has left its directory. -/
def withoutSource : OrderedTable Listing :=
  c.listings.modify (Path.parent source) (dropEntry source)

/-- The listings after those at or beneath the source have got their new keys. -/
def carried : OrderedTable Listing :=
  (c.keysWithin source).foldl (moveListing source destination) (c.withoutSource source)

/-- What the directory of the destination gains. -/
def placed (l : Listing) : Listing :=
  match c.listedEntry? source with
  | some e => placeEntry (e.relocated destination) l
  | none => l

theorem find?_withoutSource (key : String) :
    (c.withoutSource source).find? key =
      if key = Path.parent source then (c.get? key).map (dropEntry source) else c.get? key :=
  OrderedTable.find?_modify _ _ _ _

theorem get?_moveEntry (key : String) :
    (c.moveEntry source destination).get? key =
      if key = Path.parent destination then
        ((c.carried source destination).find? key).map (c.placed source destination)
      else (c.carried source destination).find? key := by
  unfold moveEntry get? placed
  cases c.listedEntry? source with
  | some e => exact OrderedTable.find?_modify _ _ _ _
  | none =>
    show (c.carried source destination).find? key = _
    simp

end

/-- **A move touches no other directory** than the parents of both paths, those that are cached at
or beneath the source, and those that these become. -/
theorem get?_moveEntry_of_not_mem {c : Cache} {source destination key : String}
    (h : key ∉ c.touchedByMove source destination) :
    (c.moveEntry source destination).get? key = c.get? key := by
  rw [mem_touchedByMove] at h
  simp only [not_or, not_exists, not_and] at h
  obtain ⟨hs, hd, hk, ht⟩ := h
  rw [get?_moveEntry, if_neg hd, carried,
    (relocates_moveListing source destination).get_foldl_of_not_mem _ hk ht,
    find?_withoutSource, if_neg hs]

/-- A directory that is cached after a move was cached before, or is where one was moved to. -/
theorem isSome_of_isSome_moveEntry {c : Cache} {source destination key : String}
    (h : ((c.moveEntry source destination).get? key).isSome = true) :
    (c.get? key).isSome = true ∨
      ∃ k ∈ c.keysWithin source, Path.rebase k source destination = some key := by
  by_cases ht : ∃ k ∈ c.keysWithin source, Path.rebase k source destination = some key
  · exact .inr ht
  · push Not at ht
    have hcar : ((c.carried source destination).find? key).isSome = true := by
      rw [get?_moveEntry] at h
      split at h
      · simpa using h
      · exact h
    by_cases hk : key ∈ c.keysWithin source
    · exact .inl (mem_keysWithin.1 hk).1
    · unfold carried at hcar
      rw [(relocates_moveListing source destination).get_foldl_of_not_mem _ hk ht,
        find?_withoutSource] at hcar
      split at hcar
      · exact .inl (by simpa using hcar)
      · exact .inl hcar

theorem isSome_moveEntry {c : Cache} {source destination key : String}
    (h : (c.get? key).isSome = true) (hw : Path.isWithin key source = false) :
    ((c.moveEntry source destination).get? key).isSome = true := by
  have hcar : ((c.carried source destination).find? key).isSome = true := by
    refine (relocates_moveListing source destination).isSome_get_foldl _ ?_ ?_
    · rw [find?_withoutSource]
      split
      · simpa using h
      · exact h
    · rw [mem_keysWithin, hw]
      simp
  rw [get?_moveEntry]
  split
  · simpa using hcar
  · exact hcar

/-! ## Moves of canonical paths -/

/-- Every cached directory has a canonical path. -/
def HasCanonicalKeys (c : Cache) : Prop := ∀ key, (c.get? key).isSome = true → Canonical key

instance (c : Cache) : Decidable c.HasCanonicalKeys :=
  decidable_of_iff (∀ key ∈ c.keys, Canonical key) (by simp only [mem_keys_iff, HasCanonicalKeys])

section
variable {c : Cache} {s d : String} (hc : c.HasCanonicalKeys) (hs : Canonical s) (hd : Canonical d)
include hc hs hd

theorem HasCanonicalKeys.moveEntry : (c.moveEntry s d).HasCanonicalKeys := by
  intro key h
  by_cases hk : key ∈ c.touchedByMove s d
  · rcases mem_touchedByMove.1 hk with rfl | rfl | hk | ⟨k, hk, hq⟩
    · exact hs.parent
    · exact hd.parent
    · exact hc key (mem_keysWithin.1 hk).1
    · exact (hc k (mem_keysWithin.1 hk).1).rebase hs hd hq
  · rw [get?_moveEntry_of_not_mem hk] at h
    exact hc key h

/-- Apart from source and destination only the two parents change. -/
theorem get?_moveEntry_apart {key : String} (hks : Path.isWithin key s = false)
    (hkd : Path.isWithin key d = false) :
    (c.moveEntry s d).get? key =
      let left := if key = Path.parent s then (c.get? key).map (dropEntry s) else c.get? key
      if key = Path.parent d then left.map (c.placed s d) else left := by
  have hcar : (c.carried s d).find? key = (c.withoutSource s).find? key := by
    refine (relocates_moveListing s d).get_foldl_of_not_mem _ (fun h => ?_) fun k hk hq => ?_
    · rw [mem_keysWithin, hks] at h
      cases h.2
    · have := Path.isWithin_rebase (hc k (mem_keysWithin.1 hk).1) hs hd hq
      rw [hkd] at this
      cases this
  rw [get?_moveEntry, hcar, find?_withoutSource]

/-- Nothing is cached any more at or beneath the source, if no path lies both there and at or beneath
the destination. -/
theorem get?_moveEntry_source
    (hdisj : ∀ q, Canonical q → Path.isWithin q s = true → Path.isWithin q d = false)
    {key : String} (hk : Canonical key) (hw : Path.isWithin key s = true) :
    (c.moveEntry s d).get? key = none := by
  have ht : ∀ k ∈ c.keysWithin s, Path.rebase k s d ≠ some key := fun k hk' hq => by
    have := Path.isWithin_rebase (hc k (mem_keysWithin.1 hk').1) hs hd hq
    rw [hdisj key hk hw] at this
    cases this
  have hcar : (c.carried s d).find? key = none := by
    by_cases hmem : key ∈ c.keysWithin s
    · exact (relocates_moveListing s d).get_foldl_of_mem _ hmem ht
    · unfold carried
      rw [(relocates_moveListing s d).get_foldl_of_not_mem _ hmem ht, find?_withoutSource]
      rw [mem_keysWithin, hw] at hmem
      have hn : c.get? key = none := by simpa using hmem
      simp [hn]
  rw [get?_moveEntry, hcar]
  simp

/-- The listings at or beneath the source are found at or beneath the destination, if nothing was
cached there. -/
theorem get?_moveEntry_target
    (hfree : ∀ key, (c.get? key).isSome = true → Path.isWithin key d = false)
    {x q : String} (hx : Canonical x) (hq : Path.rebase x s d = some q)
    (hxs : x ≠ Path.parent s) (hqd : q ≠ Path.parent d) :
    (c.moveEntry s d).get? q =
      (c.get? x).map fun l => Listing.ofEntries q (l.entries.map (rebasedEntry s d)) := by
  have hr := relocates_moveListing s d
  have hinj : ∀ y ∈ c.keysWithin s, Path.rebase y s d = some q → y = x := fun y hy hyq => by
    have h₁ := Path.rebase_rebase (hc y (mem_keysWithin.1 hy).1) hs hd hyq
    rw [Path.rebase_rebase hx hs hd hq, Option.some.injEq] at h₁
    exact h₁.symm
  have hnew : ∀ y ∈ c.keysWithin s, ∀ r, Path.rebase y s d = some r → r ∉ c.keysWithin s := by
    intro y hy r hyr hmem
    have := hfree r (mem_keysWithin.1 hmem).1
    rw [Path.isWithin_rebase (hc y (mem_keysWithin.1 hy).1) hs hd hyr] at this
    cases this
  have hwx : (c.withoutSource s).find? x = c.get? x := by
    rw [find?_withoutSource, if_neg hxs]
  rw [get?_moveEntry, if_neg hqd]
  unfold carried
  cases hl : c.get? x with
  | some l =>
    have hmem := mem_keysWithin.2 ⟨by rw [hl]; rfl, Path.isWithin_of_rebase hx hq⟩
    exact hr.get_foldl_target (c.nodup_keysWithin s) _ hmem (hwx.trans hl) hq hinj hnew
  | none =>
    have hqn : c.get? q = none := by
      cases hg : c.get? q with
      | none => rfl
      | some l =>
        have := hfree q (by rw [hg]; rfl)
        rw [Path.isWithin_rebase hx hs hd hq] at this
        cases this
    rw [hr.get_foldl_of_not_mem, find?_withoutSource, hqn]
    · simp
    · rw [mem_keysWithin, hqn]
      simp
    · intro y hy hyq
      rw [hinj y hy hyq, mem_keysWithin, hl] at hy
      cases hy.1

end

end CloudDrive.Cache
