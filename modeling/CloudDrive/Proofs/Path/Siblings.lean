import CloudDrive.Proofs.Path.Canonical

/-!
# Entries of one directory

* `Siblings`: paths of entries of one directory.
* `IntoDirectory`: moves of entries of one directory into another. Neither two sources nor two
  destinations of such moves have anything beneath them in common (`IntoDirectory.eq_of_source`,
  `IntoDirectory.eq_of_destination`).
-/

namespace CloudDrive

open Path (Canonical IsComponent)

/-- The paths lie in one directory. -/
def Siblings (paths : List String) : Prop :=
  ∃ p, Canonical p ∧ ∀ s ∈ paths, ∃ n, IsComponent n ∧ s = Path.join p n

theorem Siblings.mono {paths paths' : List String} (h : Siblings paths) (hs : paths' ⊆ paths) :
    Siblings paths' := by
  obtain ⟨p, hp, hn⟩ := h
  exact ⟨p, hp, fun s hm => hn s (hs hm)⟩

/-- Names of entries of a directory; without a name the directory may be anything. -/
theorem siblings_map {p : String} {names : List String}
    (h : ∀ n ∈ names, Canonical p ∧ IsComponent n) : Siblings (names.map (Path.join p)) := by
  cases names with
  | nil => exact ⟨Path.root, Path.canonical_root, by simp⟩
  | cons n names =>
    refine ⟨p, (h n List.mem_cons_self).1, fun s hs => ?_⟩
    obtain ⟨m, hm, rfl⟩ := List.mem_map.1 hs
    exact ⟨m, (h m hm).2, rfl⟩

/-- The moves take entries of the directory `p` into the directory `d`, each under its own name and
none twice. -/
structure IntoDirectory (p d : String) (moves : List (String × String)) : Prop where
  source : Canonical p
  destination : Canonical d
  named : ∀ m ∈ moves, ∃ n, IsComponent n ∧ m = (Path.join p n, Path.join d n)
  distinct : moves.Pairwise (·.1 ≠ ·.1)

theorem name_eq_of_isWithin {p k n n' : String} (hp : Canonical p) (hk : Canonical k)
    (hn : IsComponent n) (hn' : IsComponent n') (h : Path.isWithin k (Path.join p n) = true)
    (h' : Path.isWithin k (Path.join p n') = true) : n = n' := by
  have hj := Path.canonical_join hp hn
  have hj' := Path.canonical_join hp hn'
  rcases Path.isWithin_total hk hj hj' h h' with hw | hw
  · rcases (Path.isWithin_join hp hn hj').1 hw with he | hw
    · exact (Path.join_inj hp hp hn hn' he).2
    · rw [Path.not_isWithin_join hp hn'] at hw
      cases hw
  · rcases (Path.isWithin_join hp hn' hj).1 hw with he | hw
    · exact (Path.join_inj hp hp hn' hn he).2.symm
    · rw [Path.not_isWithin_join hp hn] at hw
      cases hw

section
variable {p d : String} {moves : List (String × String)} (hm : IntoDirectory p d moves)
include hm

theorem IntoDirectory.canonical {m : String × String} (h : m ∈ moves) :
    Canonical m.1 ∧ Canonical m.2 := by
  obtain ⟨n, hn, rfl⟩ := hm.named m h
  exact ⟨Path.canonical_join hm.source hn, Path.canonical_join hm.destination hn⟩

theorem IntoDirectory.parents {m : String × String} (h : m ∈ moves) :
    Path.parent m.1 = p ∧ Path.parent m.2 = d := by
  obtain ⟨n, hn, rfl⟩ := hm.named m h
  exact ⟨Path.parent_join hm.source hn, Path.parent_join hm.destination hn⟩

theorem IntoDirectory.not_isWithin {m : String × String} (h : m ∈ moves) :
    Path.isWithin p m.1 = false ∧ Path.isWithin d m.2 = false := by
  obtain ⟨n, hn, rfl⟩ := hm.named m h
  exact ⟨Path.not_isWithin_join hm.source hn, Path.not_isWithin_join hm.destination hn⟩

theorem IntoDirectory.sublist {moves' : List (String × String)} (h : moves'.Sublist moves) :
    IntoDirectory p d moves' :=
  ⟨hm.source, hm.destination, fun m hm' => hm.named m (h.subset hm'), hm.distinct.sublist h⟩

theorem IntoDirectory.eq_of_source {a b : String × String} (ha : a ∈ moves) (hb : b ∈ moves)
    {k : String} (hk : Canonical k) (hka : Path.isWithin k a.1 = true)
    (hkb : Path.isWithin k b.1 = true) : a = b := by
  obtain ⟨n, hn, rfl⟩ := hm.named a ha
  obtain ⟨n', hn', rfl⟩ := hm.named b hb
  rw [name_eq_of_isWithin hm.source hk hn hn' hka hkb]

theorem IntoDirectory.eq_of_destination {a b : String × String} (ha : a ∈ moves) (hb : b ∈ moves)
    {k : String} (hk : Canonical k) (hka : Path.isWithin k a.2 = true)
    (hkb : Path.isWithin k b.2 = true) : a = b := by
  obtain ⟨n, hn, rfl⟩ := hm.named a ha
  obtain ⟨n', hn', rfl⟩ := hm.named b hb
  rw [name_eq_of_isWithin hm.destination hk hn hn' hka hkb]

/-- The destination lies at or beneath a source: then so does what lies at any destination. -/
theorem IntoDirectory.isWithin_source {m b : String × String} (h : m ∈ moves) (hb : b ∈ moves)
    (hd : Path.isWithin d b.1 = true) {x : String} (hx : Canonical x)
    (hw : Path.isWithin x m.2 = true) : Path.isWithin x b.1 = true := by
  obtain ⟨-, hmc⟩ := hm.canonical h
  have hxd := Path.isWithin_trans hx hmc hmc.parent hw (Path.isWithin_parent hmc)
  rw [(hm.parents h).2] at hxd
  exact Path.isWithin_trans hx hm.destination (hm.canonical hb).1 hxd hd

theorem IntoDirectory.swap : IntoDirectory d p (moves.map Prod.swap) := by
  refine ⟨hm.destination, hm.source, fun m h => ?_, ?_⟩
  · obtain ⟨y, hy, rfl⟩ := List.mem_map.1 h
    obtain ⟨n, hn, rfl⟩ := hm.named y hy
    exact ⟨n, hn, rfl⟩
  · refine List.pairwise_map.2 (hm.distinct.imp_of_mem fun {a b} ha hb hne he => hne ?_)
    obtain ⟨n, hn, rfl⟩ := hm.named a ha
    obtain ⟨n', hn', rfl⟩ := hm.named b hb
    exact congrArg (Path.join p) (Path.join_inj hm.destination hm.destination hn hn' he).2

theorem IntoDirectory.ne_of_sublist {a b : String × String} (h : [a, b].Sublist moves) :
    a ≠ b := by
  have := hm.distinct.sublist h
  rintro rfl
  simp at this

theorem IntoDirectory.ne_of_append {y : String × String} {l r : List (String × String)}
    (h : moves = (l ++ [y]) ++ r) : (∀ x ∈ l, x ≠ y) ∧ ∀ x ∈ r, x ≠ y := by
  refine ⟨fun x hx => hm.ne_of_sublist ?_, fun x hx => (hm.ne_of_sublist ?_).symm⟩ <;> rw [h]
  · exact ((List.singleton_sublist.2 hx).append (List.Sublist.refl [y])).trans
      (List.sublist_append_left _ _)
  · exact (List.sublist_append_right l [y]).append (List.singleton_sublist.2 hx)

end

/-- Two elements of a list in order, and what stands before, between and after them. -/
theorem exists_append_of_sublist {α : Type} {a b : α} {l : List α} (h : [a, b].Sublist l) :
    ∃ l₁ l₂ l₃, l = (l₁ ++ [a]) ++ ((l₂ ++ [b]) ++ l₃) := by
  obtain ⟨r₁, r₂, rfl, ha, hb⟩ := List.cons_sublist_iff.1 h
  obtain ⟨s₁, t₁, rfl⟩ := List.append_of_mem ha
  obtain ⟨s₂, t₂, rfl⟩ := List.append_of_mem (List.singleton_sublist.1 hb)
  exact ⟨s₁, t₁ ++ s₂, t₂, by simp⟩

end CloudDrive
