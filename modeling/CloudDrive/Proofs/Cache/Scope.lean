import CloudDrive.Proofs.Cache.Patch
import CloudDrive.Proofs.Path.Siblings
import Mathlib.Data.List.Induction

/-!
# What the scope of a patch misses

The scope of a patch is read off the cache before the patch (`touchedBy`), but its moves are applied
one after another. A listing that one move has carried somewhere may be taken on by a later one, to
a directory that the scope does not know.

* `get?_apply_of_not_touched`: if no listing is carried twice, the patch changes nothing outside its
  scope; this holds for any texts.
* `not_carriesTwice`, `exists_ghost`: for moves of one directory into another (`IntoDirectory`), a
  listing is carried twice exactly if a source has a cached directory and a later source holds the
  destination (`Tangled`); what it leaves outside the scope was not cached before.
-/

namespace CloudDrive.Cache

open Path (Canonical IsComponent)

/-! ## Listings that are carried twice -/

/-- One move carries a listing to a place at or beneath the source of a later one. -/
def CarriesTwice (c : Cache) (moves : List (String × String)) : Prop :=
  ∃ a b, [a, b].Sublist moves ∧
    ∃ key ∈ c.keysWithin a.1, ∃ q, Path.rebase key a.1 a.2 = some q ∧ Path.isWithin q b.1 = true

theorem apply_move_concat (c : Cache) (moves : List (String × String)) (m : String × String) :
    c.apply (.move (moves ++ [m])) = (c.apply (.move moves)).moveEntry m.1 m.2 :=
  List.foldl_append

theorem mem_touchedBy {c : Cache} {moves : List (String × String)} {key : String} :
    key ∈ c.touchedBy (.move moves) ↔ ∃ m ∈ moves, key ∈ c.touchedByMove m.1 m.2 :=
  List.mem_flatMap

section
variable {c : Cache} {moves : List (String × String)} {m : String × String}
  (h : ¬ c.CarriesTwice (moves ++ [m]))
include h

theorem not_carriesTwice_init : ¬ c.CarriesTwice moves := fun ⟨a, b, hs, hrest⟩ =>
  h ⟨a, b, hs.trans (List.sublist_append_left _ _), hrest⟩

/-- No earlier move has carried a listing to where the last one takes it on. -/
theorem not_isWithin_last {a : String × String} (ha : a ∈ moves) {key q : String}
    (hk : key ∈ c.keysWithin a.1) (hq : Path.rebase key a.1 a.2 = some q) :
    Path.isWithin q m.1 = false := by
  refine Bool.eq_false_iff.2 fun hw => h ⟨a, m, ?_, key, hk, q, hq, hw⟩
  exact (List.singleton_sublist.2 ha).append (List.Sublist.refl [m])

end

/-- If no listing is carried twice, what is cached after the moves was cached before, or is where
one move has carried a listing that was cached before. -/
theorem isSome_of_isSome_apply {c : Cache} {moves : List (String × String)}
    (h : ¬ c.CarriesTwice moves) {key : String}
    (hk : ((c.apply (.move moves)).get? key).isSome = true) :
    (c.get? key).isSome = true ∨
      ∃ a ∈ moves, ∃ k ∈ c.keysWithin a.1, Path.rebase k a.1 a.2 = some key := by
  induction moves using List.reverseRecOn generalizing key with
  | nil => exact .inl hk
  | append_singleton moves m ih =>
    have ih := fun {key} => @ih (not_carriesTwice_init h) key
    have lift : ∀ {q}, (∃ a ∈ moves, ∃ k ∈ c.keysWithin a.1, Path.rebase k a.1 a.2 = some q) →
        ∃ a ∈ moves ++ [m], ∃ k ∈ c.keysWithin a.1, Path.rebase k a.1 a.2 = some q :=
      fun ⟨a, ha, hrest⟩ => ⟨a, List.mem_append_left _ ha, hrest⟩
    rw [apply_move_concat] at hk
    rcases isSome_of_isSome_moveEntry hk with hk | ⟨k, hk, hq⟩
    · exact (ih hk).imp_right lift
    · obtain ⟨hk, hw⟩ := mem_keysWithin.1 hk
      rcases ih hk with hk | ⟨a, ha, y, hy, hyk⟩
      · exact .inr ⟨m, by simp, k, mem_keysWithin.2 ⟨hk, hw⟩, hq⟩
      · rw [not_isWithin_last h ha hy hyk] at hw
        cases hw

/-- **If no listing is carried twice, a patch stays in its scope.** -/
theorem get?_apply_of_not_touched {c : Cache} {moves : List (String × String)}
    (h : ¬ c.CarriesTwice moves) {key : String} (hk : key ∉ c.touchedBy (.move moves)) :
    (c.apply (.move moves)).get? key = c.get? key := by
  induction moves using List.reverseRecOn with
  | nil => rfl
  | append_singleton moves m ih =>
    rw [mem_touchedBy] at hk
    push Not at hk
    have hinit : key ∉ c.touchedBy (.move moves) := fun hm => by
      obtain ⟨a, ha, hka⟩ := mem_touchedBy.1 hm
      exact hk a (List.mem_append_left _ ha) hka
    have hlast : ∀ k ∈ (c.apply (.move moves)).keysWithin m.1, k ∈ c.keysWithin m.1 := by
      intro k hkm
      obtain ⟨hks, hw⟩ := mem_keysWithin.1 hkm
      rcases isSome_of_isSome_apply (not_carriesTwice_init h) hks with hks | ⟨a, ha, y, hy, hyk⟩
      · exact mem_keysWithin.2 ⟨hks, hw⟩
      · rw [not_isWithin_last h ha hy hyk] at hw
        cases hw
    rw [apply_move_concat, get?_moveEntry_of_not_mem, ih (not_carriesTwice_init h) hinit]
    intro hm
    refine hk m (by simp) (mem_touchedByMove.2 ?_)
    rcases mem_touchedByMove.1 hm with hp | hp | hp | ⟨k, hkm, hq⟩
    · exact .inl hp
    · exact .inr (.inl hp)
    · exact .inr (.inr (.inl (hlast key hp)))
    · exact .inr (.inr (.inr ⟨k, hlast k hkm, hq⟩))

theorem not_carriesTwice_singleton (c : Cache) (m : String × String) :
    ¬ c.CarriesTwice [m] := by
  rintro ⟨a, b, hs, -⟩
  have := hs.length_le
  simp at this

/-! ## Moves of one directory into another -/

/-- A source has a cached directory at or beneath it, and a later one holds the destination. -/
def Tangled (c : Cache) (d : String) (moves : List (String × String)) : Prop :=
  ∃ a b, [a, b].Sublist moves ∧ Path.isWithin d b.1 = true ∧ ∃ key, key ∈ c.keysWithin a.1

theorem tangled_iff {c : Cache} {d : String} {moves : List (String × String)} :
    c.Tangled d moves ↔ ∃ a ∈ moves, ∃ b ∈ moves, [a, b].Sublist moves ∧
      Path.isWithin d b.1 = true ∧ c.keysWithin a.1 ≠ [] := by
  constructor
  · rintro ⟨a, b, hs, hd, key, hk⟩
    exact ⟨a, hs.subset (by simp), b, hs.subset (by simp), hs, hd, List.ne_nil_of_mem hk⟩
  · rintro ⟨a, -, b, -, hs, hd, hk⟩
    exact ⟨a, b, hs, hd, List.exists_mem_of_ne_nil _ hk⟩

instance (c : Cache) (d : String) (moves : List (String × String)) : Decidable (c.Tangled d moves) :=
  decidable_of_iff _ tangled_iff.symm

section
variable {p d : String} {moves : List (String × String)} (hm : IntoDirectory p d moves)
  {c : Cache} (hc : c.HasCanonicalKeys)
  (hfree : ∀ m ∈ moves, ∀ key, (c.get? key).isSome = true → Path.isWithin key m.2 = false)
include hm hc hfree

/-- A listing is carried twice only by a tangled batch, if nothing was cached at the destinations
before. -/
theorem not_carriesTwice (h : ¬ c.Tangled d moves) : ¬ c.CarriesTwice moves := by
  rintro ⟨a, b, hab, key, hkey, q, hq, hqb⟩
  have ha : a ∈ moves := hab.subset (by simp)
  have hb : b ∈ moves := hab.subset (by simp)
  obtain ⟨hks, hkw⟩ := mem_keysWithin.1 hkey
  have hkc := hc key hks
  have hqc := hkc.rebase (hm.canonical ha).1 (hm.canonical ha).2 hq
  have hqa := Path.isWithin_rebase hkc (hm.canonical ha).1 (hm.canonical ha).2 hq
  obtain ⟨n, hn, hae⟩ := hm.named a ha
  obtain ⟨n', hn', hbe⟩ := hm.named b hb
  have hbc := (hm.canonical hb).1
  -- the new place of the source and the later source lie above the same path
  rcases Path.isWithin_total hqc (hm.canonical ha).2 hbc hqa hqb with hw | hw
  · rw [hae] at hw
    rcases (Path.isWithin_join hm.destination hn hbc).1 hw with he | hw
    · rw [hbe] at he
      obtain ⟨hpd, hnn⟩ := Path.join_inj hm.destination hm.source hn hn' he
      exact hm.ne_of_sublist hab (by rw [hae, hbe, hnn])
    · exact h ⟨a, b, hab, hw, key, hkey⟩
  · -- then the sources themselves would lie at a destination
    have hpa : Path.isWithin p a.2 = true := by
      rw [hbe] at hw
      rcases (Path.isWithin_join hm.source hn' (hm.canonical ha).2).1 hw with he | hw
      · rw [hae] at he
        obtain ⟨-, hnn⟩ := Path.join_inj hm.source hm.destination hn' hn he
        exact absurd (by rw [hae, hbe, hnn]) (hm.ne_of_sublist hab)
      · exact hw
    have hkp : Path.isWithin key p = true := by
      refine Path.isWithin_trans hkc (hm.canonical ha).1 hm.source hkw ?_
      rw [hae]
      exact (Path.isWithin_join hm.source hn hm.source).2 (.inr (Path.isWithin_refl hm.source))
    have := Path.isWithin_trans hkc hm.source (hm.canonical ha).2 hkp hpa
    rw [hfree a ha key hks] at this
    cases this

omit hfree in
theorem keys_apply {done : List (String × String)} (hd : done ⊆ moves) :
    (c.apply (.move done)).HasCanonicalKeys ∧
      ∀ key, ((c.apply (.move done)).get? key).isSome = true →
        (c.get? key).isSome = true ∨ ∃ m ∈ done, Path.isWithin key m.2 = true := by
  induction done using List.reverseRecOn with
  | nil => exact ⟨hc, fun key h => .inl h⟩
  | append_singleton done m ih =>
    obtain ⟨hcan, hkeys⟩ := ih fun x hx => hd (List.mem_append_left _ hx)
    obtain ⟨hs, ht⟩ := hm.canonical (hd (List.mem_append_right _ List.mem_cons_self))
    rw [apply_move_concat]
    refine ⟨hcan.moveEntry hs ht, fun key h => ?_⟩
    rcases isSome_of_isSome_moveEntry h with h | ⟨k, hk, hq⟩
    · exact (hkeys key h).imp_right fun ⟨x, hx, hw⟩ => ⟨x, List.mem_append_left _ hx, hw⟩
    · exact .inr ⟨m, by simp, Path.isWithin_rebase (hcan k (mem_keysWithin.1 hk).1) hs ht hq⟩

omit hfree in
theorem get?_apply_apart {done : List (String × String)} (hd : done ⊆ moves) {key : String}
    (hkp : key ≠ p) (hkd : key ≠ d)
    (hw : ∀ m ∈ done, Path.isWithin key m.1 = false ∧ Path.isWithin key m.2 = false) :
    (c.apply (.move done)).get? key = c.get? key := by
  induction done using List.reverseRecOn with
  | nil => rfl
  | append_singleton done m ih =>
    have hd' : done ⊆ moves := fun x hx => hd (List.mem_append_left _ hx)
    have hmem : m ∈ moves := hd (List.mem_append_right _ List.mem_cons_self)
    obtain ⟨hs, ht⟩ := hm.canonical hmem
    obtain ⟨hps, hpd⟩ := hm.parents hmem
    obtain ⟨hws, hwd⟩ := hw m (by simp)
    rw [apply_move_concat, get?_moveEntry_apart (keys_apply hm hc hd').1 hs ht hws hwd, hps, hpd]
    simp only [if_neg hkp, if_neg hkd]
    exact ih hd' fun x hx => hw x (List.mem_append_left _ hx)

/-- Nothing is cached at a destination before the turn of its move. -/
theorem free_apply {done : List (String × String)} (hd : done ⊆ moves) {m : String × String}
    (hmem : m ∈ moves) (hnew : m ∉ done) {key : String}
    (h : ((c.apply (.move done)).get? key).isSome = true) : Path.isWithin key m.2 = false := by
  obtain ⟨hcan, hkeys⟩ := keys_apply hm hc hd
  rcases hkeys key h with h' | ⟨x, hx, hw⟩
  · exact hfree m hmem key h'
  · refine Bool.eq_false_iff.2 fun hw' => hnew ?_
    rw [hm.eq_of_destination hmem (hd hx) (hcan key h) hw' hw]
    exact hx

/-- At its turn, a move carries each listing at or beneath its source. -/
theorem isSome_carried {done : List (String × String)} (hd : done ⊆ moves) {m : String × String}
    (hmem : m ∈ moves) (hnew : m ∉ done) {key : String}
    (hk : key ∈ (c.apply (.move done)).keysWithin m.1) :
    ∃ q, Path.rebase key m.1 m.2 = some q ∧ Path.isWithin q m.2 = true ∧ Canonical q ∧
      (((c.apply (.move done)).moveEntry m.1 m.2).get? q).isSome = true := by
  obtain ⟨hcan, -⟩ := keys_apply hm hc hd
  obtain ⟨hs, ht⟩ := hm.canonical hmem
  obtain ⟨hks, hkw⟩ := mem_keysWithin.1 hk
  obtain ⟨q, hq, hqc, hqw, -⟩ := Path.exists_rebase (hcan key hks) hs ht hkw
  refine ⟨q, hq, hqw, hqc, ?_⟩
  obtain ⟨hps, hpd⟩ := hm.parents hmem
  obtain ⟨hns, hnd⟩ := hm.not_isWithin hmem
  rw [get?_moveEntry_target hcan hs ht (fun k h => free_apply hm hc hfree hd hmem hnew h)
    (hcan key hks) hq]
  · simpa using hks
  · rintro rfl
    rw [hps, hns] at hkw
    cases hkw
  · rintro rfl
    rw [hpd, hnd] at hqw
    cases hqw

omit hm hc hfree in
theorem isSome_apply {c : Cache} {moves : List (String × String)} {key : String}
    (h : (c.get? key).isSome = true) (hw : ∀ m ∈ moves, Path.isWithin key m.1 = false) :
    ((c.apply (.move moves)).get? key).isSome = true := by
  induction moves generalizing c with
  | nil => exact h
  | cons m moves ih =>
    exact ih (isSome_moveEntry h (hw m List.mem_cons_self))
      fun x hx => hw x (List.mem_cons_of_mem _ hx)

/-- In a tangled batch, the first move carries a listing into the later source, and the later move
carries it on. -/
theorem exists_carried_twice {a b : String × String} (hab : [a, b].Sublist moves)
    (hdb : Path.isWithin d b.1 = true) {k : String} (hk : k ∈ c.keysWithin a.1) :
    ∃ q g, Canonical q ∧ Path.isWithin q a.2 = true ∧ Canonical g ∧ Path.rebase q b.1 b.2 = some g ∧
      Path.isWithin g b.2 = true ∧ ((c.apply (.move moves)).get? g).isSome = true := by
  have ha : a ∈ moves := hab.subset (by simp)
  have hb : b ∈ moves := hab.subset (by simp)
  obtain ⟨l₁, l₂, l₃, hsplit⟩ := exists_append_of_sublist hab
  have hsplit' : moves = (((l₁ ++ [a]) ++ l₂) ++ [b]) ++ l₃ := by simp [hsplit]
  obtain ⟨hba, -⟩ := hm.ne_of_append hsplit
  obtain ⟨hbb, hbl⟩ := hm.ne_of_append hsplit'
  have hl₁ : l₁ ⊆ moves := fun x hx => by simp [hsplit, hx]
  have hl₂ : (l₁ ++ [a]) ++ l₂ ⊆ moves := fun x hx => by
    rw [hsplit']
    simp only [List.mem_append] at hx ⊢
    exact .inl (.inl hx)
  obtain ⟨hks, hkw⟩ := mem_keysWithin.1 hk
  have hk₁ : k ∈ (c.apply (.move l₁)).keysWithin a.1 := by
    refine mem_keysWithin.2 ⟨isSome_apply hks fun x hx => Bool.eq_false_iff.2 fun hw => ?_, hkw⟩
    exact hba x hx (hm.eq_of_source (hl₁ hx) ha (hc k hks) hw hkw)
  obtain ⟨q, -, hqa, hqc, hqs⟩ :=
    isSome_carried hm hc hfree hl₁ ha (fun hx => hba a hx rfl) hk₁
  have hqb := hm.isWithin_source ha hb hdb hqc hqa
  have hq₂ : q ∈ (c.apply (.move ((l₁ ++ [a]) ++ l₂))).keysWithin b.1 := by
    have hcat : c.apply (.move ((l₁ ++ [a]) ++ l₂)) =
        (c.apply (.move (l₁ ++ [a]))).apply (.move l₂) := List.foldl_append
    rw [mem_keysWithin, hcat, apply_move_concat]
    refine ⟨isSome_apply hqs fun x hx => Bool.eq_false_iff.2 fun hw => ?_, hqb⟩
    exact hbb x (List.mem_append_right _ hx)
      (hm.eq_of_source (hl₂ (List.mem_append_right _ hx)) hb hqc hw hqb)
  obtain ⟨g, hg, hgb, hgc, hgs⟩ :=
    isSome_carried hm hc hfree hl₂ hb (fun hx => hbb b hx rfl) hq₂
  refine ⟨q, g, hqc, hqa, hgc, hg, hgb, ?_⟩
  have hcat : c.apply (.move moves) =
      (c.apply (.move (((l₁ ++ [a]) ++ l₂) ++ [b]))).apply (.move l₃) := by
    rw [hsplit']
    exact List.foldl_append
  rw [hcat, apply_move_concat]
  refine isSome_apply hgs fun x hx => Bool.eq_false_iff.2 fun hw => ?_
  have hx' : x ∈ moves := by simp [hsplit', hx]
  exact hbl x hx (hm.eq_of_source hx' hb hgc hw (hm.isWithin_source hb hb hdb hgc hgb))

/-- **A tangled batch leaves a ghost**: a directory at or beneath the destination of a source that
holds this destination. It is cached after the patch, was not cached before, and lies outside the
scope of the patch. -/
theorem exists_ghost (h : c.Tangled d moves) :
    ∃ key, key ∉ c.touchedBy (.move moves) ∧ c.get? key = none ∧
      ((c.apply (.move moves)).get? key).isSome = true ∧
        ∃ m ∈ moves, Path.isWithin d m.1 = true ∧ Path.isWithin key m.2 = true := by
  obtain ⟨a, b, hab, hdb, k, hk⟩ := h
  have ha : a ∈ moves := hab.subset (by simp)
  have hb : b ∈ moves := hab.subset (by simp)
  obtain ⟨q, g, hqc, hqa, hgc, hg, hgb, hgs⟩ := exists_carried_twice hm hc hfree hab hdb hk
  have hnone : ∀ {m x}, m ∈ moves → (c.get? x).isSome = true → Path.isWithin x m.2 ≠ true :=
    fun hmm hx => by simp [hfree _ hmm _ hx]
  refine ⟨g, fun ht => ?_, ?_, hgs, b, hb, hdb, hgb⟩
  · obtain ⟨m, hmm, ht⟩ := mem_touchedBy.1 ht
    rcases mem_touchedByMove.1 ht with rfl | rfl | ht | ⟨y, hy, hyg⟩
    · have hgw := hm.isWithin_source hb hb hdb hgc hgb
      rw [(hm.parents hmm).1, (hm.not_isWithin hb).1] at hgw
      cases hgw
    · rw [(hm.parents hmm).2, (hm.not_isWithin hb).2] at hgb
      cases hgb
    · exact hnone hb (mem_keysWithin.1 ht).1 hgb
    · -- the listing that arrives at `g` would have been cached at a destination before
      obtain ⟨hys, -⟩ := mem_keysWithin.1 hy
      have hgm := Path.isWithin_rebase (hc y hys) (hm.canonical hmm).1 (hm.canonical hmm).2 hyg
      obtain rfl := hm.eq_of_destination hmm hb hgc hgm hgb
      have hback := Path.rebase_rebase (hc y hys) (hm.canonical hb).1 (hm.canonical hb).2 hyg
      rw [Path.rebase_rebase hqc (hm.canonical hb).1 (hm.canonical hb).2 hg,
        Option.some.injEq] at hback
      subst hback
      exact hnone ha hys hqa
  · cases hgn : c.get? g with
    | none => rfl
    | some l => exact absurd hgb (hnone hb (by rw [hgn]; rfl))

end

end CloudDrive.Cache
