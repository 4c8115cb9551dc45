import CloudDrive.Path

/-!
# Relocation of keys

The catalog of the store and the cache move a subtree in the same way: the keys within the source
are gone through one after another, and what lies under each is taken out and put under its new key.
`Relocates` says what one such step does to a table, and the lemmas say what a pass over several
keys does:

* `Relocates.get_foldl_of_not_mem`: a key that is neither taken out nor put in keeps its value.
* `Relocates.get_foldl_of_mem`, `Relocates.get_foldl_target`: if no new key is among the old ones,
  the old keys are empty afterwards, and each new key holds what was under its old key.
-/

namespace CloudDrive

/-- One step takes the value under a key out of the table and puts it, changed by `f`, under the
target of the key; a key without a value or a target is only taken out. -/
def Relocates {τ β : Type} (get : τ → String → Option β) (step : τ → String → τ)
    (target : String → Option String) (f : String → β → β) : Prop :=
  ∀ t x p, get (step t x) p =
    match get t x, target x with
    | some v, some q => if p = q then some (f q v) else if p = x then none else get t p
    | _, _ => if p = x then none else get t p

namespace Relocates

variable {τ β : Type} {get : τ → String → Option β} {step : τ → String → τ}
  {target : String → Option String} {f : String → β → β}

theorem get_step_of_ne (h : Relocates get step target f) (t : τ) {x p : String} (hx : p ≠ x)
    (ht : target x ≠ some p) : get (step t x) p = get t p := by
  rw [h]
  split
  · next v q _ hq =>
    have hpq : p ≠ q := fun e => ht (e ▸ hq)
    rw [if_neg hpq, if_neg hx]
  · exact if_neg hx

theorem get_step_self (h : Relocates get step target f) (t : τ) {x : String}
    (ht : target x ≠ some x) : get (step t x) x = none := by
  rw [h]
  split
  · next v q _ hq =>
    have hxq : x ≠ q := fun e => ht (by rw [hq, ← e])
    rw [if_neg hxq, if_pos rfl]
  · exact if_pos rfl

theorem get_step_target (h : Relocates get step target f) {t : τ} {x q : String} {v : β}
    (hv : get t x = some v) (hq : target x = some q) : get (step t x) q = some (f q v) := by
  rw [h, hv, hq]
  exact if_pos rfl

theorem get_foldl_of_not_mem (h : Relocates get step target f) {keys : List String} (t : τ)
    {p : String} (hp : p ∉ keys) (ht : ∀ x ∈ keys, target x ≠ some p) :
    get (keys.foldl step t) p = get t p := by
  induction keys generalizing t with
  | nil => rfl
  | cons x keys ih =>
    rw [List.mem_cons, not_or] at hp
    rw [List.foldl_cons, ih _ hp.2 fun y hy => ht y (List.mem_cons_of_mem _ hy)]
    exact h.get_step_of_ne t hp.1 (ht x List.mem_cons_self)

/-- A key that is not taken out keeps a value, its own or one that is put there. -/
theorem isSome_get_foldl (h : Relocates get step target f) {keys : List String} (t : τ)
    {p : String} (hs : (get t p).isSome = true) (hp : p ∉ keys) :
    (get (keys.foldl step t) p).isSome = true := by
  induction keys generalizing t with
  | nil => exact hs
  | cons x keys ih =>
    rw [List.mem_cons, not_or] at hp
    refine ih _ ?_ hp.2
    rw [h]
    split
    · split
      · rfl
      · rwa [if_neg hp.1]
    · rwa [if_neg hp.1]

/-- A property of keys with their values is kept if it goes with a value that is moved. -/
theorem forall_get_foldl (h : Relocates get step target f) {P : String → β → Prop}
    (hf : ∀ x v q, P x v → target x = some q → P q (f q v)) (keys : List String) {t : τ}
    (ht : ∀ p v, get t p = some v → P p v) :
    ∀ p v, get (keys.foldl step t) p = some v → P p v := by
  induction keys generalizing t with
  | nil => exact ht
  | cons x keys ih =>
    refine ih fun p v hv => ?_
    rw [h] at hv
    split at hv
    · next u q hu hq =>
      split at hv
      · next hpq =>
        rw [Option.some.injEq] at hv
        subst hpq hv
        exact hf x u p (ht x u hu) hq
      · split at hv
        · cases hv
        · exact ht p v hv
    · split at hv
      · cases hv
      · exact ht p v hv

theorem get_foldl_of_mem (h : Relocates get step target f) {keys : List String} (t : τ)
    {p : String} (hp : p ∈ keys) (ht : ∀ x ∈ keys, target x ≠ some p) :
    get (keys.foldl step t) p = none := by
  induction keys generalizing t with
  | nil => cases hp
  | cons x keys ih =>
    have ht' : ∀ y ∈ keys, target y ≠ some p := fun y hy => ht y (List.mem_cons_of_mem _ hy)
    rw [List.foldl_cons]
    by_cases hk : p ∈ keys
    · exact ih _ hk ht'
    · obtain rfl : p = x := (List.mem_cons.1 hp).resolve_right hk
      rw [h.get_foldl_of_not_mem _ hk ht']
      exact h.get_step_self t (ht p List.mem_cons_self)

theorem get_foldl_target (h : Relocates get step target f) {keys : List String}
    (hkeys : keys.Nodup) (t : τ) {x q : String} {v : β} (hx : x ∈ keys) (hv : get t x = some v)
    (hq : target x = some q) (hinj : ∀ y ∈ keys, target y = some q → y = x)
    (hnew : ∀ y ∈ keys, ∀ r, target y = some r → r ∉ keys) :
    get (keys.foldl step t) q = some (f q v) := by
  induction keys generalizing t with
  | nil => cases hx
  | cons y keys ih =>
    rw [List.nodup_cons] at hkeys
    have hq' : q ∉ y :: keys := hnew x hx q hq
    rw [List.foldl_cons]
    rcases List.mem_cons.1 hx with rfl | hx
    · rw [h.get_foldl_of_not_mem _ (List.not_mem_of_not_mem_cons hq')]
      · exact h.get_step_target hv hq
      · intro z hz hzq
        exact hkeys.1 (hinj z (List.mem_cons_of_mem _ hz) hzq ▸ hz)
    · have hxy : x ≠ y := fun e => hkeys.1 (e ▸ hx)
      have hyx : target y ≠ some x := fun e =>
        hnew y List.mem_cons_self x e (List.mem_cons_of_mem _ hx)
      refine ih hkeys.2 _ hx ?_ (fun z hz => hinj z (List.mem_cons_of_mem _ hz)) ?_
      · rw [h.get_step_of_ne t hxy hyx, hv]
      · intro z hz r hr hk
        exact hnew z (List.mem_cons_of_mem _ hz) r hr (List.mem_cons_of_mem _ hk)

end Relocates

end CloudDrive
