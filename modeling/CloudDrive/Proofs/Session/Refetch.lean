import CloudDrive.Proofs.Cache.Outcome
import CloudDrive.Proofs.Program
import CloudDrive.Proofs.Store.Calls
import CloudDrive.Session.Work

/-!
# Fetching on a store without faults of listings

* `runOn_list`: a listing brings what the store holds, and nothing for what is no directory. No
  retry changes that.
* `refetched_reconcile`: the touched directories are fetched again (`Cache.Refetched`).
* `mirrors_load`: a load keeps a cache that mirrors the store.
-/

namespace CloudDrive

open Remote (Failure)

variable {σ : Type}

/-- The same entries and the same faults. -/
structure Store.Same (t t' : Store) : Prop where
  catalog : t'.catalog = t.catalog
  faults : t'.faults = t.faults

theorem Store.Same.refl (t : Store) : Same t t := ⟨rfl, rfl⟩

theorem Store.Same.trans {t t' t'' : Store} (h : Same t t') (h' : Same t' t'') : Same t t'' :=
  ⟨h'.catalog.trans h.catalog, h'.faults.trans h.faults⟩

theorem Store.Same.freeOf {t t' : Store} (h : Same t t') {kind : Remote.CallKind}
    (hf : t.FreeOf kind) : t'.FreeOf kind := by
  unfold Store.FreeOf
  rw [h.faults]
  exact hf

/-- The reply to a listing of `path` says what the store holds. -/
def Store.Lists (t : Store) (path : String) : Except Failure Listing → Prop
  | .ok l => t.catalog.IsDirectory path ∧ l = .ofEntries path (t.catalog.children path)
  | .error _ => ¬ t.catalog.IsDirectory path

theorem Store.Same.lists {t t' : Store} (h : Same t t') {path : String}
    {r : Except Failure Listing} : t'.Lists path r ↔ t.Lists path r := by
  cases r <;> simp only [Store.Lists, h.catalog]

section
variable {t : Store} (h : t.FreeOf .list) (path : String)
include h

theorem Store.answer_list :
    (t.answer (.list path)).2 = t ∧ t.Lists path (t.answer (.list path)).1 := by
  by_cases hd : t.catalog.IsDirectory path
  · rw [show t.answer (.list path) = t.list path from rfl, list_of_isDirectory h hd]
    exact ⟨rfl, hd, rfl⟩
  · obtain ⟨f, hf⟩ := list_of_not_isDirectory h hd
    rw [show t.answer (.list path) = t.list path from rfl, hf]
    exact ⟨rfl, hd⟩

/-- **A listing says what the store holds**, whatever the retries. -/
theorem Remote.runOn_list (policy : RetryPolicy) (s : σ) :
    ∃ r t', ((Remote.list path policy : Program σ _).runOn .ofStore s t) = (r, s, t') ∧
      t.Same t' ∧ t.Lists path r := by
  have hfrom : ∀ (left : Nat) (attempt : UInt32) (u : Store), t.Same u →
      ∃ r t', ((Remote.listFrom path policy attempt left : Program σ _).runOn .ofStore s u) =
        (r, s, t') ∧ t.Same t' ∧ t.Lists path r := by
    intro left
    induction left with
    | zero =>
      intro attempt u hu
      have hrec : t.Same (u.record (.list path)) := ⟨hu.catalog, hu.faults⟩
      obtain ⟨hsame, hl⟩ := Store.answer_list (hrec.freeOf h) path
      exact ⟨_, _, rfl, hsame ▸ hrec, hrec.lists.1 hl⟩
    | succ left ih =>
      intro attempt u hu
      have hrec : t.Same (u.record (.list path)) := ⟨hu.catalog, hu.faults⟩
      obtain ⟨hsame, hl⟩ := Store.answer_list (hrec.freeOf h) path
      rw [hrec.lists] at hl
      unfold Remote.listFrom
      simp only [Program.runOn, Port.ofStore, hsame]
      revert hl
      cases ((u.record (.list path)).answer (.list path)).1 with
      | ok l => exact fun hl => ⟨_, _, rfl, hrec, hl⟩
      | error f =>
        intro hl
        by_cases hr : f.isRetryable = true
        · simp only [hr, if_true, Program.runOn]
          exact ih (attempt + 1) _ hrec
        · simp only [hr, Bool.false_eq_true, if_false, Program.runOn]
          exact ⟨_, _, rfl, hrec, hl⟩
  exact hfrom _ _ t (Store.Same.refl t)

end

namespace Session

theorem runOn_fetch {t : Store} (h : t.FreeOf .list) (path : String) (s : Session) :
    ∃ r t', (fetch path).runOn .ofStore s t = (r, s, t') ∧ t.Same t' ∧ t.Lists path r := by
  unfold fetch
  simp only [Program.runOn_bind, Program.runOn_get]
  exact Remote.runOn_list h path s.config.readRetry s

/-- **The cached ones of some directories are fetched again**; nothing else changes. -/
theorem runOn_refetch (keys : List String) (s : Session) {t : Store} (h : t.FreeOf .list) :
    ∃ c t', ((refetch keys).runOn .ofStore s t).2 = ({ s with cache := c }, t') ∧ t.Same t' ∧
      Cache.Refetched keys t.catalog s.cache c := by
  induction keys generalizing s t with
  | nil => exact ⟨s.cache, t, rfl, .refl t, Cache.refetched_nil _ _⟩
  | cons key keys ih =>
    unfold refetch
    simp only [Program.runOn_bind, Program.runOn_get]
    by_cases hc : s.cache.contains key = true
    · obtain ⟨r, t₁, hfetch, hsame, hl⟩ := runOn_fetch h key s
      simp only [hc, if_true, Program.runOn_bind, hfetch, Program.runOn_modify]
      obtain ⟨c, t', hrun, hsame', hre⟩ := ih (refetched r s) (hsame.freeOf h)
      have hone : Cache.Refetched [key] t.catalog s.cache (refetched r s).cache := by
        cases r with
        | error f =>
          intro k
          rw [if_neg]
          · rfl
          · rintro ⟨hk, -, hd⟩
            exact hl (List.mem_singleton.1 hk ▸ hd)
        | ok l =>
          obtain ⟨hd, rfl⟩ := hl
          rw [Cache.contains, OrderedTable.contains_eq_isSome] at hc
          exact Cache.refetched_insert hd hc
      rw [hsame.catalog] at hre
      refine ⟨c, t', ?_, hsame.trans hsame', hone.append hre⟩
      rw [hrun]
      cases r <;> rfl
    · simp only [hc, Bool.false_eq_true, if_false]
      obtain ⟨c, t', hrun, hsame, hre⟩ := ih s h
      refine ⟨c, t', hrun, hsame, hre.congr (fun _ => rfl) fun k hk => ?_⟩
      rw [List.mem_cons, or_iff_right]
      rintro rfl
      rw [Cache.contains, OrderedTable.contains_eq_isSome] at hc
      exact hc hk

theorem refetched_reconcile (keys : List String) (s : Session) {t : Store} (h : t.FreeOf .list) :
    let after := ((reconcile keys).runOn .ofStore s t).2
    t.Same after.2 ∧ Cache.Refetched keys t.catalog s.cache after.1.cache := by
  obtain ⟨c, t', hrun, hsame, hre⟩ := runOn_refetch keys s h
  unfold reconcile
  rw [Program.runOn_bind, hrun, Program.runOn_modify]
  exact ⟨hsame, hre⟩

/-- **A load** keeps a cache that mirrors the store. -/
theorem mirrors_load (path : String) {s : Session} {t : Store} (h : t.FreeOf .list)
    (hc : Cache.Mirrors s.cache t.catalog) :
    let after := ((load path).runOn .ofStore s t).2
    t.Same after.2 ∧ Cache.Mirrors after.1.cache t.catalog := by
  intro after
  obtain ⟨r, t', hfetch, hsame, hl⟩ := runOn_fetch h path (beginLoad s).2
  have hafter : after = match r with
      | .ok l => (loaded (beginLoad s).1 l (beginLoad s).2, t')
      | .error f => (loadFailed (beginLoad s).1 path f (beginLoad s).2, t') := by
    show ((load path).runOn .ofStore s t).2 = _
    unfold load
    simp only [Program.runOn_bind, Program.runOn_modifyGet, hfetch]
    cases r <;> rfl
  rw [hafter]
  cases r with
  | error f =>
    refine ⟨hsame, ?_⟩
    show Cache.Mirrors (loadFailed _ _ _ _).cache _
    unfold loadFailed
    split <;> exact hc
  | ok l =>
    obtain ⟨hd, rfl⟩ := hl
    refine ⟨hsame, ?_⟩
    show Cache.Mirrors (loaded _ _ _).cache _
    unfold loaded
    simp only
    split <;> exact hc.insert hd

end Session

end CloudDrive
