import CloudDrive.Proofs.Course

/-!
# Programs under rules

A program changes the state step by step, and others change it while the program waits. Rules say
which changes of its own a program may make from which point, where it may wait, and where it may
end; they say nothing of what happens to the state in between. They are a course on which nothing is
remembered of what was heard.

* `Program.Heeds`: every change that the program makes is one that the rules allow, whatever it hears
  and whatever state it finds.
* `Heeds.bind`, `Quiet.heeds`, `heeds_modifyGet_bind`: how programs under rules are put together.
* `Heeds.settle`, `Heeds.hear`, `Heeds.obeys`: what that comes to in the turns of a crowd.
* `Crowd.Heeding.resume`, `Crowd.Heeding.go`: a crowd whose jobs heed the rules.
-/

namespace CloudDrive

open Remote (Call)

variable {σ τ ι κ α β : Type}

/-- Rules for programs that change a state. -/
structure Rules (σ κ : Type) where
  /-- May a program that has come to this point make this change, and where does it lead? -/
  allows : κ → σ → σ → κ → Prop
  /-- May it wait there? -/
  waits : κ → Prop

/-- The course of a program that remembers only the point to which its own changes have led. -/
def Rules.course (rules : Rules σ κ) : Course σ κ where
  allows := rules.allows
  waits k _ := rules.waits k
  hears k _ := k

namespace Program

/-- The program, which has come to the point `k` and the state `s`, changes the state only as the
rules allow, each time from the point to which the change before has led, waits only where it may,
and ends only at a point and with a result that are admitted. -/
def Heeds (rules : Rules σ κ) (ends : κ → α → Prop) : Program σ α → κ → σ → Prop
  | .done a, k, _ => ends k a
  | .get next, k, s => (next s).Heeds rules ends k s
  | .put s' next, k, s => ∃ k', rules.allows k s s' k' ∧ next.Heeds rules ends k' s'
  | .call _ next, k, _ => rules.waits k ∧ ∀ r s, (next r).Heeds rules ends k s
  | .sleep _ next, k, _ => rules.waits k ∧ ∀ s, next.Heeds rules ends k s

variable {rules : Rules σ κ} {ends : κ → α → Prop} {k k' : κ}

/-- To heed the rules is to pursue their course. -/
theorem heeds_iff_pursues {p : Program σ α} {s : σ} :
    p.Heeds rules ends k s ↔ p.Pursues rules.course ends k s := by
  induction p generalizing k s with
  | done a => exact Iff.rfl
  | get next ih => exact ih s
  | put s' next ih => exact exists_congr fun k' => and_congr_right fun _ => ih
  | call c next ih => exact and_congr_right fun _ => forall₂_congr fun r s => ih r
  | sleep d next ih => exact and_congr_right fun _ => forall_congr' fun s => ih

/-! ## Putting programs together -/

theorem Heeds.mono {rules' : Rules σ κ} {ends' : κ → α → Prop} {p : Program σ α} {s : σ}
    (h : p.Heeds rules ends k s)
    (hallows : ∀ k s s' k', rules.allows k s s' k' → rules'.allows k s s' k')
    (hwaits : ∀ k, rules.waits k → rules'.waits k)
    (hends : ∀ k a, ends k a → ends' k a) : p.Heeds rules' ends' k s := by
  induction p generalizing k s with
  | done a => exact hends k a h
  | get next ih => exact ih s h
  | put s' next ih =>
    obtain ⟨k', hk, h⟩ := h
    exact ⟨k', hallows k s s' k' hk, ih h⟩
  | call c next ih => exact ⟨hwaits k h.1, fun r s => ih r (h.2 r s)⟩
  | sleep d next ih => exact ⟨hwaits k h.1, fun s => ih (h.2 s)⟩

theorem Heeds.bind {ends' : κ → β → Prop} {p : Program σ α} {f : α → Program σ β} {s : σ}
    (h : p.Heeds rules ends k s)
    (hf : ∀ k a s, ends k a → (f a).Heeds rules ends' k s) : (p >>= f).Heeds rules ends' k s :=
  heeds_iff_pursues.2 ((heeds_iff_pursues.1 h).bind fun k a s hk =>
    heeds_iff_pursues.1 (hf k a s hk))

/-- A program that ends at one point, and then one that its result chooses. -/
theorem Heeds.bind_at {p : Program σ β} {f : β → Program σ α} {s : σ}
    (h : p.Heeds rules (fun k'' _ => k'' = k') k s)
    (hf : ∀ a s, (f a).Heeds rules ends k' s) : (p >>= f).Heeds rules ends k s :=
  h.bind fun _ a s hk => hk ▸ hf a s

theorem Quiet.heeds {p : Program σ α} (hp : p.Quiet) (hk : rules.waits k) (s : σ) :
    p.Heeds rules (fun k' _ => k' = k) k s := by
  induction hp generalizing s with
  | done a => rfl
  | call c next _ ih => exact ⟨hk, ih⟩
  | sleep d next _ ih => exact ⟨hk, ih⟩

theorem Quiet.heeds_bind {p : Program σ β} (hp : p.Quiet) (hk : rules.waits k)
    {f : β → Program σ α} (hf : ∀ a s, (f a).Heeds rules ends k s) (s : σ) :
    (p >>= f).Heeds rules ends k s :=
  (hp.heeds hk s).bind_at hf

theorem heeds_modifyGet_bind_at {g : σ → β × σ} {f : β → Program σ α} {s : σ}
    (hg : rules.allows k s (g s).2 k') (hf : (f (g s).1).Heeds rules ends k' (g s).2) :
    ((modifyGet g : Program σ β) >>= f).Heeds rules ends k s :=
  ⟨k', hg, hf⟩

theorem heeds_modifyGet_bind {g : σ → β × σ} {f : β → Program σ α}
    (hg : ∀ s, rules.allows k s (g s).2 k') (hf : ∀ a s, (f a).Heeds rules ends k' s) (s : σ) :
    ((modifyGet g : Program σ β) >>= f).Heeds rules ends k s :=
  heeds_modifyGet_bind_at (hg s) (hf _ _)

theorem heeds_modify {g : σ → σ} (hg : ∀ s, rules.allows k s (g s) k') (s : σ) :
    (modify g : Program σ Unit).Heeds rules (fun k'' _ => k'' = k') k s :=
  ⟨k', hg s, rfl⟩

theorem heeds_get_bind {f : σ → Program σ α} (hf : ∀ s s', (f s).Heeds rules ends k s') (s : σ) :
    ((MonadState.get : Program σ σ) >>= f).Heeds rules ends k s :=
  hf s s

/-! ## Turns -/

/-- What is left of a program at the end of a turn, and some property that every change keeps: it has
ended as it may, or it waits where it may. -/
theorem Heeds.settle {P : κ → σ → Prop} {p : Program σ α} {s : σ} (h : p.Heeds rules ends k s)
    (hP : ∀ k s s' k', rules.allows k s s' k' → P k s → P k' s') (hs : P k s) :
    ∃ k', P k' (p.settle s).2 ∧ (∀ a, (p.settle s).1 = .done a → ends k' a) ∧
      ((p.settle s).1.result? = none →
        rules.waits k' ∧ ∀ s', (p.settle s).1.Heeds rules ends k' s') := by
  obtain ⟨k', hk, hends, hrest⟩ := (heeds_iff_pursues.1 h).settle hP hs
  exact ⟨k', hk, hends, fun hd => ⟨(hrest hd).1, fun s' => heeds_iff_pursues.2 ((hrest hd).2 s')⟩⟩

theorem Heeds.hear {p rest : Program σ α} {service : Service τ} {t t' : τ} {x : Exchange} {s₀ : σ}
    (h : p.Heeds rules ends k s₀) (hx : p.hear service t = some (x, rest, t')) (s : σ) :
    rest.Heeds rules ends k s :=
  heeds_iff_pursues.2 ((heeds_iff_pursues.1 h).hear hx s)

/-- If every change keeps to a preorder, then so does every turn. -/
theorem Heeds.obeys {T : Terms σ ι α} {label : ι} {R : σ → σ → Prop}
    (htrans : ∀ s₁ s₂ s₃, R s₁ s₂ → R s₂ s₃ → R s₁ s₃) (hrefl : ∀ s, R s s)
    (hallows : ∀ k s s' k', rules.allows k s s' k' → R s s') (hholds : ∀ s, T.holds s)
    (hdoes : ∀ last s₀ s rest, R s₀ s → T.does label last s₀ s rest) {p : Program σ α}
    {last : Option Exchange} {s₀ s : σ} (h : p.Heeds rules ends k s) (hs : R s₀ s) :
    p.Obeys T label last s₀ s := by
  induction p generalizing k last s₀ s with
  | done a => exact ⟨hholds s, hdoes _ _ _ _ hs⟩
  | get next ih => exact ih s h hs
  | put s' next ih =>
    obtain ⟨k', hk, h⟩ := h
    exact ih h (htrans _ _ _ hs (hallows _ _ _ _ hk))
  | call c next ih =>
    exact ⟨hholds s, hdoes _ _ _ _ hs, fun r _ s _ => ih r (h.2 r s) (hrefl s)⟩
  | sleep d next ih => exact ⟨hholds s, hdoes _ _ _ _ hs, fun s _ => ih (h.2 s) (hrefl s)⟩

end Program

/-! ## Crowds under rules -/

namespace Crowd

/-- Whatever the waiting jobs still do, the rules allow. -/
def Heeding (rules : Rules σ κ) (w : Crowd σ τ ι α) : Prop :=
  ∀ job ∈ w.jobs, ∃ k, ∀ s, job.rest.Heeds rules (fun _ _ => True) k s

section
variable {rules : Rules σ κ} {R : σ → σ → Prop} (hrefl : ∀ s, R s s)
  (htrans : ∀ s₁ s₂ s₃, R s₁ s₂ → R s₂ s₃ → R s₁ s₃)
  (hallows : ∀ k s s' k', rules.allows k s s' k' → R s s')
  (service : Service τ) {w : Crowd σ τ ι α} (hw : w.Heeding rules)
include hrefl htrans hallows hw

theorem Heeding.resume (job : Job σ ι α) {k : κ}
    (hk : job.rest.Heeds rules (fun _ _ => True) k w.state) :
    R w.state (w.resume service job).2.state ∧ (w.resume service job).2.Heeding rules := by
  obtain ⟨k', hkept, -, hwaits⟩ := hk.settle (P := fun _ s => R w.state s)
    (fun _ s s' _ hs h => htrans _ s s' h (hallows _ _ _ _ hs)) (hrefl w.state)
  obtain ⟨rest, state, hsettle, ⟨a, -, hresume⟩ | ⟨hnone, hresume⟩⟩ := w.resume_cases service job
  · rw [hsettle] at hkept
    rw [hresume]
    exact ⟨hkept, hw⟩
  · rw [hsettle] at hkept hwaits
    rw [hresume]
    refine ⟨hkept, fun other ho => ?_⟩
    rcases List.mem_append.1 ho with ho | ho
    · exact hw other ho
    · exact List.mem_singleton.1 ho ▸ ⟨k', (hwaits hnone).2⟩

theorem Heeding.go (number : Nat) :
    R w.state (w.go service number).2.state ∧ (w.go service number).2.Heeding rules := by
  rcases w.go_cases service number with hgo | ⟨job, x, rest, remote, hjob, hx, hgo⟩
  · rw [hgo]
    exact ⟨hrefl w.state, hw⟩
  · rw [hgo]
    obtain ⟨k, hk⟩ := hw job (mem_of_job? hjob).1
    exact Heeding.resume (w := { w with remote, jobs := w.without number }) hrefl htrans hallows
      service (fun other ho => hw other (w.without_subset number ho))
      { job with heard := some x, rest } ((hk w.state).hear hx w.state)

end

end Crowd

end CloudDrive
