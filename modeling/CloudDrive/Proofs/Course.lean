import CloudDrive.Proofs.Crowd

/-!
# Programs that remember

What a program may ask next can depend on what it has asked before and on what it was answered. A
course says so by a memory, which the program's own changes and all that it hears carry on.

* `Program.Pursues`: every call and every change is one that the course admits at that point,
  whatever the program hears and whatever state it finds.
* `Pursues.bind`, `pursues_list`, `pursues_modifyGet_bind`: how such programs are put together.
* `Pursues.settle`, `Pursues.hear`: what that comes to in the turns of a crowd.
-/

namespace CloudDrive

open Remote (Call Failure)

variable {σ τ κ α β : Type}

/-- Rules for programs that remember what they have heard. -/
structure Course (σ κ : Type) where
  /-- May a program of this memory make this change, and what does it remember then? -/
  allows : κ → σ → σ → κ → Prop
  /-- May it wait for the reply to this call, or else for time to pass? -/
  waits : κ → Option Call → Prop
  /-- What it remembers when it has heard something. -/
  hears : κ → Exchange → κ

namespace Program

/-- The program, which remembers `k` and has come to the state `s`, makes only the calls and the
changes of the course, and ends only with a memory and a result that are admitted. -/
def Pursues (course : Course σ κ) (ends : κ → α → Prop) : Program σ α → κ → σ → Prop
  | .done a, k, _ => ends k a
  | .get next, k, s => (next s).Pursues course ends k s
  | .put s' next, k, s => ∃ k', course.allows k s s' k' ∧ next.Pursues course ends k' s'
  | .call c next, k, _ =>
    course.waits k (some c) ∧
      ∀ r s, (next r).Pursues course ends (course.hears k (.reply c r)) s
  | .sleep d next, k, _ =>
    course.waits k none ∧ ∀ s, next.Pursues course ends (course.hears k (.waited d)) s

variable {course : Course σ κ} {ends : κ → α → Prop} {k k' : κ}

/-! ## Putting programs together -/

theorem Pursues.bind {ends' : κ → β → Prop} {p : Program σ α} {f : α → Program σ β} {s : σ}
    (h : p.Pursues course ends k s)
    (hf : ∀ k a s, ends k a → (f a).Pursues course ends' k s) :
    (p >>= f).Pursues course ends' k s := by
  induction p generalizing k s with
  | done a => exact hf k a s h
  | get next ih => exact ih s h
  | put s' next ih =>
    obtain ⟨k', hk, h⟩ := h
    exact ⟨k', hk, ih h⟩
  | call c next ih => exact ⟨h.1, fun r s => ih r (h.2 r s)⟩
  | sleep d next ih => exact ⟨h.1, fun s => ih (h.2 s)⟩

theorem pursues_get_bind {f : σ → Program σ α} {s : σ} (hf : (f s).Pursues course ends k s) :
    ((MonadState.get : Program σ σ) >>= f).Pursues course ends k s := hf

theorem pursues_modifyGet_bind {g : σ → β × σ} {f : β → Program σ α} {s : σ}
    (hg : course.allows k s (g s).2 k') (hf : (f (g s).1).Pursues course ends k' (g s).2) :
    ((modifyGet g : Program σ β) >>= f).Pursues course ends k s :=
  ⟨k', hg, hf⟩

theorem pursues_modify_bind {g : σ → σ} {f : Unit → Program σ α} {s : σ}
    (hg : course.allows k s (g s) k') (hf : (f ()).Pursues course ends k' (g s)) :
    ((modify g : Program σ Unit) >>= f).Pursues course ends k s :=
  ⟨k', hg, hf⟩

theorem pursues_modify {g : σ → σ} {ends : κ → Unit → Prop} {s : σ}
    (hg : course.allows k s (g s) k') (hk : ends k' ()) :
    (modify g : Program σ Unit).Pursues course ends k s :=
  ⟨k', hg, hk⟩

/-- A listing leaves no trace, if neither its replies nor the waits between them do. -/
theorem pursues_list {path : String} {policy : RetryPolicy} {s : σ}
    (hasks : course.waits k (some (.list path))) (hwaits : course.waits k none)
    (hreply : ∀ r, course.hears k (.reply (.list path) r) = k)
    (hwaited : ∀ d, course.hears k (.waited d) = k) :
    (Remote.list path policy : Program σ _).Pursues course (fun k' _ => k' = k) k s := by
  have hfrom : ∀ n attempt s, (Remote.listFrom path policy attempt n : Program σ _).Pursues course
      (fun k' _ => k' = k) k s := by
    intro n
    induction n with
    | zero => exact fun attempt s => ⟨hasks, fun r _ => hreply r⟩
    | succ n ih =>
      refine fun attempt s => ⟨hasks, fun r s => ?_⟩
      rw [hreply]
      cases r with
      | ok listing => rfl
      | error f =>
        show Pursues course _ (if f.isRetryable then _ else _) k s
        split
        · refine ⟨hwaits, fun s => ?_⟩
          rw [hwaited]
          exact ih _ s
        · rfl
  exact hfrom _ _ s

/-! ## Turns -/

/-- What is left of a program at the end of a turn, and some property that every change keeps: it has
ended as it may, or it waits as it may, and pursues the course from its next turn on. -/
theorem Pursues.settle {P : κ → σ → Prop} {p : Program σ α} {s : σ}
    (h : p.Pursues course ends k s)
    (hP : ∀ k s s' k', course.allows k s s' k' → P k s → P k' s') (hs : P k s) :
    ∃ k', P k' (p.settle s).2 ∧ (∀ a, (p.settle s).1 = .done a → ends k' a) ∧
      ((p.settle s).1.result? = none →
        course.waits k' (p.settle s).1.pending? ∧
          ∀ s', (p.settle s).1.Pursues course ends k' s') := by
  induction p generalizing k s with
  | done a => exact ⟨k, hs, fun _ hd => Program.done.inj hd ▸ h, fun hd => by cases hd⟩
  | get next ih => exact ih s h hs
  | put s' next ih =>
    obtain ⟨k', hk, h⟩ := h
    exact ih h (hP k s s' k' hk hs)
  | call c next _ => exact ⟨k, hs, fun _ hd => (by cases hd), fun _ => ⟨h.1, fun _ => h⟩⟩
  | sleep d next _ => exact ⟨k, hs, fun _ hd => (by cases hd), fun _ => ⟨h.1, fun _ => h⟩⟩

/-- A waiting program remembers what it hears, in whatever state it goes on. -/
theorem Pursues.hear {p rest : Program σ α} {service : Service τ} {t t' : τ} {x : Exchange}
    {s₀ : σ} (h : p.Pursues course ends k s₀) (hx : p.hear service t = some (x, rest, t')) (s : σ) :
    rest.Pursues course ends (course.hears k x) s := by
  cases p with
  | call c next =>
    cases hx
    exact h.2 _ s
  | sleep d next =>
    cases hx
    exact h.2 s
  | _ => cases hx

theorem Pursues.asks {p : Program σ α} {c : Call} {s : σ} (h : p.Pursues course ends k s)
    (hc : p.pending? = some c) : course.waits k (some c) := by
  cases p with
  | call c' next =>
    cases hc
    exact h.1
  | _ => cases hc

end Program

end CloudDrive
