import CloudDrive.Proofs.Crowd
import CloudDrive.Proofs.Session.Accepted
import CloudDrive.Proofs.Session.Held

/-!
# Selection and focus in view

`InView`: every selected name, and the focused one, is visible. Events keep it, and so does the
check of a command; a program may break it for some time, if it is going to mend it (`Tidies`).

* `inView_handle`, `inView_accept`: an event, and the check of a command.
* `tidies_refetch_bind`: to fetch listings again leaves it to what follows, whatever they hold.
-/

namespace CloudDrive

open Remote (Failure)

namespace Session

/-- Every selected name, and the focused one, is visible. -/
structure InView (s : Session) : Prop where
  selected : s.selection.names ⊆ s.visibleNames
  focused : ∀ name ∈ s.focused, name ∈ s.visibleNames

instance (s : Session) : Decidable (InView s) :=
  decidable_of_iff ((∀ name ∈ s.selection.names, name ∈ s.visibleNames) ∧
    ∀ name ∈ s.focused.toList, name ∈ s.visibleNames)
    ⟨fun h => ⟨h.1, by simpa using h.2⟩, fun h => ⟨h.1, by simpa using h.2⟩⟩

theorem inView_start (c : Config) (now : Instant) : InView (start c now) :=
  ⟨List.nil_subset _, by rintro _ ⟨⟩⟩

theorem inView_prune (s : Session) : InView s.prune :=
  ⟨s.names_prune_subset, fun _ h => s.focused_prune h⟩

/-! ## Events -/

section
variable {s : Session} (h : InView s)
include h

/-- **An event** keeps selection and focus in view. -/
theorem inView_handle (e : Event) : InView (s.handle e).2 := by
  have hdone := s.handled_handle e
  generalize (s.handle e).2 = s' at hdone ⊢
  cases hdone with
  | holds selection focused _ _ _ hselects =>
    refine ⟨List.Subset.trans hselects.names
      (List.append_subset.2 ⟨h.selected, List.Subset.refl _⟩), ?_⟩
    rcases hselects.focused with rfl | ⟨name, hn, rfl⟩
    · exact h.focused
    · rintro _ ⟨⟩
      exact hn
  | prunes options => exact inView_prune _
  | tidies => exact ⟨h.selected, h.focused⟩
  | resets => exact ⟨List.nil_subset _, by rintro _ ⟨⟩⟩

/-- The check of a command keeps selection and focus in view: a visit clears both. -/
theorem inView_accept (command : Command) : InView (accept command s).2 := by
  rcases accept_cases command s with ⟨path, -, hvisit⟩ | ⟨_, _, hstays⟩
  · rw [hvisit]
    exact ⟨List.nil_subset _, by rintro _ ⟨⟩⟩
  · rw [hstays]
    exact ⟨h.selected, h.focused⟩

end

end Session

/-! ## Programs that mend it -/

open Session (InView)

namespace Program

variable {α β : Type}

/-- Whatever comes, the program leaves selection and focus in view at the end of this turn or of a
later one, and has not ended before. -/
def Tidies : Program Session α → Session → Prop
  | .done _, s => InView s
  | .get next, s => (next s).Tidies s
  | .put s next, _ => next.Tidies s
  | .call _ next, s => InView s ∨ ∀ r s, (next r).Tidies s
  | .sleep _ next, s => InView s ∨ ∀ s, next.Tidies s

/-- The program waits, and tidies later. -/
def WillTidy : Program Session α → Prop
  | .call _ next => ∀ r s, (next r).Tidies s
  | .sleep _ next => ∀ s, next.Tidies s
  | _ => False

theorem WillTidy.tidies {p : Program Session α} (h : p.WillTidy) (s : Session) : p.Tidies s := by
  cases p with
  | call c next => exact .inr h
  | sleep d next => exact .inr h
  | _ => exact h.elim

theorem Tidies.settle {p : Program Session α} {s : Session} (h : p.Tidies s) :
    InView (p.settle s).2 ∨ (p.settle s).1.WillTidy := by
  induction p generalizing s with
  | done a => exact .inl h
  | get next ih => exact ih s h
  | put s' next ih => exact ih h
  | call c next _ => exact h
  | sleep d next _ => exact h

theorem WillTidy.hear {τ : Type} {service : Service τ} {p rest : Program Session α} {t t' : τ}
    {x : Exchange} (h : p.WillTidy) (hx : p.hear service t = some (x, rest, t')) (s : Session) :
    rest.Tidies s := by
  cases p with
  | call c next =>
    cases hx
    exact h _ s
  | sleep d next =>
    cases hx
    exact h s
  | _ => cases hx

theorem willTidy_listFrom_bind {path : String} {policy : RetryPolicy}
    {f : Except Failure Listing → Program Session α} (hf : ∀ r s, (f r).Tidies s) (n : Nat)
    (attempt : UInt32) : ((Remote.listFrom path policy attempt n).bind f).WillTidy := by
  induction n generalizing attempt with
  | zero => exact hf
  | succ n ih =>
    intro r s
    cases r with
    | ok listing => exact hf _ s
    | error e =>
      show Tidies (Program.bind (if e.isRetryable then _ else _) f) s
      split
      · exact .inr fun s => (ih _).tidies s
      · exact hf _ s

end Program

namespace Session

variable {α : Type}

theorem tidies_fetch_bind {path : String} {f : Except Failure Listing → Program Session α}
    (hf : ∀ r s, (f r).Tidies s) (s : Session) : (fetch path >>= f).Tidies s :=
  (Program.willTidy_listFrom_bind hf _ _).tidies s

theorem tidies_refetch_bind (keys : List String) {f : Unit → Program Session α}
    (hf : ∀ s, (f ()).Tidies s) (s : Session) : (refetch keys >>= f).Tidies s := by
  induction keys generalizing s with
  | nil => exact hf s
  | cons key keys ih =>
    unfold refetch
    rw [bind_assoc]
    show Program.Tidies (Program.bind (if s.cache.contains key then _ else _) f) s
    split
    · rw [← Program.bind_eq, bind_assoc]
      exact tidies_fetch_bind (fun r s => ih (refetched r s)) s
    · exact ih s

end Session

end CloudDrive
