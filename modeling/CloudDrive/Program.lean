import CloudDrive.Remote.Call

/-!
# Programs

A command is a program: a value that says which parts of a state it reads and writes, which calls of
the store it makes, and how long it waits, one step after another. Because a program is a value, it
can stop at a call that is held back and be continued later, while other programs run.

* `bind_assoc`, `bind_pure`: programs compose as they should.
-/

namespace CloudDrive

open Remote (Call)

/-- A program that works on a state `σ` and brings a result `α`. -/
inductive Program (σ α : Type) where
  /-- The program has ended. -/
  | done (result : α)
  /-- The state is read. -/
  | get (next : σ → Program σ α)
  /-- The state is replaced. -/
  | put (state : σ) (next : Program σ α)
  /-- A call is made, and its reply awaited. -/
  | call (c : Call) (next : c.Reply → Program σ α)
  /-- Some milliseconds are let pass. -/
  | sleep (duration : UInt64) (next : Program σ α)

namespace Program

variable {σ α β γ : Type}

/-- A program, and then one that its result chooses. -/
protected def bind : Program σ α → (α → Program σ β) → Program σ β
  | .done a, f => f a
  | .get next, f => .get fun s => (next s).bind f
  | .put s next, f => .put s (next.bind f)
  | .call c next, f => .call c fun r => (next r).bind f
  | .sleep d next, f => .sleep d (next.bind f)

instance : Monad (Program σ) where
  pure := .done
  bind := Program.bind

instance : MonadStateOf σ (Program σ) where
  get := .get .done
  set s := .put s (.done ⟨⟩)
  modifyGet f := .get fun s => .put (f s).2 (.done (f s).1)

/-- The reply to a call. -/
def request (c : Call) : Program σ c.Reply := .call c .done

/-- A wait. -/
def wait (duration : UInt64) : Program σ Unit := .sleep duration (.done ())

/-! ## Lemmas -/

@[simp] theorem pure_eq (a : α) : (pure a : Program σ α) = .done a := rfl

@[simp] theorem bind_eq (p : Program σ α) (f : α → Program σ β) : p >>= f = p.bind f := rfl

theorem bind_pure (p : Program σ α) : p.bind .done = p := by
  induction p with
  | done a => rfl
  | get next ih => exact congrArg Program.get (funext ih)
  | put s next ih => exact congrArg (Program.put s) ih
  | call c next ih => exact congrArg (Program.call c) (funext ih)
  | sleep d next ih => exact congrArg (Program.sleep d) ih

theorem bind_assoc (p : Program σ α) (f : α → Program σ β) (g : β → Program σ γ) :
    (p.bind f).bind g = p.bind fun a => (f a).bind g := by
  induction p with
  | done a => rfl
  | get next ih => exact congrArg Program.get (funext ih)
  | put s next ih => exact congrArg (Program.put s) ih
  | call c next ih => exact congrArg (Program.call c) (funext ih)
  | sleep d next ih => exact congrArg (Program.sleep d) ih

instance : LawfulMonad (Program σ) :=
  LawfulMonad.mk' (Program σ) bind_pure (fun _ _ => rfl) bind_assoc

end Program

end CloudDrive
