import CloudDrive.Program
import CloudDrive.Store

/-!
# Programs in flight

A program runs against a store until it ends or makes a call that the store holds back. Held
programs wait in a row; one that is polled goes on if its call is let through by then. A program
that waits is not touched by anything else.

* `advance_done`, `advance_call_of_holds`: how a run ends.
* `advance_of_opened`: while the gate is open, a run ends with what `finish` says.
-/

namespace CloudDrive

open Remote (Call)

/-- What programs work on. -/
structure World (σ : Type) where
  /-- The state that programs share. -/
  state : σ
  /-- The store that they call. -/
  store : Store
  /-- The milliseconds that programs have let pass so far. -/
  slept : Nat
  deriving Inhabited

/-- A program that waits for the reply to a call. -/
structure Held (σ α : Type) where
  call : Call
  next : call.Reply → Program σ α

/-- How far a program has come. -/
inductive Progress (σ α : Type) where
  | finished (result : α)
  | held (rest : Held σ α)

variable {σ α : Type}

/-- A program run until it ends or is held. -/
def Program.advance : Program σ α → World σ → Progress σ α × World σ
  | .done a, w => (.finished a, w)
  | .get next, w => (next w.state).advance w
  | .put s next, w => next.advance { w with state := s }
  | .call c next, w =>
    let store := w.store.record c
    if store.holds c then
      (.held ⟨c, next⟩, { w with store })
    else
      (next (store.answer c).1).advance { w with store := (store.answer c).2 }
  | .sleep d next, w => next.advance { w with slept := w.slept + d.toNat }

/-- A program run to its end, with every call let through. -/
def Program.finish : Program σ α → World σ → α × World σ
  | .done a, w => (a, w)
  | .get next, w => (next w.state).finish w
  | .put s next, w => next.finish { w with state := s }
  | .call c next, w =>
    let store := w.store.record c
    (next (store.answer c).1).finish { w with store := (store.answer c).2 }
  | .sleep d next, w => next.finish { w with slept := w.slept + d.toNat }

/-- A held program run on, if its call is let through now. -/
def Held.advance (h : Held σ α) (w : World σ) : Progress σ α × World σ :=
  if w.store.holds h.call then
    (.held h, w)
  else
    (h.next (w.store.answer h.call).1).advance { w with store := (w.store.answer h.call).2 }

/-- A world, and the programs that wait in it, each under an identity. -/
structure Flight (σ α : Type) where
  world : World σ
  /-- The waiting programs, the one that has waited longest first. -/
  waiting : List (String × Held σ α)

namespace Flight

/-- Nothing waits. -/
def ofWorld (world : World σ) : Flight σ α := ⟨world, []⟩

/-- The identities of the waiting programs. -/
def ids (f : Flight σ α) : List String := f.waiting.map (·.1)

/-- What follows from a run: its result, or one more program that waits at the end of the row. -/
def settle (id : String) (waiting : List (String × Held σ α)) :
    Progress σ α × World σ → Option α × Flight σ α
  | (.finished a, world) => (some a, ⟨world, waiting⟩)
  | (.held h, world) => (none, ⟨world, waiting ++ [(id, h)]⟩)

/-- A program started: its result, unless it waits. -/
def start (f : Flight σ α) (id : String) (p : Program σ α) : Option α × Flight σ α :=
  settle id f.waiting (p.advance f.world)

/-- The waiting program of this identity. -/
def find? (f : Flight σ α) (id : String) : Option (Held σ α) :=
  (f.waiting.find? (·.1 == id)).map (·.2)

/-- The row without the program of this identity. -/
def without (f : Flight σ α) (id : String) : List (String × Held σ α) :=
  f.waiting.eraseP (·.1 == id)

/-- A waiting program continued: its result, unless it waits again; `none` if none of this identity
waits. -/
def poll (f : Flight σ α) (id : String) : Option (Option α × Flight σ α) :=
  (f.find? id).map fun h => settle id (f.without id) (h.advance f.world)

/-- A waiting program given up: was there one? -/
def abandon (f : Flight σ α) (id : String) : Bool × Flight σ α :=
  ((f.find? id).isSome, { f with waiting := f.without id })

/-- The store changed from outside. -/
def modifyStore (f : Flight σ α) (change : Store → Store) : Flight σ α :=
  { f with world := { f.world with store := change f.world.store } }

/-- The shared state changed from outside. -/
def modifyState (f : Flight σ α) (change : σ → σ) : Flight σ α :=
  { f with world := { f.world with state := change f.world.state } }

end Flight

/-! ## Lemmas -/

@[simp] theorem Program.advance_done (a : α) (w : World σ) :
    (Program.done a : Program σ α).advance w = (.finished a, w) := rfl

theorem Program.advance_call_of_holds {c : Call} {next : c.Reply → Program σ α} {w : World σ}
    (h : w.store.holds c = true) :
    (Program.call c next).advance w =
      (.held ⟨c, next⟩, { w with store := w.store.record c }) := by
  have h' : (w.store.record c).holds c = true := h
  simp [Program.advance, h']

/-- While the gate is open, nothing is held back, and a program runs to its end. -/
theorem Program.advance_of_opened (p : Program σ α) {w : World σ} (h : w.store.gate = .opened) :
    p.advance w = (.finished (p.finish w).1, (p.finish w).2) := by
  induction p generalizing w with
  | done a => rfl
  | get next ih => exact ih w.state h
  | put s next ih => exact ih h
  | call c next ih =>
    have hc : (w.store.record c).holds c = false := by
      simp [Store.holds, Store.record, h, Store.Gate.holds]
    simp only [Program.advance, Program.finish, hc]
    exact ih _ ((Store.gate_answer _ c).trans h)
  | sleep d next ih => exact ih h

end CloudDrive
