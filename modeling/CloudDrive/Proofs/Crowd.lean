import CloudDrive.Proofs.Program
import Mathlib.Data.List.Nodup

/-!
# Programs side by side

Programs that share a state take turns. A turn ends when its program has ended, or waits for the
reply to a call or for time to pass; which program goes on next, and what the calls are answered, is
left open.

* `Program.heardOn`: what a program hears when it runs alone.
* `Crowd.begin`, `Crowd.go`: the two kinds of turn.
* `Program.Obeys`: what a program does in each of its turns, whatever it hears and whatever happened
  to the state in between (`Terms`).
* `Crowd.Under.begin`, `Crowd.Under.go`: if every program obeys the terms alone, then each does in a
  crowd.
* `Crowd.Numbered.begin`, `Crowd.Numbered.go`: jobs are told apart by their numbers.
-/

namespace CloudDrive

open Remote (Call Failure)

variable {σ τ ι α β : Type}

/-! ## Services -/

/-- What a program hears when it has waited. -/
inductive Exchange where
  /-- The reply to a call. -/
  | reply (c : Call) (r : c.Reply)
  /-- Some milliseconds have passed. -/
  | waited (duration : UInt64)

/-- The failure that was heard, if a failure was. -/
def Exchange.failure? : Exchange → Option Failure
  | .reply _ (.error f) => some f
  | _ => none

/-- Whatever is told of calls when they are made, and answers them later. -/
structure Service (τ : Type) where
  note : τ → Call → τ
  answer : τ → (c : Call) → c.Reply × τ

/-- The store notes a call when it is made. -/
def Service.ofStore : Service Store := ⟨Store.record, Store.answer⟩

namespace Program

/-- A program run until it has ended or waits, and the state then. -/
def settle : Program σ α → σ → Program σ α × σ
  | .get next, s => (next s).settle s
  | .put s next, _ => next.settle s
  | p, s => (p, s)

/-- The result of a program that has ended. -/
def result? : Program σ α → Option α
  | .done a => some a
  | _ => none

/-- The call whose reply a program waits for. -/
def pending? : Program σ α → Option Call
  | .call c _ => some c
  | _ => none

/-- What a waiting program hears, how it goes on, and the service afterwards. -/
def hear (service : Service τ) : Program σ α → τ → Option (Exchange × Program σ α × τ)
  | .call c next, t =>
    let r := (service.answer t c).1
    some (.reply c r, next r, (service.answer t c).2)
  | .sleep d next, t => some (.waited d, next, t)
  | _, _ => none

end Program

/-! ## Runs from outside -/

namespace Program

/-- What a program hears when it is run to its end on a port, one after another. -/
def heardOn (port : Port τ) : Program σ α → σ → τ → List Exchange
  | .done _, _, _ => []
  | .get next, s, t => (next s).heardOn port s t
  | .put s next, _, t => next.heardOn port s t
  | .call c next, s, t =>
    .reply c (port.answer t c).1 ::
      (next (port.answer t c).1).heardOn port s (port.answer t c).2
  | .sleep d next, s, t => .waited d :: next.heardOn port s t

section
variable (port : Port τ) (s : σ) (t : τ)

theorem heardOn_bind (p : Program σ α) (f : α → Program σ β) :
    (p >>= f).heardOn port s t = p.heardOn port s t ++
      (f (p.runOn port s t).1).heardOn port (p.runOn port s t).2.1 (p.runOn port s t).2.2 := by
  induction p generalizing s t with
  | done a => rfl
  | get next ih => exact ih s s t
  | put s' next ih => exact ih s' t
  | call c next ih => exact congrArg (List.cons _) (ih _ s _)
  | sleep d next ih => exact congrArg (List.cons _) (ih s t)

theorem heardOn_request_bind (c : Call) (f : c.Reply → Program σ β) :
    (request c >>= f).heardOn port s t =
      .reply c (port.answer t c).1 ::
        (f (port.answer t c).1).heardOn port s (port.answer t c).2 := rfl

end

end Program

/-! ## Crowds -/

/-- A program on its way. -/
structure Job (σ ι α : Type) where
  /-- How many jobs were begun before. -/
  number : Nat
  /-- What the job was begun for. -/
  label : ι
  /-- What it heard last. -/
  heard : Option Exchange
  /-- What is still to be done. -/
  rest : Program σ α

/-- A state, a service, and the jobs that wait. -/
structure Crowd (σ τ ι α : Type) where
  state : σ
  remote : τ
  jobs : List (Job σ ι α)
  /-- How many jobs were begun so far. -/
  begun : Nat

namespace Crowd

/-- The waiting job of this number. -/
def job? (w : Crowd σ τ ι α) (number : Nat) : Option (Job σ ι α) :=
  w.jobs.find? (·.number == number)

/-- The waiting jobs without the one of this number. -/
def without (w : Crowd σ τ ι α) (number : Nat) : List (Job σ ι α) :=
  w.jobs.eraseP (·.number == number)

/-- The service after a program has come to a wait. -/
def noted (service : Service τ) (t : τ) (p : Program σ α) : τ :=
  match p.pending? with
  | some c => service.note t c
  | none => t

/-- A job runs until it has ended or waits: the job, if it has ended. -/
def resume (service : Service τ) (w : Crowd σ τ ι α) (job : Job σ ι α) :
    Option (Job σ ι α) × Crowd σ τ ι α :=
  let settled := job.rest.settle w.state
  let job := { job with rest := settled.1 }
  if settled.1.result?.isSome then
    (some job, { w with state := settled.2 })
  else
    (none,
      { w with
        state := settled.2
        remote := noted service w.remote settled.1
        jobs := w.jobs ++ [job] })

/-- A new job: the job, if it has ended at once. -/
def begin (service : Service τ) (w : Crowd σ τ ι α) (label : ι) (p : Program σ α) :
    Option (Job σ ι α) × Crowd σ τ ι α :=
  resume service { w with begun := w.begun + 1 } ⟨w.begun, label, none, p⟩

/-- A waiting job hears what it waits for, and goes on: the job, if it has ended then. -/
def go (service : Service τ) (w : Crowd σ τ ι α) (number : Nat) :
    Option (Job σ ι α) × Crowd σ τ ι α :=
  match w.job? number with
  | none => (none, w)
  | some job =>
    match job.rest.hear service w.remote with
    | none => (none, w)
    | some (x, rest, remote) =>
      resume service { w with remote, jobs := w.without number } { job with heard := some x, rest }

end Crowd

/-! ## Terms -/

/-- What a program may rely on while it waits, and what it has to do in each turn. -/
structure Terms (σ ι α : Type) where
  /-- What holds of the state between the turns. -/
  holds : σ → Prop
  /-- The replies that may come. -/
  comes : (c : Call) → c.Reply → Prop
  /-- What the turn of a program may do: what it heard last, the state before, the state after, and
  what is left of the program then. -/
  does : ι → Option Exchange → σ → σ → Program σ α → Prop

namespace Program

/-- The program, which has got from the state `s₀` at the beginning of its turn to the state `s`,
does what the terms say from now on, whatever it hears and happens in between. -/
def Obeys (T : Terms σ ι α) (label : ι) : Program σ α → Option Exchange → σ → σ → Prop
  | .done a, last, s₀, s => T.holds s ∧ T.does label last s₀ s (.done a)
  | .get next, last, s₀, s => (next s).Obeys T label last s₀ s
  | .put s next, last, s₀, _ => next.Obeys T label last s₀ s
  | .call c next, last, s₀, s => T.holds s ∧ T.does label last s₀ s (.call c next) ∧
      ∀ r, T.comes c r → ∀ s, T.holds s → (next r).Obeys T label (some (.reply c r)) s s
  | .sleep d next, last, s₀, s => T.holds s ∧ T.does label last s₀ s (.sleep d next) ∧
      ∀ s, T.holds s → next.Obeys T label (some (.waited d)) s s

/-- The program waits, and does what the terms say from its next turn on. -/
def Awaits (T : Terms σ ι α) (label : ι) : Program σ α → Prop
  | .call c next =>
      ∀ r, T.comes c r → ∀ s, T.holds s → (next r).Obeys T label (some (.reply c r)) s s
  | .sleep d next => ∀ s, T.holds s → next.Obeys T label (some (.waited d)) s s
  | _ => False

section
variable {T : Terms σ ι α} {label : ι} {last : Option Exchange} {s₀ s : σ}

/-- A program that is run until it has ended or waits has done what the terms say of this turn. -/
theorem Obeys.settle {p : Program σ α} (h : p.Obeys T label last s₀ s) :
    T.holds (p.settle s).2 ∧ T.does label last s₀ (p.settle s).2 (p.settle s).1 ∧
      ((p.settle s).1.result? = none → (p.settle s).1.Awaits T label) := by
  induction p generalizing s with
  | done a => exact ⟨h.1, h.2, by rintro ⟨⟩⟩
  | get next ih => exact ih s h
  | put s' next ih => exact ih h
  | call c next _ => exact ⟨h.1, h.2.1, fun _ => h.2.2⟩
  | sleep d next _ => exact ⟨h.1, h.2.1, fun _ => h.2.2⟩

theorem Awaits.hear {p rest : Program σ α} {service : Service τ} {t t' : τ} {x : Exchange}
    (h : p.Awaits T label) (hc : ∀ c, T.comes c (service.answer t c).1)
    (hx : p.hear service t = some (x, rest, t')) (hs : T.holds s) :
    rest.Obeys T label (some x) s s := by
  cases p with
  | call c next =>
    cases hx
    exact h _ (hc c) s hs
  | sleep d next =>
    cases hx
    exact h s hs
  | _ => exact h.elim

/-- If any reply may come, a program that runs alone on a port leaves the state as the terms say. -/
theorem Obeys.holds_runOn {p : Program σ α} (h : p.Obeys T label last s₀ s)
    (hc : ∀ c r, T.comes c r) (port : Port τ) (t : τ) : T.holds (p.runOn port s t).2.1 := by
  induction p generalizing last s₀ s t with
  | done a => exact h.1
  | get next ih => exact ih s h t
  | put s' next ih => exact ih h t
  | call c next ih => exact ih _ (h.2.2 _ (hc c _) s h.1) _
  | sleep d next ih => exact ih (h.2.2 s h.1) t

theorem settle_modifyGet_bind (g : σ → β × σ) (f : β → Program σ α) :
    ((modifyGet g : Program σ β) >>= f).settle s = (f (g s).1).settle (g s).2 := rfl

@[simp] theorem obeys_get_bind (f : σ → Program σ α) :
    ((MonadState.get : Program σ σ) >>= f).Obeys T label last s₀ s ↔
      (f s).Obeys T label last s₀ s := Iff.rfl

@[simp] theorem obeys_modifyGet_bind (g : σ → β × σ) (f : β → Program σ α) :
    ((modifyGet g : Program σ β) >>= f).Obeys T label last s₀ s ↔
      (f (g s).1).Obeys T label last s₀ (g s).2 := Iff.rfl

@[simp] theorem obeys_modify_bind (g : σ → σ) (f : Unit → Program σ α) :
    ((modify g : Program σ Unit) >>= f).Obeys T label last s₀ s ↔
      (f ()).Obeys T label last s₀ (g s) := Iff.rfl

/-- A call ends a turn, and its reply begins the next one. -/
theorem obeys_request_bind {c : Call} {f : c.Reply → Program σ α} :
    ((request c : Program σ c.Reply) >>= f).Obeys T label last s₀ s ↔
      T.holds s ∧ T.does label last s₀ s ((request c : Program σ c.Reply) >>= f) ∧
        ∀ r, T.comes c r → ∀ s, T.holds s → (f r).Obeys T label (some (.reply c r)) s s := Iff.rfl

/-- A listing ends the turn, and may take some more, until its last reply comes. -/
theorem obeys_list_bind {path : String} {policy : RetryPolicy}
    {f : Except Failure Listing → Program σ α} (hs : T.holds s)
    (hdoes : ∀ n attempt,
      T.does label last s₀ s ((Remote.listFrom path policy attempt n).bind f))
    (hlater : ∀ x s n attempt,
      T.does label (some x) s s ((Remote.listFrom path policy attempt n).bind f))
    (hsleep : ∀ x s d n attempt,
      T.does label (some x) s s (.sleep d ((Remote.listFrom path policy attempt n).bind f)))
    (hnext : ∀ r, T.comes (.list path) r → ∀ s, T.holds s →
      (f r).Obeys T label (some (.reply (.list path) r)) s s) :
    ((Remote.list path policy : Program σ _) >>= f).Obeys T label last s₀ s := by
  have hfrom : ∀ n attempt last s₀ s, T.holds s →
      (∀ n attempt, T.does label last s₀ s ((Remote.listFrom path policy attempt n).bind f)) →
      ((Remote.listFrom path policy attempt n).bind f).Obeys T label last s₀ s := by
    intro n
    induction n with
    | zero => exact fun attempt _ _ _ hs hdoes => ⟨hs, hdoes 0 attempt, hnext⟩
    | succ n ih =>
      refine fun attempt _ _ _ hs hdoes => ⟨hs, hdoes (n + 1) attempt, fun r hr s' hs' => ?_⟩
      cases r with
      | ok listing => exact hnext _ hr s' hs'
      | error e =>
        show Obeys T label (Program.bind (if e.isRetryable then _ else _) f) _ s' s'
        split
        · exact ⟨hs', hsleep _ s' _ n _, fun s hs => ih _ _ s s hs fun n a => hlater _ s n a⟩
        · exact hnext _ hr s' hs'
  exact hfrom _ _ last s₀ s hs hdoes

end

end Program

/-! ## Turns of a crowd -/

namespace Crowd

theorem resume_cases (service : Service τ) (w : Crowd σ τ ι α) (job : Job σ ι α) :
    ∃ rest state, job.rest.settle w.state = (rest, state) ∧
      ((∃ a, rest = .done a ∧
          w.resume service job = (some { job with rest }, { w with state })) ∨
        rest.result? = none ∧ w.resume service job =
          (none, { w with
            state
            remote := noted service w.remote rest
            jobs := w.jobs ++ [{ job with rest }] })) := by
  refine ⟨_, _, rfl, ?_⟩
  unfold resume
  simp only
  cases hp : (job.rest.settle w.state).1 with
  | done a => exact .inl ⟨a, rfl, rfl⟩
  | _ => exact .inr ⟨rfl, rfl⟩

theorem resume_modifyGet (service : Service τ) (w : Crowd σ τ ι α) (number : Nat) (label : ι)
    (heard : Option Exchange) (g : σ → β × σ) (f : β → Program σ α) :
    w.resume service ⟨number, label, heard, modifyGet g >>= f⟩ =
      resume service { w with state := (g w.state).2 }
        ⟨number, label, heard, f (g w.state).1⟩ := rfl

theorem go_of_hear {service : Service τ} {w : Crowd σ τ ι α} {number : Nat} {job : Job σ ι α}
    {x : Exchange} {rest : Program σ α} {remote : τ} (hjob : w.job? number = some job)
    (hx : job.rest.hear service w.remote = some (x, rest, remote)) :
    w.go service number = resume service { w with remote, jobs := w.without number }
      { job with heard := some x, rest } := by
  unfold go
  simp only [hjob, hx]

theorem go_cases (service : Service τ) (w : Crowd σ τ ι α) (number : Nat) :
    w.go service number = (none, w) ∨
      ∃ job x rest remote, w.job? number = some job ∧
        job.rest.hear service w.remote = some (x, rest, remote) ∧
        w.go service number = resume service { w with remote, jobs := w.without number }
          { job with heard := some x, rest } := by
  cases hjob : w.job? number with
  | none => exact .inl (by simp only [go, hjob])
  | some job =>
    cases hx : job.rest.hear service w.remote with
    | none => exact .inl (by simp only [go, hjob, hx])
    | some heard => exact .inr ⟨job, _, _, _, rfl, hx, go_of_hear hjob hx⟩

theorem mem_of_job? {w : Crowd σ τ ι α} {number : Nat} {job : Job σ ι α}
    (h : w.job? number = some job) : job ∈ w.jobs ∧ job.number = number :=
  ⟨List.mem_of_find?_eq_some h, by simpa using List.find?_some h⟩

theorem without_subset (w : Crowd σ τ ι α) (number : Nat) : w.without number ⊆ w.jobs :=
  List.eraseP_subset

/-! ### Terms in a crowd -/

/-- The terms hold between the turns: every waiting job has kept to them so far, and will. -/
structure Under (T : Terms σ ι α) (w : Crowd σ τ ι α) : Prop where
  holds : T.holds w.state
  did : ∀ job ∈ w.jobs, ∃ s₀ s, T.does job.label job.heard s₀ s job.rest
  awaits : ∀ job ∈ w.jobs, job.rest.Awaits T job.label

section
variable {T : Terms σ ι α} {w : Crowd σ τ ι α} (h : w.Under T)
include h

theorem Under.mono {state : σ} {remote : τ} {jobs : List (Job σ ι α)} {begun : Nat}
    (hs : T.holds state) (hj : jobs ⊆ w.jobs) :
    (⟨state, remote, jobs, begun⟩ : Crowd σ τ ι α).Under T :=
  ⟨hs, fun job hjob => h.did job (hj hjob), fun job hjob => h.awaits job (hj hjob)⟩

/-- A job that is resumed keeps to the terms in its turn, and the crowd stays under them. -/
theorem Under.resume (service : Service τ) (job : Job σ ι α)
    (hj : job.rest.Obeys T job.label job.heard w.state w.state) :
    (w.resume service job).2.Under T ∧
      T.does job.label job.heard w.state (w.resume service job).2.state
        (job.rest.settle w.state).1 := by
  obtain ⟨hs, hdoes, hawaits⟩ := hj.settle
  obtain ⟨rest, state, hsettle, ⟨a, ha, hresume⟩ | ⟨hnone, hresume⟩⟩ := w.resume_cases service job
  · rw [hresume]
    rw [hsettle] at hs hdoes ⊢
    exact ⟨⟨hs, h.did, h.awaits⟩, hdoes⟩
  · rw [hresume]
    rw [hsettle] at hs hdoes hawaits ⊢
    refine ⟨⟨hs, fun job hjob => ?_, fun job hjob => ?_⟩, hdoes⟩
    · rcases List.mem_append.1 hjob with hjob | hjob
      · exact h.did job hjob
      · rw [List.mem_singleton.1 hjob]
        exact ⟨_, _, hdoes⟩
    · rcases List.mem_append.1 hjob with hjob | hjob
      · exact h.awaits job hjob
      · rw [List.mem_singleton.1 hjob]
        exact hawaits hnone

/-- **A new job** that obeys the terms leaves the crowd under them. -/
theorem Under.begin (service : Service τ) {label : ι} {p : Program σ α}
    (hp : p.Obeys T label none w.state w.state) :
    (w.begin service label p).2.Under T ∧
      T.does label none w.state (w.begin service label p).2.state (p.settle w.state).1 :=
  Under.resume (w := { w with begun := w.begun + 1 }) (h.mono h.holds (List.Subset.refl _)) service
    ⟨w.begun, label, none, p⟩ hp

/-- **A turn** leaves the crowd under the terms, if the service answers as it may. -/
theorem Under.go {service : Service τ} (hc : ∀ c, T.comes c (service.answer w.remote c).1)
    (number : Nat) : (w.go service number).2.Under T := by
  rcases w.go_cases service number with hgo | ⟨job, x, rest, remote, hjob, hx, hgo⟩
  · rwa [hgo]
  · rw [hgo]
    have hrest := (h.awaits job (mem_of_job? hjob).1).hear hc hx h.holds
    exact (Under.resume (w := { w with remote, jobs := w.without number })
      (h.mono h.holds (w.without_subset number)) service { job with heard := some x, rest }
      hrest).1

/-- What a turn comes to under the terms: nothing, or a job has heard something, has done what the
terms say, and has ended or waits again. -/
theorem Under.go_does {service : Service τ} (hc : ∀ c, T.comes c (service.answer w.remote c).1)
    (number : Nat) :
    w.go service number = (none, w) ∨
      ∃ job x next remote rest state, w.job? number = some job ∧
        job.rest.hear service w.remote = some (x, next, remote) ∧
        T.does job.label (some x) w.state state rest ∧
        ((∃ a, rest = .done a ∧ w.go service number =
            (some { job with heard := some x, rest },
              { w with state, remote, jobs := w.without number })) ∨
          rest.result? = none ∧ w.go service number =
            (none, { w with
              state
              remote := noted service remote rest
              jobs := w.without number ++ [{ job with heard := some x, rest }] })) := by
  rcases w.go_cases service number with hgo | ⟨job, x, next, remote, hjob, hx, hgo⟩
  · exact .inl hgo
  · have hdoes := ((h.awaits job (mem_of_job? hjob).1).hear hc hx h.holds).settle.2.1
    obtain ⟨rest, state, hsettle, hresume⟩ := Crowd.resume_cases service
      { w with remote, jobs := w.without number } { job with heard := some x, rest := next }
    rw [← hgo] at hresume
    simp only at hsettle
    rw [hsettle] at hdoes
    exact .inr ⟨job, x, next, remote, rest, state, hjob, hx, hdoes, hresume⟩

end

theorem begin_does {T : Terms σ ι α} (service : Service τ) (w : Crowd σ τ ι α) {label : ι}
    {p : Program σ α} (hp : p.Obeys T label none w.state w.state) :
    ∃ rest state, T.does label none w.state state rest ∧
      ((∃ a, rest = .done a ∧ w.begin service label p =
          (some ⟨w.begun, label, none, rest⟩, { w with state, begun := w.begun + 1 })) ∨
        rest.result? = none ∧ w.begin service label p =
          (none, { w with
            state
            remote := noted service w.remote rest
            jobs := w.jobs ++ [⟨w.begun, label, none, rest⟩]
            begun := w.begun + 1 })) := by
  have hdoes := hp.settle.2.1
  obtain ⟨rest, state, hsettle, hresume⟩ := Crowd.resume_cases service
    { w with begun := w.begun + 1 } ⟨w.begun, label, none, p⟩
  simp only at hsettle
  rw [hsettle] at hdoes
  exact ⟨rest, state, hdoes, hresume⟩

/-! ### Numbers -/

/-- No two waiting jobs have one number, and no number was given out in advance. -/
structure Numbered (w : Crowd σ τ ι α) : Prop where
  lt_begun : ∀ job ∈ w.jobs, job.number < w.begun
  nodup : (w.jobs.map (·.number)).Nodup

theorem job?_eq_none {w : Crowd σ τ ι α} {number : Nat} :
    w.job? number = none ↔ ∀ job ∈ w.jobs, job.number ≠ number := by
  simp [job?]

section
variable {w : Crowd σ τ ι α}

theorem job?_append {number : Nat} (h : ∀ job ∈ w.jobs, job.number ≠ number) (state : σ)
    (remote : τ) (job : Job σ ι α) (begun : Nat) (hn : job.number = number) :
    (⟨state, remote, w.jobs ++ [job], begun⟩ : Crowd σ τ ι α).job? number = some job := by
  have hnone : w.jobs.find? (·.number == number) = none := by simpa using h
  simp [job?, List.find?_append, hnone, hn]

variable (h : w.Numbered)
include h

theorem Numbered.ne_of_mem_without {number : Nat} {job : Job σ ι α} (hj : job ∈ w.without number) :
    job.number ≠ number := by
  intro hn
  have hnodup := h.nodup
  unfold without at hj
  cases hf : w.job? number with
  | none => exact job?_eq_none.1 hf job (List.eraseP_subset hj) hn
  | some job' =>
    obtain ⟨hmem, hnumber⟩ := mem_of_job? hf
    obtain ⟨a, before, after, -, ha, hsplit, herase⟩ :=
      List.exists_of_eraseP (p := fun job : Job σ ι α => job.number == number) hmem
        (by simpa using hnumber)
    rw [herase] at hj
    rw [hsplit, List.map_append, List.map_cons, List.nodup_middle, List.nodup_cons] at hnodup
    refine hnodup.1 ?_
    rw [show a.number = number by simpa using ha, ← hn, ← List.map_append]
    exact List.mem_map_of_mem hj

theorem Numbered.mem_jobs_iff {number : Nat} {job : Job σ ι α} (hj : w.job? number = some job)
    (other : Job σ ι α) : other ∈ w.jobs ↔ other ∈ w.without number ∨ other = job := by
  obtain ⟨hmem, rfl⟩ := mem_of_job? hj
  constructor
  · intro ho
    by_cases hn : other.number = job.number
    · exact .inr (List.inj_on_of_nodup_map h.nodup ho hmem hn)
    · exact .inl ((List.mem_eraseP_of_neg (by simpa using hn)).2 ho)
  · rintro (ho | rfl)
    · exact w.without_subset _ ho
    · exact hmem

theorem Numbered.resume (service : Service τ) (job : Job σ ι α) (hlt : job.number < w.begun)
    (hne : ∀ other ∈ w.jobs, other.number ≠ job.number) : (w.resume service job).2.Numbered := by
  obtain ⟨rest, state, -, ⟨a, -, hresume⟩ | ⟨-, hresume⟩⟩ := w.resume_cases service job
  · rw [hresume]
    exact ⟨h.lt_begun, h.nodup⟩
  · rw [hresume]
    refine ⟨fun other hother => ?_, ?_⟩
    · rcases List.mem_append.1 hother with hother | hother
      · exact h.lt_begun other hother
      · rw [List.mem_singleton.1 hother]
        exact hlt
    · rw [List.map_append, List.nodup_append]
      refine ⟨h.nodup, List.nodup_singleton _, ?_⟩
      rintro n hn m hm rfl
      obtain ⟨other, hother, hnumber⟩ := List.mem_map.1 hn
      exact hne other hother (hnumber.trans (List.mem_singleton.1 hm))

theorem Numbered.begin (service : Service τ) (label : ι) (p : Program σ α) :
    (w.begin service label p).2.Numbered := by
  have hw : Numbered { w with begun := w.begun + 1 } :=
    ⟨fun job hj => Nat.lt_succ_of_lt (h.lt_begun job hj), h.nodup⟩
  exact hw.resume service _ (Nat.lt_succ_self _) fun other ho => Nat.ne_of_lt (h.lt_begun other ho)

theorem Numbered.go (service : Service τ) (number : Nat) : (w.go service number).2.Numbered := by
  rcases w.go_cases service number with hgo | ⟨job, x, rest, remote, hjob, -, hgo⟩
  · rwa [hgo]
  · rw [hgo]
    obtain ⟨hmem, hnumber⟩ := mem_of_job? hjob
    have hw : Numbered { w with remote, jobs := w.without number } :=
      ⟨fun other ho => h.lt_begun other (w.without_subset number ho),
        h.nodup.sublist ((List.eraseP_sublist).map _)⟩
    exact hw.resume service { job with heard := some x, rest } (h.lt_begun job hmem)
      fun other ho => hnumber.symm ▸ h.ne_of_mem_without ho

end

end Crowd

end CloudDrive
