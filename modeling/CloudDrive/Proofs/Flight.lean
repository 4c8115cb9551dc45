import CloudDrive.Flight
import CloudDrive.Proofs.Session.Turns
import Mathlib.Data.List.Perm.Subperm

/-!
# Flights as crowds

In a flight a program waits only for calls that the store holds back, so that several turns of a
crowd may be one step there. Every flight of a session takes place in turns: whatever holds in all
runs of turns holds in it.

* `Crowd.exists_goAll_of_advance`: a program that advances takes turns.
* `exists_turns_of_flown`: a session in flight is one whose commands took turns.
-/

namespace CloudDrive

variable {σ ι α : Type}

/-- What is left of a held program. -/
def Held.program (h : Held σ α) : Program σ α := .call h.call h.next

/-- What is left of a program that has advanced. -/
def Progress.rests : Progress σ α → List (Program σ α)
  | .finished _ => []
  | .held h => [h.program]

namespace Crowd

/-- A crowd in the world of a flight. -/
def inWorld (world : World σ) (jobs : List (Job σ ι α)) (begun : Nat) : Crowd σ Store ι α :=
  ⟨world.state, world.store, jobs, begun⟩

/-- The jobs of some numbers go on, one after another. -/
def goAll (w : Crowd σ Store ι α) (numbers : List Nat) : Crowd σ Store ι α :=
  numbers.foldl (fun w number => (w.go .ofStore number).2) w

/-! ## Programs that advance -/

/-- A job that has just come to a wait hears what it waits for: it runs on. -/
theorem go_resumed (w : Crowd σ Store ι α) (job : Job σ ι α)
    (h : ∀ other ∈ w.jobs, other.number ≠ job.number) {t remote : Store} {x : Exchange}
    {rest : Program σ α} (hx : job.rest.hear .ofStore t = some (x, rest, remote)) :
    ({ w with remote := t, jobs := w.jobs ++ [job] } : Crowd σ Store ι α).go .ofStore job.number =
      resume .ofStore { w with remote } { job with heard := some x, rest } := by
  have hwithout : ({ w with remote := t, jobs := w.jobs ++ [job] } :
      Crowd σ Store ι α).without job.number = w.jobs := by
    unfold without
    rw [List.eraseP_append_right _ (by simpa using h)]
    simp
  rw [go_of_hear (job?_append h w.state t job w.begun rfl) hx, hwithout]

section
variable {jobs : List (Job σ ι α)} {number : Nat} (hn : ∀ other ∈ jobs, other.number ≠ number)
  (begun : Nat) (label : ι)
include hn

/-- **A program that advances** takes turns: the calls that are let through are replies that come at
once. The induction is on the program. -/
theorem exists_goAll_of_advance (p : Program σ α) (world : World σ) (heard : Option Exchange) :
    ∃ numbers jobs',
      ((inWorld world jobs begun).resume .ofStore ⟨number, label, heard, p⟩).2.goAll numbers =
        inWorld (p.advance world).2 jobs' begun ∧
      jobs'.map (·.rest) = jobs.map (·.rest) ++ (p.advance world).1.rests := by
  induction p generalizing world heard with
  | done a => exact ⟨[], jobs, rfl, (List.append_nil _).symm⟩
  | get next ih => exact ih world.state world heard
  | put s next ih => exact ih { world with state := s } heard
  | call c next ih =>
    simp only [Program.advance]
    split
    · exact ⟨[], jobs ++ [⟨number, label, heard, .call c next⟩], rfl, List.map_append⟩
    · obtain ⟨numbers, jobs', hgo, hjobs⟩ := ih ((world.store.record c).answer c).1
        { world with store := ((world.store.record c).answer c).2 }
        (some (.reply c ((world.store.record c).answer c).1))
      refine ⟨number :: numbers, jobs', ?_, hjobs⟩
      have hturn := go_resumed (inWorld world jobs begun) ⟨number, label, heard, .call c next⟩ hn
        (t := world.store.record c) rfl
      exact (congrArg (fun r => goAll r.2 numbers) hturn).trans hgo
  | sleep d next ih =>
    obtain ⟨numbers, jobs', hgo, hjobs⟩ := ih { world with slept := world.slept + d.toNat }
      (some (.waited d))
    refine ⟨number :: numbers, jobs', ?_, hjobs⟩
    have hturn := go_resumed (inWorld world jobs begun) ⟨number, label, heard, .sleep d next⟩ hn
      (t := world.store) rfl
    exact (congrArg (fun r => goAll r.2 numbers) hturn).trans hgo

end

/-! ## Steps of a flight -/

/-- The crowd is in the world of the flight, and what waits there waits here. -/
structure Follows (w : Crowd σ Store ι α) (f : Flight σ α) : Prop where
  state : w.state = f.world.state
  remote : w.remote = f.world.store
  jobs : (f.waiting.map (·.2.program)).Subperm (w.jobs.map (·.rest))

theorem world_settle (id : String) (waiting : List (String × Held σ α))
    (r : Progress σ α × World σ) : (Flight.settle id waiting r).2.world = r.2 := by
  obtain ⟨_ | _, _⟩ := r <;> rfl

theorem map_waiting_settle (id : String) (waiting : List (String × Held σ α))
    (r : Progress σ α × World σ) :
    (Flight.settle id waiting r).2.waiting.map (·.2.program) =
      waiting.map (·.2.program) ++ r.1.rests := by
  obtain ⟨_ | h, _⟩ := r
  · exact (List.append_nil _).symm
  · exact List.map_append

theorem perm_of_find? {β : Type} {l : List β} {q : β → Bool} {b : β} (h : l.find? q = some b) :
    l.Perm (b :: l.eraseP q) := by
  obtain ⟨hb, before, after, rfl, hbefore⟩ := List.find?_eq_some_iff_append.1 h
  rw [List.eraseP_append_right _ (by simpa using hbefore), List.eraseP_cons_of_pos hb]
  exact List.perm_middle

/-- Programs that have advanced in the world of a flight, beside others that wait. -/
theorem follows_settle {world : World σ} {jobs jobs' : List (Job σ ι α)} {begun : Nat}
    {waiting : List (String × Held σ α)} {progress : Progress σ α} (id : String)
    (hwaiting : (waiting.map (·.2.program)).Subperm (jobs.map (·.rest)))
    (hjobs : jobs'.map (·.rest) = jobs.map (·.rest) ++ progress.rests) :
    (inWorld world jobs' begun).Follows (Flight.settle id waiting (progress, world)).2 := by
  refine ⟨?_, ?_, ?_⟩
  · rw [world_settle]
    rfl
  · rw [world_settle]
    rfl
  · rw [map_waiting_settle]
    show List.Subperm _ (jobs'.map (·.rest))
    rw [hjobs]
    exact (List.subperm_append_right _).2 hwaiting

theorem Numbered.job?_of_mem {w : Crowd σ Store ι α} (h : w.Numbered) {job : Job σ ι α}
    (hjob : job ∈ w.jobs) : w.job? job.number = some job := by
  cases hfound : w.job? job.number with
  | none => exact absurd rfl (job?_eq_none.1 hfound job hjob)
  | some other =>
    obtain ⟨hmem, hnumber⟩ := mem_of_job? hfound
    rw [List.inj_on_of_nodup_map h.nodup hmem hjob hnumber]

section
variable {w : Crowd σ Store ι α} {f : Flight σ α} (h : w.Follows f) (hn : w.Numbered)
include h hn

theorem Follows.start (id : String) (label : ι) (p : Program σ α) :
    ∃ numbers, ((w.begin .ofStore label p).2.goAll numbers).Follows (f.start id p).2 := by
  obtain ⟨state, remote, jobs, begun⟩ := w
  obtain rfl : state = f.world.state := h.state
  obtain rfl : remote = f.world.store := h.remote
  have hfresh : ∀ other ∈ jobs, other.number ≠ begun :=
    fun other ho => Nat.ne_of_lt (hn.lt_begun other ho)
  obtain ⟨numbers, jobs', hgo, hjobs⟩ :=
    exists_goAll_of_advance hfresh (begun + 1) label p f.world none
  refine ⟨numbers, ?_⟩
  show Follows (goAll (resume .ofStore (inWorld f.world jobs (begun + 1)) _).2 numbers) _
  rw [hgo]
  exact follows_settle id h.jobs hjobs

/-- A program that is polled goes on, unless its call is still held back. -/
theorem Follows.poll {id : String} {r : Option α × Flight σ α} (hr : f.poll id = some r) :
    ∃ numbers, (w.goAll numbers).Follows r.2 := by
  obtain ⟨held, hfind, rfl⟩ := Option.map_eq_some_iff.1 hr
  obtain ⟨x, hx, rfl⟩ := Option.map_eq_some_iff.1 hfind
  have hwaiting : (f.waiting.map (·.2.program)).Perm
      (x.2.program :: (f.without id).map (·.2.program)) := (perm_of_find? hx).map _
  unfold Held.advance
  split
  · -- it waits on, at the end of the row
    refine ⟨[], ?_, ?_, ?_⟩
    · rw [world_settle]
      exact h.state
    · rw [world_settle]
      exact h.remote
    · rw [map_waiting_settle]
      exact ((List.perm_append_singleton _ _).trans hwaiting.symm).subperm.trans h.jobs
  · -- one of the jobs waits for the same call, and hears the same reply
    obtain ⟨job, hjob, hrest⟩ := List.mem_map.1
      (h.jobs.subset (List.mem_map_of_mem (List.mem_of_find?_eq_some hx)))
    have hfound := hn.job?_of_mem hjob
    have hjobs : (w.jobs.map (·.rest)).Perm
        (x.2.program :: (w.without job.number).map (·.rest)) := by
      rw [← hrest]
      exact (perm_of_find? hfound).map _
    have hothers : ((f.without id).map (·.2.program)).Subperm
        ((w.without job.number).map (·.rest)) :=
      (List.subperm_cons _).1 (hwaiting.symm.subperm.trans (h.jobs.trans hjobs.subperm))
    have hfresh : ∀ other ∈ w.without job.number, other.number ≠ job.number :=
      fun other ho => hn.ne_of_mem_without ho
    obtain ⟨numbers, jobs', hgo, hjobs'⟩ := exists_goAll_of_advance hfresh w.begun job.label
      (x.2.next (f.world.store.answer x.2.call).1)
      { f.world with store := (f.world.store.answer x.2.call).2 }
      (some (.reply x.2.call (f.world.store.answer x.2.call).1))
    have hhear : job.rest.hear .ofStore w.remote =
        some (.reply x.2.call (f.world.store.answer x.2.call).1,
          x.2.next (f.world.store.answer x.2.call).1, (f.world.store.answer x.2.call).2) := by
      rw [hrest, h.remote]
      rfl
    refine ⟨job.number :: numbers, ?_⟩
    show Follows (goAll (w.go .ofStore job.number).2 numbers) _
    rw [go_of_hear hfound hhear, h.state]
    unfold inWorld at hgo
    rw [hgo]
    exact follows_settle id hothers hjobs'

omit hn in
theorem Follows.abandon (id : String) : w.Follows (f.abandon id).2 :=
  ⟨h.state, h.remote, ((List.eraseP_sublist.map _).subperm).trans h.jobs⟩

end

end Crowd

namespace Session

/-! ## Sessions in flight -/

/-- A flight of a session: commands are asked, go on or are given up; events and time come in
between, and the store is changed from outside. -/
inductive Flown (c : Config) (now : Instant) (store : Store) :
    Flight Session (Except SessionError Answer) → Prop
  | nothing : Flown c now store (.ofWorld ⟨start c now, store, 0⟩)
  | ask {f} : Flown c now store f → ∀ (id : String) (command : Command),
      Flown c now store (f.start id command.program).2
  | poll {f r} : Flown c now store f → ∀ id, f.poll id = some r → Flown c now store r.2
  | abandon {f} : Flown c now store f → ∀ id, Flown c now store (f.abandon id).2
  | act {f} : Flown c now store f → ∀ event : Event,
      Flown c now store (f.modifyState fun s => (s.handle event).2)
  | tick {f} : Flown c now store f → ∀ now', Flown c now store
      (f.modifyState fun s => { s with clock := now' })
  | outside {f} : Flown c now store f → ∀ change, Flown c now store (f.modifyStore change)

theorem runTurns_map_go (w : Crew Store) (numbers : List Nat) :
    runTurns .ofStore w (numbers.map .go) = w.goAll numbers := List.foldl_map

/-- **A session in flight** is one whose commands took turns. -/
theorem exists_turns_of_flown {c : Config} {now : Instant} {store : Store}
    {f : Flight Session (Except SessionError Answer)} (h : Flown c now store f) :
    ∃ turns, (runTurns .ofStore (.of (start c now) store) turns).Follows f := by
  have hn := numbered_runTurns .ofStore (numbered_of (start c now) store)
  induction h with
  | nothing => exact ⟨[], rfl, rfl, List.Subperm.refl _⟩
  | ask _ id command ih =>
    obtain ⟨turns, hf⟩ := ih
    obtain ⟨numbers, hfollows⟩ := hf.start (hn turns) id ⟨command, _⟩ command.program
    refine ⟨turns ++ .ask command :: numbers.map .go, ?_⟩
    rw [runTurns_append, runTurns_cons, runTurns_map_go]
    exact hfollows
  | poll _ id hr ih =>
    obtain ⟨turns, hf⟩ := ih
    obtain ⟨numbers, hfollows⟩ := hf.poll (hn turns) hr
    refine ⟨turns ++ numbers.map .go, ?_⟩
    rw [runTurns_append, runTurns_map_go]
    exact hfollows
  | abandon _ id ih =>
    obtain ⟨turns, hf⟩ := ih
    exact ⟨turns, hf.abandon id⟩
  | act _ event ih =>
    obtain ⟨turns, hf⟩ := ih
    refine ⟨turns ++ [.act event], ?_⟩
    rw [runTurns_append]
    exact ⟨congrArg (fun s => (Session.handle s event).2) hf.state, hf.remote, hf.jobs⟩
  | tick _ now' ih =>
    obtain ⟨turns, hf⟩ := ih
    refine ⟨turns ++ [.tick now'], ?_⟩
    rw [runTurns_append]
    exact ⟨congrArg (fun s => { s with clock := now' }) hf.state, hf.remote, hf.jobs⟩
  | outside _ change ih =>
    obtain ⟨turns, hf⟩ := ih
    refine ⟨turns ++ [.outside change], ?_⟩
    rw [runTurns_append]
    exact ⟨hf.state, congrArg change hf.remote, hf.jobs⟩

end Session

end CloudDrive
