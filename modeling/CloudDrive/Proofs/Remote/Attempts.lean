import CloudDrive.Proofs.Crowd
import Mathlib.Data.Nat.Find

/-!
# Attempts at a listing

A listing is asked for again and again, of a port that replies as it likes. The loop is looked at by
the number of the attempt, which is a 32-bit number and is stepped up from attempt to attempt.

* `attemptAt_eq`: one attempt. Its reply ends the loop (`EndsWith`), or the loop waits and goes on.
* `attemptAt_runs`: so many attempts whose replies do not end the loop, and one whose reply does.
* `list_ends`: the whole loop.
-/

namespace CloudDrive

open Remote (Call Failure)

variable {σ τ α : Type}

/-! ## Replies -/

namespace Port

variable (port : Port τ) (path : String)

/-- The port once it has been asked for the listing so many times. -/
def afterLists (t : τ) : Nat → τ
  | 0 => t
  | count + 1 => afterLists (port.answer t (.list path)).2 count

/-- What it replies when it is asked once more. -/
def listing (t : τ) (count : Nat) : Except Failure Listing :=
  (port.answer (port.afterLists path t count) (.list path)).1

end Port

/-- Is nothing asked any more after this reply to the attempt of this number? It brings the listing,
or a failure that is not worth another try, or it was the last attempt. -/
def RetryPolicy.EndsWith (policy : RetryPolicy) (number : Nat) : Except Failure Listing → Prop
  | .ok _ => True
  | .error f => f.isRetryable = false ∨ policy.maxAttempts.toNat ≤ number

instance (policy : RetryPolicy) (number : Nat) :
    (r : Except Failure Listing) → Decidable (policy.EndsWith number r)
  | .ok _ => isTrue trivial
  | .error _ => inferInstanceAs (Decidable (_ ∨ _))

theorem RetryPolicy.lt_of_not_endsWith {policy : RetryPolicy} {number : Nat}
    {r : Except Failure Listing} (h : ¬ policy.EndsWith number r) :
    number < policy.maxAttempts.toNat := by
  cases r with
  | ok listing => exact absurd trivial h
  | error f => exact Nat.lt_of_not_le (not_or.1 h).2

/-! ## The loop -/

/-- What is left of a program when it has heard so much on a port. -/
def Program.restOn (port : Port τ) : Program σ α → σ → τ → Nat → Program σ α
  | .get next, s, t, count => (next s).restOn port s t count
  | .put s next, _, t, count => next.restOn port s t count
  | .call c next, s, t, count + 1 =>
    (next (port.answer t c).1).restOn port s (port.answer t c).2 count
  | .sleep _ next, s, t, count + 1 => next.restOn port s t count
  | p, _, _, _ => p

namespace Remote

variable (path : String) (policy : RetryPolicy)

/-- The loop at the attempt of this number. -/
def attemptAt (number : UInt32) : Program σ (Except Failure Listing) :=
  listFrom path policy number (policy.maxAttempts.toNat - number.toNat)

theorem list_eq : (list path policy : Program σ _) = attemptAt path policy 1 := rfl

/-- **One attempt** of the loop. -/
theorem attemptAt_eq {number : Nat} (hnumber : number < UInt32.size) :
    (attemptAt path policy (.ofNat number) : Program σ _) =
      .call (.list path) fun r =>
        if policy.EndsWith number r then .done r
        else .sleep (policy.delayAfter (.ofNat number))
          (attemptAt path policy (.ofNat (number + 1))) := by
  have hself : (UInt32.ofNat number).toNat = number := UInt32.toNat_ofNat_of_lt' hnumber
  unfold attemptAt
  rw [hself]
  cases hleft : policy.maxAttempts.toNat - number with
  | zero =>
    refine congrArg (Program.call _) (funext fun r => (if_pos ?_).symm)
    cases r with
    | ok listing => trivial
    | error f => exact .inr (Nat.le_of_sub_eq_zero hleft)
  | succ left =>
    have hlt : number + 1 ≤ policy.maxAttempts.toNat := by omega
    have hnext : (UInt32.ofNat (number + 1)).toNat = number + 1 :=
      UInt32.toNat_ofNat_of_lt' (Nat.lt_of_le_of_lt hlt policy.maxAttempts.toNat_lt)
    have hadd : UInt32.ofNat (number + 1) = UInt32.ofNat number + 1 := UInt32.ofNat_add number 1
    have hstep : policy.maxAttempts.toNat - (number + 1) = left := by omega
    rw [listFrom, hnext, hstep, hadd]
    refine congrArg (Program.call _) (funext fun r => ?_)
    cases r with
    | ok listing => rfl
    | error f =>
      have hends : policy.EndsWith number (.error f) ↔ ¬ f.isRetryable = true := by
        simp only [RetryPolicy.EndsWith, Bool.not_eq_true, or_iff_left_iff_imp]
        exact fun hle => absurd hle (Nat.not_le_of_lt hlt)
      rw [ite_cond_congr (propext hends), ite_not]

section
variable (port : Port τ) (s : σ)

/-- **So many attempts** whose replies do not end the loop, and then one whose reply does. -/
theorem attemptAt_runs {count : Nat} : ∀ {number : Nat} {t : τ}, number < UInt32.size →
    (∀ i < count, ¬ policy.EndsWith (number + i) (port.listing path t i)) →
    policy.EndsWith (number + count) (port.listing path t count) →
      let loop : Program σ _ := attemptAt path policy (.ofNat number)
      loop.runOn port s t = (port.listing path t count, s, port.afterLists path t (count + 1)) ∧
        loop.heardOn port s t =
          (List.range count).flatMap (fun i =>
            [.reply (.list path) (port.listing path t i),
              .waited (policy.delayAfter (.ofNat (number + i)))]) ++
            [.reply (.list path) (port.listing path t count)] ∧
        ∀ i ≤ count, (UInt32.ofNat (number + i)).toNat = number + i ∧
          loop.restOn port s t (2 * i) = attemptAt path policy (.ofNat (number + i)) := by
  induction count with
  | zero =>
    intro number t hnumber _ hends loop
    have hends : policy.EndsWith number (port.answer t (.list path)).1 := hends
    have hloop : loop = _ := attemptAt_eq path policy hnumber
    refine ⟨?_, ?_, fun i hi => ?_⟩
    · rw [hloop, Program.runOn, if_pos hends]
      rfl
    · rw [hloop, Program.heardOn, if_pos hends]
      rfl
    · obtain rfl := Nat.le_zero.1 hi
      refine ⟨UInt32.toNat_ofNat_of_lt' hnumber, ?_⟩
      rw [hloop]
      exact hloop.symm
  | succ count ih =>
    intro number t hnumber hgo hends loop
    have hwaits : ¬ policy.EndsWith number (port.answer t (.list path)).1 :=
      hgo 0 (Nat.succ_pos count)
    have hnext : number + 1 < UInt32.size :=
      Nat.lt_of_le_of_lt (RetryPolicy.lt_of_not_endsWith hwaits) policy.maxAttempts.toNat_lt
    have hadd : ∀ i, number + 1 + i = number + (i + 1) := fun i => by omega
    have hloop : loop = _ := attemptAt_eq path policy hnumber
    obtain ⟨hrun, hheard, hrest⟩ := ih (t := (port.answer t (.list path)).2) hnext
      (fun i hi => by rw [hadd]; exact hgo (i + 1) (Nat.succ_lt_succ hi))
      (by rw [hadd]; exact hends)
    refine ⟨?_, ?_, fun i hi => ?_⟩
    · rw [hloop, Program.runOn, if_neg hwaits]
      exact hrun
    · rw [hloop, Program.heardOn, if_neg hwaits, Program.heardOn, hheard, List.range_succ_eq_map,
        List.flatMap_cons, List.flatMap_map]
      simp only [hadd]
      rfl
    · cases i with
      | zero =>
        refine ⟨UInt32.toNat_ofNat_of_lt' hnumber, ?_⟩
        rw [hloop]
        exact hloop.symm
      | succ i =>
        obtain ⟨hnat, hrest⟩ := hrest i (Nat.le_of_succ_le_succ hi)
        rw [hadd] at hnat hrest
        refine ⟨hnat, ?_⟩
        rw [hloop, Nat.mul_succ, Program.restOn, if_neg hwaits]
        exact hrest

/-- **The loop ends.** Whatever the port replies, the listing is asked for exactly `count` times,
where `count` is the first number of an attempt whose reply ends the loop, and that reply is the
result. After each attempt but the last it waits for as long as the policy says, and at no attempt
has the number run over. -/
theorem list_ends (t : τ) :
    ∃ count, (1 ≤ count ∧ policy.EndsWith count (port.listing path t (count - 1)) ∧
        ∀ i, 1 ≤ i → i < count → ¬ policy.EndsWith i (port.listing path t (i - 1))) ∧
      (list path policy : Program σ _).runOn port s t =
        (port.listing path t (count - 1), s, port.afterLists path t count) ∧
      (list path policy : Program σ _).heardOn port s t =
        (List.range (count - 1)).flatMap (fun i =>
          [.reply (.list path) (port.listing path t i),
            .waited (policy.delayAfter (.ofNat (i + 1)))]) ++
          [.reply (.list path) (port.listing path t (count - 1))] ∧
      ∀ i < count, (UInt32.ofNat (i + 1)).toNat = i + 1 ∧
        (list path policy : Program σ _).restOn port s t (2 * i) =
          attemptAt path policy (.ofNat (i + 1)) := by
  have hex : ∃ n, policy.EndsWith (1 + n) (port.listing path t n) := by
    refine ⟨policy.maxAttempts.toNat, ?_⟩
    cases port.listing path t policy.maxAttempts.toNat with
    | ok listing => trivial
    | error f => exact .inr (Nat.le_add_left _ _)
  obtain ⟨n, hends, hgo⟩ : ∃ n, policy.EndsWith (1 + n) (port.listing path t n) ∧
      ∀ i < n, ¬ policy.EndsWith (1 + i) (port.listing path t i) :=
    ⟨Nat.find hex, Nat.find_spec hex, fun _ => Nat.find_min hex⟩
  have hone : (1 : Nat) < UInt32.size := by decide
  obtain ⟨hrun, hheard, hrest⟩ := attemptAt_runs path policy port s hone hgo hends
  simp only [Nat.add_comm 1] at hends hheard hrest
  rw [list_eq]
  refine ⟨n + 1, ⟨Nat.succ_pos n, hends, fun i hi hlt => ?_⟩, hrun, hheard, fun i hi => ?_⟩
  · have hi' := hgo (i - 1) (by omega)
    rwa [Nat.add_sub_cancel' hi] at hi'
  · exact hrest i (Nat.le_of_lt_succ hi)

end

/-- A port that wants fewer calls twice, and then lists; it counts the listings. -/
def busyTwice : Port Nat where
  answer
    | asked, .list path =>
      (if asked < 2 then .error ⟨.rateLimited, "slow down"⟩ else .ok (.ofEntries path []),
        asked + 1)
    | asked, _ => (.error ⟨.server, "only lists"⟩, asked)

example : ((list "/" ⟨5, 100, 300⟩ : Program Unit _).runOn busyTwice () 0).2.2 = 3 ∧
    ((list "/" ⟨2, 100, 300⟩ : Program Unit _).runOn busyTwice () 0).2.2 = 2 ∧
    ((list "/" ⟨0, 100, 300⟩ : Program Unit _).runOn busyTwice () 0).2.2 = 1 := ⟨rfl, rfl, rfl⟩

end Remote

end CloudDrive
