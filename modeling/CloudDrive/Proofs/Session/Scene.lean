import CloudDrive.Proofs.Session.Changes
import CloudDrive.Proofs.Session.Turns

/-!
# What commands leave alone

Where the user is, how the directory is shown, what the pointer does and which directories were
visited: a command can change that when it is checked, and never later (`SameScene`). So it follows
from what was asked, and not from what the calls are answered or when.

* `heeds_scene`: what a command does after its check.
* `scene_ask`, `scene_go`: the turns of commands.
-/

namespace CloudDrive.Session

variable {τ : Type}

/-- Only what commands bring after their check may differ: selection, focus, cache, ledger and
notice, and what loads say of themselves. -/
def SameScene (s s' : Session) : Prop :=
  s' = { s with
    selection := s'.selection
    focused := s'.focused
    loading := s'.loading
    loadError := s'.loadError
    cache := s'.cache
    ledger := s'.ledger
    notice := s'.notice
    generation := s'.generation }

theorem SameScene.refl (s : Session) : SameScene s s := rfl

theorem SameScene.trans {s₁ s₂ s₃ : Session} (h : SameScene s₁ s₂) (h' : SameScene s₂ s₃) :
    SameScene s₁ s₃ := by
  unfold SameScene at *
  rw [h', h]

theorem SameView.sameScene {s s' : Session} (h : SameView s s') : SameScene s s' := by
  unfold SameView at h
  rw [h]
  rfl

/-- Changes that leave the scene alone. -/
def sceneRules : Rules Session Standing := ⟨fun _ s s' _ => SameScene s s', fun _ => True⟩

theorem sameScene_loaded (generation : Nat) (listing : Listing) (s : Session) :
    SameScene s (loaded generation listing s) := by
  unfold loaded
  simp only
  split <;> rfl

theorem sameScene_loadFailed (generation : Nat) (path : String) (f : Remote.Failure) (s : Session) :
    SameScene s (loadFailed generation path f s) := by
  unfold loadFailed
  split <;> rfl

/-- **After its check** a command leaves the scene alone. -/
theorem heeds_scene (request : Request) (s : Session) :
    request.program.Heeds sceneRules (fun _ _ => True) request.standing s := by
  cases request with
  | load path =>
    have hbegins (s : Session) : sceneRules.allows .loading s s.beginLoad.2 .loading := rfl
    simp only [Request.program, load, fetch, bind_assoc]
    refine Program.heeds_modifyGet_bind hbegins (fun generation s => ?_) s
    refine Program.heeds_get_bind (fun s s' => ?_) s
    refine (Remote.quiet_list path s.config.readRetry).heeds_bind trivial (fun r s => ?_) s'
    cases r with
    | ok listing => exact ⟨.loading, sameScene_loaded generation listing s, trivial⟩
    | error f => exact ⟨.loading, sameScene_loadFailed generation path f s, trivial⟩
  | _ =>
    exact (heeds_request (fun _ => Request.noConfusion) s).mono (fun _ _ _ _ h => h.1.sameScene)
      (fun _ _ => trivial) fun _ _ _ => trivial

/-- What a command does after its check. -/
def followUp : Except SessionError Request → Program Session (Except SessionError Answer)
  | .error e => return .error e
  | .ok request => request.program

theorem heeds_scene_followUp (checked : Except SessionError Request) (s : Session) :
    ∃ k, (followUp checked).Heeds sceneRules (fun _ _ => True) k s := by
  cases checked with
  | error e => exact ⟨.fresh, trivial⟩
  | ok request => exact ⟨_, heeds_scene request s⟩

/-! ## Turns -/

/-- A command that is asked changes the session as its check does; what it does after the check
keeps to what the rules keep to. -/
theorem heeding_ask {rules : Rules Session Standing} {R : Session → Session → Prop}
    (hrefl : ∀ s, R s s) (htrans : ∀ s₁ s₂ s₃, R s₁ s₂ → R s₂ s₃ → R s₁ s₃)
    (hallows : ∀ k s s' k', rules.allows k s s' k' → R s s') (service : Service τ) {w : Crew τ}
    (hw : w.Heeding rules) (command : Command) {k : Standing}
    (hk : (followUp (accept command w.state).1).Heeds rules (fun _ _ => True) k
      (accept command w.state).2) :
    R (accept command w.state).2 ((Turn.ask command).run service w).2.state ∧
      ((Turn.ask command).run service w).2.Heeding rules :=
  Crowd.Heeding.resume
    (w := { w with state := (accept command w.state).2, begun := w.begun + 1 }) hrefl htrans hallows
    service hw ⟨w.begun, ⟨command, w.state⟩, none, followUp (accept command w.state).1⟩ hk

section
variable (service : Service τ) {w : Crew τ} (hw : w.Heeding sceneRules)
include hw

theorem scene_go (number : Nat) :
    SameScene w.state (w.go service number).2.state ∧ (w.go service number).2.Heeding sceneRules :=
  hw.go .refl (fun _ _ _ => .trans) (fun _ _ _ _ h => h) service number

theorem scene_ask (command : Command) :
    SameScene (accept command w.state).2 ((Turn.ask command).run service w).2.state ∧
      ((Turn.ask command).run service w).2.Heeding sceneRules := by
  obtain ⟨k, hk⟩ := heeds_scene_followUp (accept command w.state).1 (accept command w.state).2
  exact heeding_ask .refl (fun _ _ _ => .trans) (fun _ _ _ _ h => h) service hw command hk

end

end CloudDrive.Session
