import CloudDrive.Session

/-!
# Events of a session

What a user does at once, without a call of the store, as values: `Session.handle` answers an event.
-/

namespace CloudDrive

/-- Something that the user does at once. -/
inductive Session.Event where
  | setOptions (options : View.Options)
  | click (index : Nat) (modifiers : Pointer.Modifiers)
  | selectAll
  | selectNames (names : List String)
  | clearSelection
  | moveFocus (delta : Int)
  | toggleFocused
  | contextSelect (name : String)
  | pointerDown (index : Nat) (point : Pointer.Point) (modifiers : Pointer.Modifiers)
  | pointerMove (point : Pointer.Point)
  | startDrag (index : Nat)
  | hover (index : Option Nat)
  | pointerUp
  | cancelDrag
  | cancelDrop
  | dismissTask (id : TaskId)
  | clearFinished
  | dismissNotice
  | reset
  deriving Inhabited

/-- What the user gets to know about an event. -/
inductive Session.EventReply where
  | nothing
  | count (n : Nat)
  | gesture (outcome : Pointer.GestureOutcome)
  | dismissed (result : Except SessionError Unit)
  deriving Inhabited

/-- The reply to an event, and the session after it. -/
def Session.handle (s : Session) : Session.Event → Session.EventReply × Session
  | .setOptions options => (.nothing, s.setOptions options)
  | .click index modifiers => (.nothing, s.click index modifiers)
  | .selectAll => (.nothing, s.selectAll)
  | .selectNames names => let (n, s) := s.selectNames names; (.count n, s)
  | .clearSelection => (.nothing, s.clearSelection)
  | .moveFocus delta => (.nothing, s.moveFocus delta)
  | .toggleFocused => (.nothing, s.toggleFocused)
  | .contextSelect name => (.nothing, s.contextSelect name)
  | .pointerDown index point modifiers => (.nothing, s.pointerDown index point modifiers)
  | .pointerMove point => let (outcome, s) := s.pointerMove point; (.gesture outcome, s)
  | .startDrag index => let (outcome, s) := s.startDrag index; (.gesture outcome, s)
  | .hover index => (.nothing, s.hover index)
  | .pointerUp => let (outcome, s) := s.pointerUp; (.gesture outcome, s)
  | .cancelDrag => (.nothing, s.cancelDrag)
  | .cancelDrop => (.nothing, s.cancelDrop)
  | .dismissTask id => let (result, s) := s.dismissTask id; (.dismissed result, s)
  | .clearFinished => let (n, s) := s.clearFinished; (.count n, s)
  | .dismissNotice => (.nothing, s.dismissNotice)
  | .reset => (.nothing, s.reset)

end CloudDrive
