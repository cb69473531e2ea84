import HighlightSync.Fault
import HighlightSync.Event
import HighlightSync.Operation

/-!
# Listeners

Three kinds of listeners are told about the changes of a handler: a view, which belongs to
a user and has a name; the source link of a translator, which passes changes on to its
targets; and the reset link of a translator, which stands on a target and passes resets
back to the source.

What a view does when it is told of an event is given by a `Behavior`. Scripts depend on
how many scripts the view has run, faults on how many events it was told. A fault that
speaks of a handler by its name means the handler of that name at the end of the callback.
-/

namespace HighlightSync

/-- Who is registered on a handler. -/
inductive Listener where
  | view (name : String)
  | sourceLink (t : TranslatorId)
  | resetLink (t : TranslatorId)
  deriving DecidableEq, Inhabited

/-- What a view does when it is told of an event. -/
structure Behavior where
  deaf : Bool
  script : Nat → Event → Option (List Op)
  propagate : Bool
  fault : Nat → Event → Option FaultSpec

/-- A view: its behavior, the number of scripts it has run and of events it was told. -/
structure ViewState where
  behavior : Behavior
  ran : Nat
  told : Nat

namespace Behavior

/-- A view that does nothing but take notice. -/
def passive : Behavior := ⟨false, fun _ _ => none, false, fun _ _ => none⟩

/-- A view that takes no notice either. -/
def unheeding : Behavior := { passive with deaf := true }

/-- The behavior that a specification asks for. -/
def ofSpec (spec : ListenerSpec Op) : Behavior :=
  if spec.deaf then unheeding
  else
    { deaf := false
      script := fun ran e => if ran < spec.times then spec.script e.change.kind else none
      propagate := spec.propagate
      fault := fun _ e => spec.fault e.change.kind }

end Behavior

end HighlightSync
