import HighlightSync.Journal.Note
import HighlightSync.Listener
import HighlightSync.Operation.Reply

/-!
# The journal of a session

Everything that can be observed while operations run is written into one journal in order
of time: the beginning of every callback, every key read and every question to a mapper,
each with the cascade depth at that moment; every operation of a script with its reply;
and the notes and spans of handlers and translators.

The journal is complete. How much of it is shown depends on the detail asked for, and is
decided by `Record.isShown`; nothing that runs ever looks at it.
-/

namespace HighlightSync

/-- An observation. -/
inductive Record where
  | callback (listener : Listener) (e : Event) (depth : Nat) (heeded : Bool)
  | keyRead (h : HandlerId) (k : Key) (depth : Nat)
  | question (m : MapperId) (origin : MapperOrigin) (k : Key) (depth : Nat)
  | performed (op : Op) (reply : Reply)
  | note (n : Note)
  | enter (s : Span)
  | exit (s : Span)

/-- How much of the notes and spans is shown. -/
inductive Detail where
  | quiet
  | warn
  | debug
  | trace
  deriving DecidableEq

namespace Detail

/-- Whether notes of a level are shown. -/
def shows : Detail → Level → Bool
  | .quiet, _ => false
  | .warn, l => l = .warn
  | .debug, l => l ≠ .trace
  | .trace, _ => true

end Detail

namespace Record

/-- Whether a record is shown. Callbacks are shown if they are those of a view that takes
notice, questions if they were put to a computed mapper, spans only in full detail. -/
def isShown (d : Detail) : Record → Bool
  | .callback (.view _) _ _ heeded => heeded
  | .callback .. => false
  | .keyRead .. => false
  | .question _ origin _ _ => decide (origin ≠ .table)
  | .performed .. => true
  | .note n => d.shows n.level
  | .enter _ | .exit _ => d = .trace

end Record

end HighlightSync
