import HighlightSync.Event
import HighlightSync.Mapping.Rule
import HighlightSync.Registry.Id
import HighlightSync.Settings

/-!
# Operations

An operation is one thing that a user of handlers, listeners and translators can do, and
names its subjects by the names given to them. Three places hold operations that run
later: the scripts of listeners and of mappers, and the input of a call that takes keys.
Such input is read only when the call is under way, and reading it may act before it
yields a key.
-/

namespace HighlightSync

/-- A test on a key against the set of the handler that reads it. -/
inductive Presence where
  | present
  | absent
  deriving DecidableEq

/-- Whether a key passes the test at a set. -/
def Presence.admits : Presence → Key → KeySet → Bool
  | .present, k, s => decide (k ∈ s)
  | .absent, k, s => !decide (k ∈ s)

/-- One step of lazy input: an action of the input itself, or a key. -/
inductive Pull (α : Type) where
  | act (op : α)
  | key (k : Key)

/-- Keys that are handed over lazily: the steps that yield them, and a test that each key
has to pass at the moment when it is read. -/
structure Feed (α : Type) where
  filter : Option Presence
  pulls : List (Pull α)
  deriving Inhabited

/-- A fault in the words of a session, where handlers have names. -/
inductive FaultSpec where
  | given (f : Fault)
  | selfTarget (handler : String)

/-- How a listener behaves: for each kind of change the script it runs and the fault it
reports, how many scripts it runs at most, and whether a fault met in a script becomes its
own. A deaf listener does nothing at all. -/
structure ListenerSpec (α : Type) where
  deaf : Bool
  script : ChangeKind → Option (List α)
  times : Nat
  propagate : Bool
  fault : ChangeKind → Option FaultSpec
  deriving Inhabited

/-- How a mapper answers: from a table, or by a formula. A computed mapper may bear a
label, and runs a script at its first questions. -/
inductive MapperSpec (α : Type) where
  | table (t : KeyTable)
  | computed (f : Mapping.Formula) (label : Option String) (script : List α) (times : Nat)
  deriving Inhabited

/-- Where the answers of a mapper come from. -/
inductive MapperOrigin where
  | table
  | computed (label : Option String)
  deriving DecidableEq

/-- What is done and answered at once: no listener is told of it and no script runs. -/
inductive Action (α : Type) where
  | createHandler (name : String) (settings : Settings)
  | dropHandler (handler : String)
  | inspectHandler (handler : String)
  | contains (handler : String) (k : Key)
  | keys (handler : String)
  | depth
  | threadDepth
  | createListener (name : String) (spec : ListenerSpec α)
  | addListener (handler listener : String)
  | removeListener (handler listener : String)
  | removeListenerId (handler : String) (id : Option ListenerId)
  | removeAllListeners (handler : String)
  | createTranslator (name source : String) (mapper : Option (MapperSpec α))
  | addTarget (translator handler : String)
  | removeTarget (translator handler : String)
  | removeAllTargets (translator : String)
  | inspectTranslator (translator : String)
  | unknown (word : String)

/-- What can be done in a session: an action, or a call that may make others run before it
is answered. A translator is dropped at once too, but only when it is not at work on its
mapper. -/
inductive Op where
  | act (a : Action Op)
  | move (d : Direction) (handler : String) (feed : Feed Op)
  | reset (handler : String)
  | isHighlighted (handler : String) (feed : Feed Op)
  | swapMapper (translator : String) (mapper : Option (MapperSpec Op))
  | dropTranslator (translator : String)

instance : Inhabited Op := ⟨.act .depth⟩

end HighlightSync
