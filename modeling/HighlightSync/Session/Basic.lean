import HighlightSync.Machine.Run
import Std.Data.HashMap

/-!
# Sessions

A session performs operations one after the other, each in the world that the one before
has left, and reports for each its reply, what was observed while it ran, and how the
handlers and translators with a name look afterwards, so far as they look different.
-/

namespace HighlightSync

/-- How a handler or translator looks from outside. -/
inductive Appearance where
  | handler (keys : KeySet) (listeners : Nat)
  | translator (targets : List HandlerId) (hasMapper : Bool)
  deriving DecidableEq

/-- How something looks, if it is there. -/
def World.appearance? (w : World) : Subject → Option Appearance
  | .handler h => (w.handler? h).map fun s => .handler s.keys s.registry.size
  | .translator t => (w.translator? t).map fun s => .translator s.targetHandlers s.mapper.isSome

/-- How everything with a name looks. -/
def World.appearances (w : World) : List (String × Appearance) :=
  w.names.filterMap fun n => (w.appearance? n.2).map fun a => (n.1, a)

/-- The names whose appearance differs, with the new one; `none` for a name that is gone. -/
def appearanceChanges (before after : List (String × Appearance)) :
    List (String × Option Appearance) :=
  let old := Std.HashMap.ofList before
  let new := Std.HashMap.ofList after
  (before.filterMap fun b => if new.contains b.1 then none else some (b.1, none)) ++
    after.filterMap fun a => if old[a.1]? = some a.2 then none else some (a.1, some a.2)

namespace Session

/-- Perform one operation to its end. -/
def perform (fuel : Nat) (op : Op) (w : World) : Option (Reply × World) :=
  match (Config.perform op w []).run fuel with
  | some c => some (c.reply.getD .done, c.world)
  | none => none

/-- What is reported of one operation. -/
structure Report where
  reply : Reply
  records : List Record
  changes : List (String × Option Appearance)

/-- The report of an operation, from how everything with a name looked before, how many
records there were, and what came of it. -/
def reportAfter (detail : Detail) (before : List (String × Appearance)) (start : Nat) :
    Option (Reply × World) → Option (Report × World)
  | none => none
  | some (reply, w) =>
      let records := (w.journal.extract start w.journal.size).toList.filter (·.isShown detail)
      some (⟨reply, records, appearanceChanges before w.appearances⟩, w)

/-- Perform one operation and report it in the given detail. -/
def reportOne (fuel : Nat) (detail : Detail) (op : Op) (w : World) : Option (Report × World) :=
  reportAfter detail w.appearances w.journal.size (perform fuel op w)

/-- Perform operations in order and report each of them. There is no report when one of
them does not end within the fuel. -/
def report (fuel : Nat) (detail : Detail) : List Op → World → Option (List Report)
  | [], _ => some []
  | op :: ops, w =>
      match reportOne fuel detail op w with
      | none => none
      | some (r, v) => (report fuel detail ops v).map (r :: ·)

end Session

end HighlightSync
