import HighlightSync.Operation

/-!
# Replies

Every operation is answered by a reply. Calls of handlers and translators made from within
a cascade are answered by the same type, though only `done` and `fault` occur there, and
whoever waits for such an answer looks at its fault alone.
-/

namespace HighlightSync

/-- What there is to know about a handler. -/
structure HandlerInfo where
  id : HandlerId
  settings : Settings
  count : Nat
  listeners : Nat

/-- The description of a handler. -/
def HandlerInfo.render (i : HandlerInfo) : String :=
  "HighlightHandler \x7b id: " ++ i.id.describe ++
    ", name: " ++ i.settings.describeName ++
    ", highlighted: " ++ Text.number i.count ++
    ", listeners: " ++ Text.number i.listeners ++ " \x7d"

/-- What there is to know about a translator. -/
structure TranslatorInfo where
  source : HandlerId
  targets : List HandlerId
  hasMapper : Bool

/-- The description of a translator. -/
def TranslatorInfo.render (i : TranslatorInfo) : String :=
  "HighlightTranslator \x7b source: " ++ i.source.describe ++
    ", targets: [" ++ String.intercalate ", " (i.targets.map HandlerId.describe) ++
    "], has_mapper: " ++ (if i.hasMapper then "true" else "false") ++ " \x7d"

/-- The answer to an operation. -/
inductive Reply where
  | done
  | truth (b : Bool)
  | number (n : Nat)
  | created (id : HandlerId) (settings : Settings)
  | registered (id : ListenerId)
  | keys (ks : KeySet)
  | handler (info : HandlerInfo)
  | translator (info : TranslatorInfo)
  | fault (f : Fault)
  | refused (r : Refusal)

namespace Reply

/-- The fault that a reply reports. A refusal is none. -/
def fault? : Reply → Option Fault
  | .fault f => some f
  | _ => none

/-- The reply of a call that ends with the given fault, or well if there is none. -/
def outcome : Option Fault → Reply
  | some f => .fault f
  | none => .done

@[simp] theorem fault?_outcome (f : Option Fault) : (outcome f).fault? = f := by
  cases f <;> rfl

@[simp] theorem fault?_fault (f : Fault) : (Reply.fault f).fault? = some f := rfl

@[simp] theorem fault?_done : Reply.done.fault? = none := rfl

end Reply

end HighlightSync
