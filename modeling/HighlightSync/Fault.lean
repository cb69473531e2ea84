import HighlightSync.Identity

/-!
# Faults and refusals

A fault is a failure that the rules of synchronization know: a listener that reports one,
a mapper that cannot answer, a cascade grown too deep, a translator offered its own source
as a target, or settings out of range. A refusal only says that an operation made no sense
in the session at hand, for instance because it names nobody; nothing happens then.
-/

namespace HighlightSync

/-- What can go wrong while handlers are changed or linked. -/
inductive Fault where
  | selfTarget (h : HandlerId)
  | mapper (message : String)
  | listener (name message : String)
  | cascadeTooDeep (limit : Nat)
  | badSettings (message : String)
  deriving DecidableEq

namespace Fault

/-- The text of a fault. -/
def message : Fault → String
  | .selfTarget h => "handler " ++ h.render ++ " cannot be a translation target of itself"
  | .mapper m => "key mapper failed: " ++ m
  | .listener name m => "listener " ++ name ++ " failed: " ++ m
  | .cascadeTooDeep limit =>
      "highlight cascade exceeded maximum depth of " ++ Text.number limit
  | .badSettings m => "invalid handler configuration: " ++ m

end Fault

/-- Why an operation of a session or a request to a table was not carried out. -/
inductive Refusal where
  | noHandler
  | noListener
  | noTranslator
  | nameTaken
  | busy
  | unknownOperation
  deriving DecidableEq

/-- The text of a refusal. -/
def Refusal.message : Refusal → String
  | .noHandler => "no handler"
  | .noListener => "no listener"
  | .noTranslator => "no translator"
  | .nameTaken => "exists"
  | .busy => "busy"
  | .unknownOperation => "unknown op"

end HighlightSync
