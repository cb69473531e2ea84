import HighlightSync.Text.Decimal

/-!
# Identities of handlers, translators and mappers

Each of the three is numbered from one in the order of creation, and a number is never
given twice.
-/

namespace HighlightSync

/-- The identity of a handler. -/
structure HandlerId where
  number : Nat
  deriving DecidableEq, Inhabited

/-- The identity of a translator. -/
structure TranslatorId where
  number : Nat
  deriving DecidableEq, Inhabited

/-- The identity of a mapper that was given to a translator. -/
structure MapperId where
  number : Nat
  deriving DecidableEq, Inhabited

/-- The written form of a handler: a number sign and its number. -/
def HandlerId.render (h : HandlerId) : String := "#" ++ Text.number h.number

/-- The written form of a handler inside the description of something that refers to it. -/
def HandlerId.describe (h : HandlerId) : String := "HandlerId(" ++ Text.number h.number ++ ")"

end HighlightSync
