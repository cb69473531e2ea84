import HighlightSync.Key.Text
import HighlightSync.KeySet.Basic

/-!
# Short descriptions of key sets

A key set may be far too large to be written out, so a report names only its smallest
keys and counts the others. `KeySet.summary` writes at most `limit` keys in ascending
order; when keys are left out, a closing part tells how many.
-/

namespace HighlightSync.KeySet

/-- How many keys a summary names when no other limit is asked for. -/
def defaultLimit : Nat := 8

/-- The closing part that counts the keys left out. -/
def elision (omitted : Nat) : List Char :=
  '…' :: ' ' :: '+' :: (Text.digits omitted ++ [' ', 'm', 'o', 'r', 'e'])

/-- The parts of a summary: the smallest `limit` keys, and the number of the others
if there are any. -/
def summaryParts (limit : Nat) (s : KeySet) : List (List Char) :=
  (s.toList.take limit).map Key.chars ++
    if limit < s.size then [elision (s.size - limit)] else []

/-- The description of a key set that names at most `limit` keys. -/
def summaryChars (limit : Nat) (s : KeySet) : List Char :=
  '[' :: (Text.commaList (summaryParts limit s) ++ [']'])

/-- The description of a key set that names at most `limit` keys, as a string. -/
def summary (limit : Nat) (s : KeySet) : String := String.ofList (s.summaryChars limit)

/-- All keys of a set between braces. -/
def chars (s : KeySet) : List Char :=
  '{' :: (Text.commaList (s.toList.map Key.chars) ++ ['}'])

end HighlightSync.KeySet
