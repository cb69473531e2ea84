import HighlightSync.Key.Basic
import HighlightSync.Text.Quoted

/-!
# The written form of a key

An integer is written in decimal, a text in double quotes, and a list in square
brackets with its keys separated by a comma and a blank.
-/

namespace HighlightSync.Key

mutual

/-- The written form of a key. -/
def chars : Key → List Char
  | .int n => Text.decimal n
  | .text s => Text.quoted s
  | .list ks => '[' :: (Text.commaList (charsEach ks) ++ [']'])
termination_by structural k => k

/-- The written forms of several keys. -/
def charsEach : List Key → List (List Char)
  | [] => []
  | k :: ks => chars k :: charsEach ks
termination_by structural ks => ks

end

theorem charsEach_eq_map : ∀ ks : List Key, charsEach ks = ks.map chars
  | [] => rfl
  | k :: ks => by simp [charsEach, charsEach_eq_map ks]

theorem chars_list (ks : List Key) :
    chars (.list ks) = '[' :: (Text.commaList (ks.map chars) ++ [']']) := by
  simp [chars, charsEach_eq_map]

/-- The written form of a key as a string. -/
def render (k : Key) : String := String.ofList k.chars

end HighlightSync.Key
