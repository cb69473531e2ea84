import HighlightSync.Text.Decimal
import HighlightSync.Text.Printable

/-!
# Quoted texts and lists in plain characters

The written form of a value is a list of characters. Texts stand in double quotes, with
`escape` applied to each character, and the parts of a list are joined by a comma and a
blank.
-/

namespace HighlightSync.Text

/-- The code point of a character in lower-case hexadecimal, between braces. -/
def codePoint (c : Char) : List Char :=
  '\\' :: 'u' :: '{' :: (Nat.toDigits 16 c.toNat ++ ['}'])

/-- A character inside double quotes. The quote and the backslash are marked by a
backslash, four controls have a letter or digit of their own, and any other character
that cannot be shown is written by its code point. -/
def escape (c : Char) : List Char :=
  if c = '"' then ['\\', '"']
  else if c = '\\' then ['\\', '\\']
  else if c = '\n' then ['\\', 'n']
  else if c = '\r' then ['\\', 'r']
  else if c = '\t' then ['\\', 't']
  else if c = '\x00' then ['\\', '0']
  else if isPrintable c then [c]
  else codePoint c

/-- A text in double quotes. -/
def quoted (s : String) : List Char :=
  '"' :: (s.toList.flatMap escape ++ ['"'])

/-- Parts joined by a comma and a blank. -/
def commaList : List (List Char) → List Char
  | [] => []
  | [p] => p
  | p :: q :: ps => p ++ ',' :: ' ' :: commaList (q :: ps)

@[simp] theorem commaList_nil : commaList [] = [] := rfl

@[simp] theorem commaList_singleton (p : List Char) : commaList [p] = p := rfl

@[simp] theorem commaList_cons_cons (p q : List Char) (ps : List (List Char)) :
    commaList (p :: q :: ps) = p ++ ',' :: ' ' :: commaList (q :: ps) := rfl

end HighlightSync.Text
