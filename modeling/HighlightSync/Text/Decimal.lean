/-!
# Numbers in decimal

`digits` is the decimal form of a natural number, without leading zeros, and `decimal`
that of an integer. `readDigits?` reads any nonempty row of decimal digits, leading zeros
included; it gives back every number from its decimal form.
-/

namespace HighlightSync.Text

/-- A natural number in decimal. -/
def digits (n : Nat) : List Char := Nat.toDigits 10 n

/-- An integer in decimal, with a minus sign when it is negative. -/
def decimal : Int → List Char
  | .ofNat n => digits n
  | .negSucc n => '-' :: digits (n + 1)

/-- A natural number in decimal, as a string. -/
def number (n : Nat) : String := String.ofList (digits n)

/-- The number that a nonempty row of decimal digits stands for. -/
def readDigits? (cs : List Char) : Option Nat :=
  if cs ≠ [] ∧ cs.all Char.isDigit then some (Nat.ofDigitChars 10 cs 0) else none

theorem digits_ne_nil (n : Nat) : digits n ≠ [] := Nat.toDigits_ne_nil

theorem isDigit_of_mem_digits {n : Nat} {c : Char} (h : c ∈ digits n) : c.isDigit = true :=
  Nat.isDigit_of_mem_toDigits (by decide) (by decide) h

@[simp] theorem readDigits?_digits (n : Nat) : readDigits? (digits n) = some n := by
  have all : (digits n).all Char.isDigit = true :=
    List.all_eq_true.mpr fun c hc => isDigit_of_mem_digits hc
  rw [readDigits?, if_pos ⟨digits_ne_nil n, all⟩]
  exact congrArg some Nat.ofDigitChars_ten_toDigits

theorem digits_injective {m n : Nat} (h : digits m = digits n) : m = n := by
  have read := congrArg readDigits? h
  simpa using read

end HighlightSync.Text
