import HighlightSync.KeyTable.Basic

/-!
# Answers of mappers and rules that compute them

Asked for a coarse key, a mapper fails with a message, has no mapping, or gives a set of
fine keys. Beside tables there are rules that compute the answer from the key. Integer
keys are 64-bit words; a rule whose arithmetic leaves that range fails, and a rule of
arithmetic has no mapping for keys that are not integers.
-/

namespace HighlightSync

/-- What a mapper says about a key: a failure with its message, no mapping, or fine keys. -/
abbrev Answer := Except String (Option KeySet)

namespace Mapping

/-- Whether an integer is a signed 64-bit word. -/
def isWord (n : Int) : Bool := Int64.minValue.toInt ≤ n && n ≤ Int64.maxValue.toInt

/-- The message of arithmetic that leaves the words. -/
def overflow : String := "overflow"

/-- The integers from `first` on, `count` of them, as keys. -/
def consecutive (first : Int) (count : Nat) : KeySet :=
  ⟨(List.range count).map fun (i : Nat) => Key.int (first + i), by
    rw [List.pairwise_map]
    refine List.pairwise_lt_range.imp fun h => ?_
    rw [Key.lt_iff_compare, Key.compare_eq_cmp, Key.cmp, Int.compare_eq_lt]
    omega⟩

/-- How fine keys are computed from a coarse key. -/
inductive Rule where
  | identity
  | empty
  | unmapped
  | const (fine : KeySet)
  | tag (label : Key)
  | add (n : Int)
  | bucket (n : Int)
  | div (n : Int)
  | keepMod (n r : Int)

/-- The answer that a rule of arithmetic gives for an integer. -/
def onInt (k : Key) (f : Int → Answer) : Answer :=
  match k with
  | .int i => f i
  | _ => .ok none

/-- The answer of a rule. A bucket holds `n` consecutive integers, the division is the one
with a remainder that is never negative, and `keepMod` keeps the keys with remainder `r`. -/
def Rule.answer : Rule → Key → Answer
  | .identity, k => .ok (some (.singleton k))
  | .empty, _ => .ok (some ∅)
  | .unmapped, _ => .ok none
  | .const fine, _ => .ok (some fine)
  | .tag label, k => .ok (some (.singleton (.list [label, k])))
  | .add n, k => onInt k fun i =>
      if isWord (i + n) then .ok (some (.singleton (.int (i + n)))) else .error overflow
  | .bucket n, k => onInt k fun i =>
      if isWord (i * n) && isWord (i * n + n) then .ok (some (consecutive (i * n) n.toNat))
      else .error overflow
  | .div n, k => onInt k fun i =>
      if n ≠ 0 && isWord (i / n) then .ok (some (.singleton (.int (i / n)))) else .error overflow
  | .keepMod n r, k => onInt k fun i =>
      if n ≠ 0 && i % n = r then .ok (some (.singleton k)) else .ok none

/-- A rule with keys on which it fails. -/
structure Formula where
  rule : Rule
  failOn : List Key
  message : String

/-- The answer of a formula: the failure comes first. -/
def Formula.answer (f : Formula) (k : Key) : Answer :=
  if k ∈ f.failOn then .error f.message else f.rule.answer k

/-- The description of a formula, which shows nothing of how it computes. -/
def Formula.render (_ : Formula) : String := "FnKeyMapper \x7b .. \x7d"

end Mapping

/-- The answer of a table, which never fails. -/
def KeyTable.answer (t : KeyTable) (k : Key) : HighlightSync.Answer := .ok (t.find? k)

end HighlightSync
