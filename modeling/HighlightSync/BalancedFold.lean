/-!
# Balanced folds

`Balanced.fold op unit xs` combines many values into one like a fold from the left, but pairs
values that stand for equally many items. Where the cost of `op` grows with its operands,
this takes far less work than to add the items one by one to a growing total. For an
associative operation with a neutral element both folds agree (`Balanced.fold_eq_foldl`).

The values in progress are kept in places, like the digits of a binary number: the place
with number `n` is free or holds the total of `2 ^ n` items, those of higher places came
earlier, and one more item is carried up to the first free place.
-/

namespace HighlightSync.Balanced

variable {β : Type u}

/-- Carry a value up to the first free place. -/
@[specialize] def carry (op : β → β → β) (b : β) : List (Option β) → List (Option β)
  | [] => [some b]
  | none :: places => some b :: places
  | some a :: places => none :: carry op (op a b) places

/-- Combine the values in places with one that came later than all of them. -/
@[specialize] def totalWith (op : β → β → β) (b : β) : List (Option β) → β
  | [] => b
  | none :: places => totalWith op b places
  | some a :: places => totalWith op (op a b) places

/-- Combine values from the left in a balanced way. -/
@[inline] def fold (op : β → β → β) (unit : β) (xs : List β) : β :=
  totalWith op unit (xs.foldl (fun places x => carry op x places) [])

variable {op : β → β → β} {unit : β}

theorem totalWith_carry (neutral : ∀ a, op a unit = a) : ∀ (places : List (Option β)) (b : β),
    totalWith op unit (carry op b places) = totalWith op b places
  | [], b => by simp [carry, totalWith, neutral]
  | none :: places, b => by simp [carry, totalWith, neutral]
  | some a :: places, b => by simp [carry, totalWith, totalWith_carry neutral places]

theorem totalWith_op (assoc : ∀ a b c, op (op a b) c = op a (op b c)) :
    ∀ (places : List (Option β)) (b c : β),
      totalWith op (op b c) places = op (totalWith op b places) c
  | [], _, _ => rfl
  | none :: places, b, c => totalWith_op assoc places b c
  | some a :: places, b, c => by
      rw [totalWith, totalWith, ← assoc, totalWith_op assoc places]

/-- A balanced fold gives what a fold from the left gives. -/
theorem fold_eq_foldl (assoc : ∀ a b c, op (op a b) c = op a (op b c))
    (neutral : ∀ a, op a unit = a) (start : ∀ a, op unit a = a) (xs : List β) :
    fold op unit xs = xs.foldl op unit := by
  suffices h : ∀ (xs : List β) (places : List (Option β)),
      totalWith op unit (xs.foldl (fun places x => carry op x places) places) =
        xs.foldl op (totalWith op unit places) from h xs []
  intro xs
  induction xs with
  | nil => exact fun _ => rfl
  | cons x xs ih =>
      intro places
      rw [List.foldl_cons, List.foldl_cons, ih, totalWith_carry neutral, ← totalWith_op assoc,
        start]

end HighlightSync.Balanced
