/-!
# Stores

A store holds values that are numbered from one in the order in which they were put in.
Values can be replaced but not taken out, so a number means the same value for ever.
-/

namespace HighlightSync

/-- Values numbered from one. -/
structure Store (α : Type u) where
  items : Array α

namespace Store

variable {α : Type u}

/-- The store without values. -/
def empty : Store α := ⟨#[]⟩

instance : EmptyCollection (Store α) := ⟨empty⟩

instance : Inhabited (Store α) := ⟨empty⟩

/-- How many values there are. -/
def size (s : Store α) : Nat := s.items.size

/-- The number that the next value will have. -/
def next (s : Store α) : Nat := s.size + 1

/-- The value with a number. -/
def get? (s : Store α) (n : Nat) : Option α := if n = 0 then none else s.items[n - 1]?

/-- Put a value in, under the next number. -/
def push (s : Store α) (a : α) : Store α := ⟨s.items.push a⟩

/-- Change the value with a number, if there is one. -/
def modify (s : Store α) (n : Nat) (f : α → α) : Store α :=
  if n = 0 then s else ⟨s.items.modify (n - 1) f⟩

@[simp] theorem size_empty : (∅ : Store α).size = 0 := rfl

@[simp] theorem get?_empty (n : Nat) : (∅ : Store α).get? n = none := by
  unfold get?
  split
  · rfl
  · exact Array.getElem?_eq_none (Nat.zero_le _)

@[simp] theorem size_push (s : Store α) (a : α) : (s.push a).size = s.size + 1 := by
  simp [size, push]

@[simp] theorem size_modify (s : Store α) (n : Nat) (f : α → α) :
    (s.modify n f).size = s.size := by
  unfold modify
  split <;> simp [size]

theorem get?_isSome_iff {s : Store α} {n : Nat} :
    (s.get? n).isSome = true ↔ 0 < n ∧ n ≤ s.size := by
  unfold get? size
  split
  · simp [*]
  · simp
    omega

theorem mem_of_get? {s : Store α} {n : Nat} {a : α} (h : s.get? n = some a) : a ∈ s.items := by
  unfold get? at h
  split at h
  · cases h
  · exact Array.mem_of_getElem? h

theorem get?_push (s : Store α) (a : α) (n : Nat) :
    (s.push a).get? n = if n = s.next then some a else s.get? n := by
  unfold get? push next size
  by_cases hz : n = 0
  · simp [hz]
  · rw [if_neg hz, if_neg hz, Array.getElem?_push]
    by_cases h : n = s.items.size + 1
    · simp [h]
    · rw [if_neg h, if_neg (by omega)]

theorem get?_modify (s : Store α) (m n : Nat) (f : α → α) :
    (s.modify m f).get? n = if n = m then (s.get? n).map f else s.get? n := by
  unfold get? modify
  by_cases hm : m = 0
  · by_cases hn : n = 0 <;> by_cases e : n = m <;> simp_all
  · by_cases hn : n = 0
    · subst hn
      simp
    · rw [if_neg hm]
      by_cases h : n = m
      · subst h
        simp [hn, Array.getElem?_modify]
      · have g : m - 1 ≠ n - 1 := by omega
        simp [hn, h, Array.getElem?_modify, g]

end Store

end HighlightSync
