import HighlightSync.Identity
import HighlightSync.KeySet.Basic

/-!
# Changes of a handler and the events that announce them

The keys of a handler change in three ways: some keys become highlighted, some stop being
highlighted, or all are cleared at once. `Change.apply` says what a change does to a set,
and an event carries a change together with the handler that made it.
-/

namespace HighlightSync

/-- Which way keys are moved. -/
inductive Direction where
  | highlight
  | unhighlight
  deriving DecidableEq

namespace Direction

/-- The set after moving keys in this direction. -/
def apply : Direction → KeySet → KeySet → KeySet
  | .highlight, moved, s => moved.union s
  | .unhighlight, moved, s => s.diff moved

/-- Those of the given keys that are really moved in this direction. -/
def effect : Direction → KeySet → KeySet → KeySet
  | .highlight, offered, s => offered.diff s
  | .unhighlight, offered, s => offered.inter s

@[simp] theorem mem_apply_highlight {ks s : KeySet} {k : Key} :
    k ∈ apply .highlight ks s ↔ k ∈ ks ∨ k ∈ s := KeySet.mem_union

@[simp] theorem mem_apply_unhighlight {ks s : KeySet} {k : Key} :
    k ∈ apply .unhighlight ks s ↔ k ∈ s ∧ ¬ k ∈ ks := KeySet.mem_diff

@[simp] theorem mem_effect_highlight {ks s : KeySet} {k : Key} :
    k ∈ effect .highlight ks s ↔ k ∈ ks ∧ ¬ k ∈ s := KeySet.mem_diff

@[simp] theorem mem_effect_unhighlight {ks s : KeySet} {k : Key} :
    k ∈ effect .unhighlight ks s ↔ k ∈ ks ∧ k ∈ s := KeySet.mem_inter

theorem apply_effect (d : Direction) (ks s : KeySet) :
    d.apply (d.effect ks s) s = d.apply ks s := by
  apply KeySet.ext_mem
  intro k
  cases d with
  | highlight =>
      simp only [mem_apply_highlight, mem_effect_highlight]
      by_cases hs : k ∈ s <;> simp [hs]
  | unhighlight =>
      simp only [mem_apply_unhighlight, mem_effect_unhighlight]
      by_cases hs : k ∈ s <;> simp [hs]

/-- Nothing moves exactly when the set stays as it is. -/
theorem apply_eq_self_iff {d : Direction} {ks s : KeySet} :
    d.apply ks s = s ↔ d.effect ks s = ∅ := by
  constructor
  · intro h
    rw [KeySet.eq_empty_iff]
    intro k hk
    cases d with
    | highlight =>
        rw [mem_effect_highlight] at hk
        exact hk.2 (h ▸ mem_apply_highlight.mpr (.inl hk.1))
    | unhighlight =>
        rw [mem_effect_unhighlight] at hk
        have hs := hk.2
        rw [← h, mem_apply_unhighlight] at hs
        exact hs.2 hk.1
  · intro h
    rw [← apply_effect, h]
    apply KeySet.ext_mem
    intro k
    cases d <;> simp

end Direction

/-- The kinds of changes. -/
inductive ChangeKind where
  | highlight
  | unhighlight
  | reset
  deriving DecidableEq

/-- The kind of change that moves keys in a direction. -/
def Direction.kind : Direction → ChangeKind
  | .highlight => .highlight
  | .unhighlight => .unhighlight

/-- A change of the keys of one handler. -/
inductive Change where
  | move (d : Direction) (keys : KeySet)
  | reset
  deriving DecidableEq

namespace Change

/-- The kind of a change. -/
def kind : Change → ChangeKind
  | .move d _ => d.kind
  | .reset => .reset

/-- The set after a change. -/
def apply : Change → KeySet → KeySet
  | .move d keys, s => d.apply keys s
  | .reset, _ => ∅

/-- The set after a row of changes that starts from the empty set. -/
def replay (changes : List Change) : KeySet := changes.foldl (fun s c => c.apply s) ∅

@[simp] theorem replay_nil : replay [] = ∅ := rfl

@[simp] theorem replay_concat (changes : List Change) (c : Change) :
    replay (changes ++ [c]) = c.apply (replay changes) := by
  simp [replay]

end Change

/-- What the listeners of a handler are told. -/
structure Event where
  source : HandlerId
  change : Change
  deriving DecidableEq

end HighlightSync
