import HighlightSync.Event

/-!
# The algebra of changes

A change is proper for a set when it really changes every key it names, and in force on a
set when the set looks as the change left it. Applying a change puts it in force. Two
changes of the same kind commute, and neither undoes the other, so a row of changes of one
kind may be replayed in any order.
-/

namespace HighlightSync

namespace Direction

/-- Whether a key is where keys moved in this direction go. -/
def Settled : Direction → KeySet → Key → Prop
  | .highlight, s, k => k ∈ s
  | .unhighlight, s, k => ¬ k ∈ s

variable {d : Direction} {ks s : KeySet} {k : Key}

theorem settled_apply : d.Settled (d.apply ks s) k ↔ k ∈ ks ∨ d.Settled s k := by
  cases d with
  | highlight => exact mem_apply_highlight
  | unhighlight =>
      simp only [Settled, mem_apply_unhighlight]
      by_cases h : k ∈ ks <;> simp [h]

theorem mem_effect : k ∈ d.effect ks s ↔ k ∈ ks ∧ ¬ d.Settled s k := by
  cases d with
  | highlight => exact mem_effect_highlight
  | unhighlight => simp [Settled]

theorem ext_settled {s t : KeySet} (h : ∀ k, d.Settled s k ↔ d.Settled t k) : s = t := by
  apply KeySet.ext_mem
  intro k
  cases d with
  | highlight => exact h k
  | unhighlight => exact Decidable.not_iff_not.mp (h k)

end Direction

namespace Change

/-- Whether a change names something, and only keys that it really changes. -/
def Proper : Change → KeySet → Prop
  | .move d keys, s => keys ≠ ∅ ∧ ∀ k ∈ keys, ¬ d.Settled s k
  | .reset, s => s ≠ ∅

/-- Whether a set is as a change leaves it, for all that the change says. -/
def InForce : Change → KeySet → Prop
  | .move d keys, s => ∀ k ∈ keys, d.Settled s k
  | .reset, s => s = ∅

variable {c c' : Change} {s : KeySet}

theorem inForce_apply (c : Change) (s : KeySet) : c.InForce (c.apply s) := by
  cases c with
  | move d keys => exact fun k hk => Direction.settled_apply.mpr (.inl hk)
  | reset => rfl

theorem Proper.apply_ne (h : c.Proper s) : c.apply s ≠ s := by
  intro same
  have inForce := inForce_apply c s
  rw [same] at inForce
  cases c with
  | reset => exact h inForce
  | move d keys =>
      obtain ⟨k, mem⟩ := KeySet.exists_mem h.1
      exact h.2 k mem (inForce k mem)

theorem cases_of_kind_eq (h : c.kind = c'.kind) :
    (c = .reset ∧ c' = .reset) ∨ ∃ d ks ks', c = .move d ks ∧ c' = .move d ks' := by
  cases c with
  | reset =>
      cases c' with
      | reset => exact .inl ⟨rfl, rfl⟩
      | move e ks' => cases e <;> simp [kind, Direction.kind] at h
  | move d ks =>
      cases c' with
      | reset => cases d <;> simp [kind, Direction.kind] at h
      | move e ks' =>
          have same : d = e := by
            cases d <;> cases e <;> simp [kind, Direction.kind] at h ⊢
          exact .inr ⟨d, ks, ks', rfl, same ▸ rfl⟩

theorem apply_comm (h : c.kind = c'.kind) (s : KeySet) :
    c.apply (c'.apply s) = c'.apply (c.apply s) := by
  obtain ⟨rfl, rfl⟩ | ⟨d, ks, ks', rfl, rfl⟩ := cases_of_kind_eq h
  · rfl
  · apply d.ext_settled
    intro k
    simp only [apply, Direction.settled_apply]
    exact or_left_comm

/-- A change in force stays in force under a change of the same kind. -/
theorem InForce.apply (hc : c.InForce s) (h : c.kind = c'.kind) : c.InForce (c'.apply s) := by
  obtain ⟨rfl, rfl⟩ | ⟨d, ks, ks', rfl, rfl⟩ := cases_of_kind_eq h
  · rfl
  · exact fun k hk => Direction.settled_apply.mpr (.inr (hc k hk))

/-- Replaying a row of changes from a given set. -/
def replayFrom (s : KeySet) (changes : List Change) : KeySet :=
  changes.foldl (fun s c => c.apply s) s

theorem replayFrom_apply {changes : List Change} (h : ∀ d ∈ changes, d.kind = c.kind) :
    replayFrom (c.apply s) changes = c.apply (replayFrom s changes) := by
  induction changes generalizing s with
  | nil => rfl
  | cons d changes ih =>
      have hd : d.kind = c.kind := h d (by simp)
      simp only [replayFrom, List.foldl_cons] at ih ⊢
      rw [apply_comm hd]
      exact ih fun e he => h e (by simp [he])

/-- A change may be inserted anywhere before a row of changes of its kind: the set is the
same as if it had come last. -/
theorem replay_insert {before after : List Change} (h : ∀ d ∈ after, d.kind = c.kind) :
    replay (before ++ c :: after) = c.apply (replay (before ++ after)) := by
  have split : ∀ changes, replay (before ++ changes) = replayFrom (replay before) changes :=
    fun changes => List.foldl_append
  rw [split, split, ← replayFrom_apply h]
  rfl

/-- Every change of a row is proper for the set that the ones before it lead to. -/
def Exact (changes : List Change) : Prop :=
  ∀ before c after, changes = before ++ c :: after → c.Proper (replay before)

theorem exact_nil : Exact [] := by
  intro before c after h
  simp at h

theorem Exact.concat {changes : List Change} (h : Exact changes) (hc : c.Proper (replay changes)) :
    Exact (changes ++ [c]) := by
  intro before d after e
  rcases List.eq_nil_or_concat after with rfl | ⟨after', x, rfl⟩
  · obtain ⟨rfl, last⟩ := List.append_inj' e rfl
    cases last
    exact hc
  · rw [List.concat_eq_append, ← List.cons_append, ← List.append_assoc] at e
    exact h before d after' (List.append_inj' e rfl).1

/-- Whether the change names a key, or names the handler as a whole. -/
def touches : Change → Option Key → Bool
  | .move _ keys, some k => decide (k ∈ keys)
  | .reset, none => true
  | _, _ => false

end Change

/-- Whether a change of some kind can still change a set, at a key or as a whole. -/
def ChangeKind.Ripe : ChangeKind → KeySet → Option Key → Prop
  | .highlight, s, some k => ¬ k ∈ s
  | .unhighlight, s, some k => k ∈ s
  | .reset, s, none => s ≠ ∅
  | _, _, _ => False

instance : (κ : ChangeKind) → (s : KeySet) → (x : Option Key) → Decidable (κ.Ripe s x)
  | .highlight, s, some k => inferInstanceAs (Decidable (¬ k ∈ s))
  | .unhighlight, s, some k => inferInstanceAs (Decidable (k ∈ s))
  | .reset, s, none => inferInstanceAs (Decidable (s ≠ ∅))
  | .highlight, _, none | .unhighlight, _, none | .reset, _, some _ =>
      inferInstanceAs (Decidable False)

namespace Change

variable {c : Change} {s : KeySet}

theorem ripe_move_iff {d : Direction} {k : Key} :
    d.kind.Ripe s (some k) ↔ ¬ d.Settled s k := by
  cases d with
  | highlight => exact Iff.rfl
  | unhighlight => exact (Decidable.not_not (p := k ∈ s)).symm

theorem Proper.ripe (h : c.Proper s) {x : Option Key} (hx : c.touches x = true) :
    c.kind.Ripe s x := by
  cases c with
  | reset =>
      cases x with
      | none => exact h
      | some k => cases hx
  | move d keys =>
      cases x with
      | none => cases hx
      | some k => exact ripe_move_iff.mpr (h.2 k (of_decide_eq_true hx))

theorem ripe_apply_iff {x : Option Key} :
    c.kind.Ripe (c.apply s) x ↔ c.kind.Ripe s x ∧ c.touches x = false := by
  cases c with
  | reset =>
      cases x with
      | none => simp [kind, apply, touches, ChangeKind.Ripe]
      | some k => simp [kind, ChangeKind.Ripe]
  | move d keys =>
      cases x with
      | none => cases d <;> simp [kind, Direction.kind, ChangeKind.Ripe]
      | some k =>
          simp only [kind, apply, ripe_move_iff, Direction.settled_apply, touches,
            decide_eq_false_iff_not]
          exact not_or.trans and_comm

end Change

end HighlightSync
