/-!
# Row keys and their order

A key names one row of a data view. It is an integer, a text, or a list of keys,
and all three kinds live in one total order: every integer comes before every text
and every text before every list. Integers compare by value, texts by their code
points, lists lexicographically with a proper beginning first.

`compare` decides this order. Its laws are given as the standard order classes, so
that equal comparison is equality and the strict order is transitive and total.
-/

namespace HighlightSync

/-- The identifier of a row. -/
inductive Key where
  | int (n : Int)
  | text (s : String)
  | list (ks : List Key)
  deriving Inhabited

namespace Key

mutual

/-- Compare two keys: integers before texts before lists, like with like. -/
def cmp : Key → Key → Ordering
  | .int m, .int n => compare m n
  | .int _, _ => .lt
  | .text _, .int _ => .gt
  | .text s, .text t => compare s t
  | .text _, .list _ => .lt
  | .list ks, .list ls => cmpList ks ls
  | .list _, _ => .gt
termination_by structural k => k

/-- Compare two lists of keys at their first difference. -/
def cmpList : List Key → List Key → Ordering
  | [], [] => .eq
  | [], _ :: _ => .lt
  | _ :: _, [] => .gt
  | k :: ks, l :: ls => (cmp k l).then (cmpList ks ls)
termination_by structural ks => ks

end

instance : Ord Key := ⟨cmp⟩

/-- One key is below another when it compares as less. -/
instance : LT Key := ⟨fun a b => compare a b = .lt⟩

theorem compare_eq_cmp (a b : Key) : compare a b = cmp a b := rfl

theorem lt_iff_compare {a b : Key} : a < b ↔ compare a b = .lt := Iff.rfl

instance (a b : Key) : Decidable (a < b) :=
  inferInstanceAs (Decidable (compare a b = .lt))

mutual

theorem cmp_swap : ∀ a b : Key, cmp a b = (cmp b a).swap
  | .int m, .int n => by simpa [cmp] using Std.OrientedCmp.eq_swap
  | .int _, .text _ => by simp [cmp]
  | .int _, .list _ => by simp [cmp]
  | .text _, .int _ => by simp [cmp]
  | .text s, .text t => by simpa [cmp] using Std.OrientedCmp.eq_swap
  | .text _, .list _ => by simp [cmp]
  | .list _, .int _ => by simp [cmp]
  | .list _, .text _ => by simp [cmp]
  | .list ks, .list ls => by simpa [cmp] using cmpList_swap ks ls

theorem cmpList_swap : ∀ ks ls : List Key, cmpList ks ls = (cmpList ls ks).swap
  | [], [] => by simp [cmpList]
  | [], _ :: _ => by simp [cmpList]
  | _ :: _, [] => by simp [cmpList]
  | k :: ks, l :: ls => by
      simp [cmpList, Ordering.swap_then, ← cmp_swap k l, ← cmpList_swap ks ls]

end

mutual

theorem eq_of_cmp : ∀ {a b : Key}, cmp a b = .eq → a = b
  | .int m, .int n, h => by
      simp only [cmp] at h
      rw [Std.LawfulEqCmp.eq_of_compare h]
  | .int _, .text _, h => by simp [cmp] at h
  | .int _, .list _, h => by simp [cmp] at h
  | .text _, .int _, h => by simp [cmp] at h
  | .text s, .text t, h => by
      simp only [cmp] at h
      rw [Std.LawfulEqCmp.eq_of_compare h]
  | .text _, .list _, h => by simp [cmp] at h
  | .list _, .int _, h => by simp [cmp] at h
  | .list _, .text _, h => by simp [cmp] at h
  | .list ks, .list ls, h => by
      simp only [cmp] at h
      rw [eq_of_cmpList h]

theorem eq_of_cmpList : ∀ {ks ls : List Key}, cmpList ks ls = .eq → ks = ls
  | [], [], _ => rfl
  | [], _ :: _, h => by simp [cmpList] at h
  | _ :: _, [], h => by simp [cmpList] at h
  | k :: ks, l :: ls, h => by
      simp only [cmpList, Ordering.then_eq_eq] at h
      rw [eq_of_cmp h.1, eq_of_cmpList h.2]

end

theorem cmp_self (a : Key) : cmp a a = .eq := by
  have h := cmp_swap a a
  cases hc : cmp a a <;> simp [hc] at h ⊢

mutual

theorem cmp_trans : ∀ {a b c : Key}, cmp a b = .lt → cmp b c = .lt → cmp a c = .lt
  | .int _, .int _, .int _, h, g => by
      simp only [cmp] at h g ⊢
      exact Std.TransCmp.lt_trans h g
  | .text _, .text _, .text _, h, g => by
      simp only [cmp] at h g ⊢
      exact Std.TransCmp.lt_trans h g
  | .list _, .list _, .list _, h, g => by
      simp only [cmp] at h g ⊢
      exact cmpList_trans h g
  | .int _, .int _, .text _, _, _ => by simp [cmp]
  | .int _, .int _, .list _, _, _ => by simp [cmp]
  | .int _, .text _, .text _, _, _ => by simp [cmp]
  | .int _, .text _, .list _, _, _ => by simp [cmp]
  | .int _, .list _, .list _, _, _ => by simp [cmp]
  | .text _, .text _, .list _, _, _ => by simp [cmp]
  | .text _, .list _, .list _, _, _ => by simp [cmp]
  | .text _, .int _, _, h, _ => by simp [cmp] at h
  | .list _, .int _, _, h, _ => by simp [cmp] at h
  | .list _, .text _, _, h, _ => by simp [cmp] at h
  | _, .text _, .int _, _, g => by simp [cmp] at g
  | _, .list _, .int _, _, g => by simp [cmp] at g
  | _, .list _, .text _, _, g => by simp [cmp] at g

theorem cmpList_trans : ∀ {ks ls ms : List Key},
    cmpList ks ls = .lt → cmpList ls ms = .lt → cmpList ks ms = .lt
  | [], _ :: _, _ :: _, _, _ => by simp [cmpList]
  | [], [], _, h, _ => by simp [cmpList] at h
  | _ :: _, [], _, h, _ => by simp [cmpList] at h
  | _, _ :: _, [], _, g => by simp [cmpList] at g
  | k :: ks, l :: ls, m :: ms, h, g => by
      simp only [cmpList, Ordering.then_eq_lt] at h g ⊢
      rcases h with h | ⟨h, h'⟩ <;> rcases g with g | ⟨g, g'⟩
      · exact .inl (cmp_trans h g)
      · exact .inl (eq_of_cmp g ▸ h)
      · exact .inl ((eq_of_cmp h).symm ▸ g)
      · refine .inr ⟨?_, cmpList_trans h' g'⟩
        rw [eq_of_cmp h, g]

end

instance : Std.OrientedOrd Key := ⟨cmp_swap _ _⟩

instance : Std.LawfulEqOrd Key where
  compare_self := cmp_self _
  eq_of_compare := eq_of_cmp

instance : Std.TransOrd Key where
  isLE_trans {a b c} h g := by
    simp only [compare_eq_cmp] at h g ⊢
    cases hab : cmp a b with
    | gt => simp [hab] at h
    | eq => rw [eq_of_cmp hab]; exact g
    | lt =>
        cases hbc : cmp b c with
        | gt => simp [hbc] at g
        | eq => rw [← eq_of_cmp hbc, hab]; rfl
        | lt => rw [cmp_trans hab hbc]; rfl

instance : DecidableEq Key := fun _ _ =>
  decidable_of_iff _ Std.LawfulEqOrd.compare_eq_iff_eq

theorem lt_irrefl (a : Key) : ¬ a < a := by
  rw [lt_iff_compare, compare_eq_cmp, cmp_self]
  decide

theorem lt_trans {a b c : Key} (h : a < b) (g : b < c) : a < c := cmp_trans h g

theorem lt_asymm {a b : Key} (h : a < b) : ¬ b < a := fun g => lt_irrefl a (lt_trans h g)

theorem ne_of_lt {a b : Key} (h : a < b) : a ≠ b := fun e => lt_irrefl b (e ▸ h)

theorem compare_eq_gt_iff {a b : Key} : compare a b = .gt ↔ b < a :=
  Std.OrientedCmp.gt_iff_lt

theorem lt_trichotomy (a b : Key) : a < b ∨ a = b ∨ b < a := by
  cases h : compare a b with
  | lt => exact .inl h
  | eq => exact .inr (.inl (Std.LawfulEqCmp.eq_of_compare h))
  | gt => exact .inr (.inr (compare_eq_gt_iff.mp h))

end Key

end HighlightSync
