import HighlightSync.Key.Basic

/-!
# Merging lists that ascend by key

A list of items is ascending when the keys of its items strictly ascend. `merge` puts two
ascending lists together in one pass over both, and joins two items that have the same key
into one, so that the result is ascending too (`pairwise_merge`), has the keys of both
(`mem_keys_merge`), and under each key the join of what the two have there
(`find?_merge`). What an ascending list has under each key determines it (`ext_find?`).

The pass goes through the first list. The items of the second that come before the next one
of the first are flushed, and an item with the same key is absorbed. What is finished is
kept with the last item first.
-/

namespace HighlightSync.Ascending

variable {α : Type u}

/-- Put the items below a key on the finished ones. Gives these and the items left. -/
@[specialize] def flush (key : α → Key) (k : Key) (done : List α) : List α → List α × List α
  | [] => (done, [])
  | y :: ys => if key y < k then flush key k (y :: done) ys else (done, y :: ys)

/-- Join an item with the first of a list if they have the same key. Gives the item and the
items left. -/
@[specialize] def absorb (key : α → Key) (join : α → α → α) (x : α) : List α → α × List α
  | [] => (x, [])
  | y :: ys => if key y = key x then (join x y, ys) else (x, y :: ys)

/-- Merge two ascending lists behind items that are finished. -/
@[specialize] def mergeOnto (key : α → Key) (join : α → α → α) (done : List α) :
    List α → List α → List α
  | [], ys => done.reverseAux ys
  | x :: xs, ys =>
      let (done, rest) := flush key (key x) done ys
      let (item, rest) := absorb key join x rest
      mergeOnto key join (item :: done) xs rest

/-- Merge two ascending lists. -/
@[inline] def merge (key : α → Key) (join : α → α → α) (xs ys : List α) : List α :=
  mergeOnto key join [] xs ys

/-- Whether an item comes before a key. -/
def isBelow (key : α → Key) (k : Key) (y : α) : Bool := decide (key y < k)

variable {key : α → Key} {join : α → α → α}

theorem flush_eq (k : Key) : ∀ (done ys : List α),
    flush key k done ys =
      ((ys.takeWhile (isBelow key k)).reverse ++ done, ys.dropWhile (isBelow key k))
  | done, [] => by simp [flush]
  | done, y :: ys => by
      by_cases h : key y < k
      · simp [flush, isBelow, h, flush_eq k (y :: done) ys]
      · simp [flush, isBelow, h]

theorem mergeOnto_eq : ∀ (done xs ys : List α),
    mergeOnto key join done xs ys = done.reverse ++ merge key join xs ys
  | done, [], ys => by simp [merge, mergeOnto, List.reverseAux_eq]
  | done, x :: xs, ys => by
      simp only [merge, mergeOnto, flush_eq]
      rw [mergeOnto_eq (_ :: _) xs, mergeOnto_eq (_ :: _) xs]
      simp

@[simp] theorem merge_nil (ys : List α) : merge key join [] ys = ys := rfl

theorem merge_cons (x : α) (xs ys : List α) :
    merge key join (x :: xs) ys =
      ys.takeWhile (isBelow key (key x)) ++
        (absorb key join x (ys.dropWhile (isBelow key (key x)))).1 ::
          merge key join xs (absorb key join x (ys.dropWhile (isBelow key (key x)))).2 := by
  conv => lhs; rw [merge, mergeOnto]
  simp only [flush_eq, mergeOnto_eq]
  simp

theorem key_absorb (keep : ∀ x y, key y = key x → key (join x y) = key x) (x : α)
    (ys : List α) : key (absorb key join x ys).1 = key x := by
  unfold absorb
  split
  · rfl
  · split
    · rename_i h
      exact keep _ _ h
    · rfl

theorem mem_keys_absorb (x : α) (ys : List α) (k : Key) :
    (k = key x ∨ k ∈ (absorb key join x ys).2.map key) ↔ k = key x ∨ k ∈ ys.map key := by
  unfold absorb
  split
  · rfl
  · split
    · rename_i h
      simp [h]
    · rfl

/-- The keys of a merged list are those of both lists. -/
theorem mem_keys_merge (keep : ∀ x y, key y = key x → key (join x y) = key x) {k : Key} :
    ∀ {xs ys : List α},
      k ∈ (merge key join xs ys).map key ↔ k ∈ xs.map key ∨ k ∈ ys.map key
  | [], ys => by simp
  | x :: xs, ys => by
      have split : k ∈ ys.map key ↔
          k ∈ (ys.takeWhile (isBelow key (key x))).map key ∨
            k ∈ (ys.dropWhile (isBelow key (key x))).map key := by
        rw [← List.mem_append, ← List.map_append, List.takeWhile_append_dropWhile]
      have absorbed := @mem_keys_absorb α key join x (ys.dropWhile (isBelow key (key x))) k
      rw [merge_cons, List.map_append, List.mem_append, List.map_cons, List.mem_cons,
        key_absorb keep, mem_keys_merge keep, split, List.map_cons, List.mem_cons]
      constructor
      · rintro (h | h | h | h)
        · exact .inr (.inl h)
        · exact .inl (.inl h)
        · exact .inl (.inr h)
        · exact (absorbed.mp (.inr h)).elim (.inl ∘ .inl) (.inr ∘ .inr)
      · rintro ((h | h) | h | h)
        · exact .inr (.inl h)
        · exact .inr (.inr (.inl h))
        · exact .inl h
        · exact (absorbed.mpr (.inr h)).elim (.inr ∘ .inl) (.inr ∘ .inr ∘ .inr)

theorem lt_of_mem_absorb {x : α} : ∀ {ys : List α}, ys.Pairwise (key · < key ·) →
    ∀ y ∈ (absorb key join x (ys.dropWhile (isBelow key (key x)))).2, key x < key y
  | [], _, _, h => by simp [absorb] at h
  | y :: ys, asc, z, h => by
      rw [List.pairwise_cons] at asc
      by_cases below : key y < key x
      · rw [List.dropWhile_cons_of_pos (by simp [isBelow, below])] at h
        exact lt_of_mem_absorb asc.2 z h
      · rw [List.dropWhile_cons_of_neg (by simp [isBelow, below]), absorb] at h
        split at h
        · rename_i same
          exact same ▸ asc.1 z h
        · rename_i other
          have above : key x < key y :=
            ((Key.lt_trichotomy (key y) (key x)).resolve_left below).resolve_left other
          rcases List.mem_cons.mp h with rfl | h
          · exact above
          · exact Key.lt_trans above (asc.1 z h)

theorem absorb_sublist (x : α) (ys : List α) : List.Sublist (absorb key join x ys).2 ys := by
  unfold absorb
  split
  · exact .refl _
  · split
    · exact List.sublist_cons_self _ _
    · exact .refl _

theorem lt_of_mem_takeWhile {k : Key} {ys : List α} {y : α}
    (h : y ∈ ys.takeWhile (isBelow key k)) : key y < k :=
  of_decide_eq_true (List.all_eq_true.mp List.all_takeWhile y h)

/-- A merged list is ascending. -/
theorem pairwise_merge (keep : ∀ x y, key y = key x → key (join x y) = key x) :
    ∀ {xs ys : List α}, xs.Pairwise (key · < key ·) → ys.Pairwise (key · < key ·) →
      (merge key join xs ys).Pairwise (key · < key ·)
  | [], _, _, hy => hy
  | x :: xs, ys, hx, hy => by
      rw [List.pairwise_cons] at hx
      have rest : List.Pairwise (key · < key ·)
          (absorb key join x (ys.dropWhile (isBelow key (key x)))).2 :=
        hy.sublist ((absorb_sublist x _).trans (List.dropWhile_sublist _))
      have after : ∀ z ∈ merge key join xs (absorb key join x
          (ys.dropWhile (isBelow key (key x)))).2, key x < key z := by
        intro z hz
        rcases (mem_keys_merge keep).mp (List.mem_map_of_mem hz) with h | h
        · obtain ⟨w, hw, e⟩ := List.mem_map.mp h
          exact e ▸ hx.1 w hw
        · obtain ⟨w, hw, e⟩ := List.mem_map.mp h
          exact e ▸ lt_of_mem_absorb hy w hw
      rw [merge_cons, List.pairwise_append, List.pairwise_cons, key_absorb keep]
      refine ⟨hy.sublist (List.takeWhile_sublist _), ⟨after, pairwise_merge keep hx.2 rest⟩, ?_⟩
      intro a ha b hb
      rcases List.mem_cons.mp hb with rfl | hb
      · rw [key_absorb keep]
        exact lt_of_mem_takeWhile ha
      · exact Key.lt_trans (lt_of_mem_takeWhile ha) (after b hb)

/-- The item with a key. -/
def find? (key : α → Key) (k : Key) (xs : List α) : Option α :=
  xs.find? fun x => decide (key x = k)

theorem key_of_find? {k : Key} {x : α} {xs : List α} (h : find? key k xs = some x) :
    key x = k := of_decide_eq_true (List.find?_some (p := fun x => decide (key x = k)) h)

theorem find?_cons (k : Key) (x : α) (xs : List α) :
    find? key k (x :: xs) = if key x = k then some x else find? key k xs := by
  by_cases h : key x = k <;> simp [find?, h]

theorem find?_append (k : Key) (xs ys : List α) :
    find? key k (xs ++ ys) = (find? key k xs).or (find? key k ys) := List.find?_append

theorem find?_eq_none {k : Key} {xs : List α} (h : ∀ x ∈ xs, key x ≠ k) :
    find? key k xs = none := by
  simpa [find?] using h

theorem find?_takeWhile_dropWhile (k m : Key) (ys : List α) :
    find? key k ys = (find? key k (ys.takeWhile (isBelow key m))).or
      (find? key k (ys.dropWhile (isBelow key m))) := by
  rw [← find?_append, List.takeWhile_append_dropWhile]

theorem find?_absorb_of_ne {k : Key} {x : α} (ys : List α) (h : key x ≠ k) :
    find? key k (absorb key join x ys).2 = find? key k ys := by
  unfold absorb
  split
  · rfl
  · split
    · rename_i same
      rw [find?_cons, if_neg (same ▸ h)]
    · rfl

theorem merge_some_find? (x : α) : ∀ {ys : List α}, ys.Pairwise (key · < key ·) →
    Option.merge join (some x) (find? key (key x) ys) =
      some (absorb key join x (ys.dropWhile (isBelow key (key x)))).1
  | [], _ => rfl
  | y :: ys, asc => by
      rw [List.pairwise_cons] at asc
      by_cases below : key y < key x
      · rw [List.dropWhile_cons_of_pos (by simp [isBelow, below]), find?_cons,
          if_neg (Key.ne_of_lt below)]
        exact merge_some_find? x asc.2
      · rw [List.dropWhile_cons_of_neg (by simp [isBelow, below]), find?_cons, absorb]
        by_cases same : key y = key x
        · simp [same]
        · have above : key x < key y :=
            ((Key.lt_trichotomy (key y) (key x)).resolve_left below).resolve_left same
          have absent : find? key (key x) ys = none :=
            find?_eq_none fun z hz => (Key.ne_of_lt (Key.lt_trans above (asc.1 z hz))).symm
          simp [same, absent]

/-- Under each key, a merged list has the join of what both lists have there. -/
theorem find?_merge (keep : ∀ x y, key y = key x → key (join x y) = key x) (k : Key) :
    ∀ {xs ys : List α}, xs.Pairwise (key · < key ·) → ys.Pairwise (key · < key ·) →
      find? key k (merge key join xs ys) =
        Option.merge join (find? key k xs) (find? key k ys)
  | [], ys, _, _ => by simp [find?]
  | x :: xs, ys, hx, hy => by
      rw [List.pairwise_cons] at hx
      have rest : List.Pairwise (key · < key ·)
          (absorb key join x (ys.dropWhile (isBelow key (key x)))).2 :=
        hy.sublist ((absorb_sublist x _).trans (List.dropWhile_sublist _))
      rw [merge_cons, find?_append, find?_cons, find?_cons, key_absorb keep]
      by_cases here : key x = k
      · subst here
        have before : find? key (key x) (ys.takeWhile (isBelow key (key x))) = none :=
          find?_eq_none fun z hz => Key.ne_of_lt (lt_of_mem_takeWhile hz)
        rw [before, if_pos rfl, if_pos rfl, merge_some_find? x hy]
        rfl
      · rw [if_neg here, if_neg here, find?_merge keep k hx.2 rest, find?_absorb_of_ne _ here,
          find?_takeWhile_dropWhile k (key x) ys]
        rcases Key.lt_trichotomy (key x) k with later | same | earlier
        · have before : find? key k (ys.takeWhile (isBelow key (key x))) = none :=
            find?_eq_none fun z hz =>
              Key.ne_of_lt (Key.lt_trans (lt_of_mem_takeWhile hz) later)
          simp [before]
        · exact absurd same here
        · have absent : find? key k xs = none :=
            find?_eq_none fun z hz =>
              (Key.ne_of_lt (Key.lt_trans earlier (hx.1 z hz))).symm
          simp [absent]

/-- Ascending lists that have the same under each key are equal. -/
theorem ext_find? : ∀ {xs ys : List α}, xs.Pairwise (key · < key ·) →
    ys.Pairwise (key · < key ·) → (∀ k, find? key k xs = find? key k ys) → xs = ys
  | [], [], _, _, _ => rfl
  | [], y :: _, _, _, h => by simpa [find?] using h (key y)
  | x :: _, [], _, _, h => by simpa [find?] using h (key x)
  | x :: xs, y :: ys, hx, hy, h => by
      rw [List.pairwise_cons] at hx hy
      have same : key x = key y := by
        rcases Key.lt_trichotomy (key x) (key y) with lt | eq | gt
        · have absent : find? key (key x) (y :: ys) = none :=
            find?_eq_none fun z hz => by
              rcases List.mem_cons.mp hz with rfl | hz
              · exact (Key.ne_of_lt lt).symm
              · exact (Key.ne_of_lt (Key.lt_trans lt (hy.1 z hz))).symm
          simpa [find?_cons, absent] using h (key x)
        · exact eq
        · have absent : find? key (key y) (x :: xs) = none :=
            find?_eq_none fun z hz => by
              rcases List.mem_cons.mp hz with rfl | hz
              · exact (Key.ne_of_lt gt).symm
              · exact (Key.ne_of_lt (Key.lt_trans gt (hx.1 z hz))).symm
          simpa [find?_cons, absent] using h (key y)
      have head : x = y := by simpa [find?_cons, same] using h (key x)
      subst head
      congr 1
      refine ext_find? hx.2 hy.2 fun k => ?_
      by_cases here : key x = k
      · subst here
        rw [find?_eq_none fun z hz => (Key.ne_of_lt (hx.1 z hz)).symm,
          find?_eq_none fun z hz => (Key.ne_of_lt (hy.1 z hz)).symm]
      · simpa [find?_cons, here] using h k

end HighlightSync.Ascending
