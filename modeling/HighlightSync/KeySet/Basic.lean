import HighlightSync.Ascending
import HighlightSync.BalancedFold

/-!
# Finite sets of keys

A key set is a strictly ascending list of keys. Strictness rules out repetition and
fixes the order, so two sets with the same members are the same value
(`KeySet.ext_mem`), and reading a set always yields its members from the smallest up.

Every operation is described by its members, in the lemmas named `mem_…`. Operations on two
sets pass over both once, and `unionAll` and `ofList` pair sets of similar size, so that
sets of very many keys are handled well.
-/

namespace HighlightSync

/-- A finite set of keys, listed in ascending order. -/
structure KeySet where
  toList : List Key
  ascending : toList.Pairwise (· < ·)

namespace KeySet

@[ext] theorem ext_toList {s t : KeySet} (h : s.toList = t.toList) : s = t := by
  cases s
  cases t
  cases h
  rfl

instance : DecidableEq KeySet := fun s t =>
  decidable_of_iff (s.toList = t.toList) ⟨ext_toList, fun h => h ▸ rfl⟩

instance : Membership Key KeySet := ⟨fun s k => k ∈ s.toList⟩

theorem mem_def {s : KeySet} {k : Key} : k ∈ s ↔ k ∈ s.toList := Iff.rfl

instance (k : Key) (s : KeySet) : Decidable (k ∈ s) :=
  inferInstanceAs (Decidable (k ∈ s.toList))

/-- The set without members. -/
def empty : KeySet := ⟨[], .nil⟩

instance : EmptyCollection KeySet := ⟨empty⟩

instance : Inhabited KeySet := ⟨empty⟩

/-- The number of members. -/
def size (s : KeySet) : Nat := s.toList.length

@[simp] theorem toList_empty : (∅ : KeySet).toList = [] := rfl

@[simp] theorem not_mem_empty (k : Key) : ¬ k ∈ (∅ : KeySet) := by simp [mem_def]

@[simp] theorem size_empty : (∅ : KeySet).size = 0 := rfl

theorem eq_empty_iff {s : KeySet} : s = ∅ ↔ ∀ k, ¬ k ∈ s := by
  constructor
  · rintro rfl k
    exact not_mem_empty k
  · intro h
    exact ext_toList (List.eq_nil_iff_forall_not_mem.mpr h)

theorem exists_mem {s : KeySet} (nonempty : s ≠ ∅) : ∃ k, k ∈ s :=
  Classical.byContradiction fun none => nonempty (eq_empty_iff.mpr fun k hk => none ⟨k, hk⟩)

/-- Ascending lists with the same members are equal. -/
theorem eq_of_ascending : ∀ {ks ls : List Key}, ks.Pairwise (· < ·) → ls.Pairwise (· < ·) →
    (∀ k, k ∈ ks ↔ k ∈ ls) → ks = ls
  | [], [], _, _, _ => rfl
  | [], l :: _, _, _, h => by simpa using (h l).mpr (by simp)
  | k :: _, [], _, _, h => by simpa using (h k).mp (by simp)
  | k :: ks, l :: ls, hk, hl, h => by
      rw [List.pairwise_cons] at hk hl
      have heads : k = l := by
        rcases List.mem_cons.mp ((h k).mp (by simp)) with e | e
        · exact e
        · rcases List.mem_cons.mp ((h l).mpr (by simp)) with f | f
          · exact f.symm
          · exact absurd (hl.1 k e) (Key.lt_asymm (hk.1 l f))
      subst heads
      congr 1
      refine eq_of_ascending hk.2 hl.2 fun m => ⟨fun hm => ?_, fun hm => ?_⟩
      · rcases List.mem_cons.mp ((h m).mp (by simp [hm])) with e | e
        · exact absurd e.symm (Key.ne_of_lt (hk.1 m hm))
        · exact e
      · rcases List.mem_cons.mp ((h m).mpr (by simp [hm])) with e | e
        · exact absurd e.symm (Key.ne_of_lt (hl.1 m hm))
        · exact e

/-- Sets with the same members are equal. -/
theorem ext_mem {s t : KeySet} (h : ∀ k, k ∈ s ↔ k ∈ t) : s = t :=
  ext_toList (eq_of_ascending s.ascending t.ascending h)

/-- The set with a single member. -/
def singleton (k : Key) : KeySet := ⟨[k], by simp⟩

@[simp] theorem mem_singleton {k m : Key} : m ∈ singleton k ↔ m = k := by
  simp [singleton, mem_def]

/-- The members of either set. -/
def union (s t : KeySet) : KeySet :=
  ⟨Ascending.merge id (fun k _ => k) s.toList t.toList,
    Ascending.pairwise_merge (fun _ _ _ => rfl) s.ascending t.ascending⟩

@[simp] theorem mem_union {s t : KeySet} {k : Key} : k ∈ s.union t ↔ k ∈ s ∨ k ∈ t := by
  have h := @Ascending.mem_keys_merge Key id (fun k _ => k) (fun _ _ _ => rfl) k s.toList t.toList
  rw [List.map_id, List.map_id, List.map_id] at h
  exact h

theorem union_assoc (s t u : KeySet) : (s.union t).union u = s.union (t.union u) :=
  ext_mem (by simp [or_assoc])

theorem union_comm (s t : KeySet) : s.union t = t.union s := ext_mem (by simp [or_comm])

@[simp] theorem union_empty (s : KeySet) : s.union ∅ = s := ext_mem (by simp)

@[simp] theorem empty_union (s : KeySet) : union ∅ s = s := ext_mem (by simp)

/-- Add one key. -/
def insert (k : Key) (s : KeySet) : KeySet := (singleton k).union s

@[simp] theorem mem_insert {k m : Key} {s : KeySet} : m ∈ s.insert k ↔ m = k ∨ m ∈ s := by
  simp [insert]

/-- The members of any of several sets. -/
def unionAll (ss : List KeySet) : KeySet := Balanced.fold union ∅ ss

theorem unionAll_eq_foldl (ss : List KeySet) : unionAll ss = ss.foldl union ∅ :=
  Balanced.fold_eq_foldl union_assoc union_empty empty_union ss

@[simp] theorem mem_unionAll {ss : List KeySet} {k : Key} :
    k ∈ unionAll ss ↔ ∃ s ∈ ss, k ∈ s := by
  suffices h : ∀ t : KeySet, k ∈ ss.foldl union t ↔ k ∈ t ∨ ∃ s ∈ ss, k ∈ s by
    simpa [unionAll_eq_foldl] using h ∅
  induction ss with
  | nil => simp
  | cons s ss ih => simp [ih, or_assoc]

/-- The set of all keys of a list, in which keys may repeat and stand in any order. -/
def ofList (ks : List Key) : KeySet := unionAll (ks.map singleton)

@[simp] theorem mem_ofList {k : Key} {ks : List Key} : k ∈ ofList ks ↔ k ∈ ks := by
  rw [ofList, mem_unionAll]
  constructor
  · rintro ⟨s, hs, hk⟩
    obtain ⟨l, hl, rfl⟩ := List.mem_map.mp hs
    exact mem_singleton.mp hk ▸ hl
  · exact fun hk => ⟨singleton k, List.mem_map_of_mem hk, mem_singleton.mpr rfl⟩

@[simp] theorem ofList_toList (s : KeySet) : ofList s.toList = s :=
  ext_mem fun _ => mem_ofList

/-- The members that satisfy a test. -/
def filter (p : Key → Bool) (s : KeySet) : KeySet :=
  ⟨s.toList.filter p, s.ascending.sublist List.filter_sublist⟩

@[simp] theorem mem_filter {p : Key → Bool} {s : KeySet} {k : Key} :
    k ∈ s.filter p ↔ k ∈ s ∧ p k = true := List.mem_filter

/-- The keys of an ascending list that are in another one, or those that are not, behind
those that were kept before, the last of which comes first. Keys of the other list that are
passed are not looked at again. -/
def sift (present : Bool) (kept : List Key) : List Key → List Key → List Key
  | [], _ => kept.reverse
  | k :: ks, ls =>
      let rest := ls.dropWhile (Ascending.isBelow id k)
      sift present (if decide (rest.head? = some k) = present then k :: kept else kept) ks rest

theorem head?_dropWhile_eq_some_iff {k : Key} : ∀ {ls : List Key}, ls.Pairwise (· < ·) →
    ((ls.dropWhile (Ascending.isBelow id k)).head? = some k ↔ k ∈ ls)
  | [], _ => by simp
  | l :: ls, asc => by
      rw [List.pairwise_cons] at asc
      by_cases below : l < k
      · have other : k ≠ l := (Key.ne_of_lt below).symm
        rw [List.dropWhile_cons_of_pos (by simp [Ascending.isBelow, below]),
          head?_dropWhile_eq_some_iff asc.2]
        simp [other]
      · rw [List.dropWhile_cons_of_neg (by simp [Ascending.isBelow, below])]
        constructor
        · intro h
          simp_all
        · intro h
          rcases List.mem_cons.mp h with rfl | h
          · rfl
          · exact absurd (asc.1 k h) below

theorem mem_dropWhile_iff {k m : Key} (le : ¬ m < k) : ∀ {ls : List Key},
    m ∈ ls.dropWhile (Ascending.isBelow id k) ↔ m ∈ ls
  | [] => by simp
  | l :: ls => by
      by_cases below : l < k
      · have other : m ≠ l := fun e => le (e ▸ below)
        rw [List.dropWhile_cons_of_pos (by simp [Ascending.isBelow, below]),
          mem_dropWhile_iff le]
        simp [other]
      · rw [List.dropWhile_cons_of_neg (by simp [Ascending.isBelow, below])]

theorem sift_eq (present : Bool) : ∀ {kept ks ls : List Key},
    ks.Pairwise (· < ·) → ls.Pairwise (· < ·) →
      sift present kept ks ls = kept.reverse ++ ks.filter fun k => decide (k ∈ ls) == present
  | kept, [], ls, _, _ => by simp [sift]
  | kept, k :: ks, ls, hk, hl => by
      rw [List.pairwise_cons] at hk
      have later : (ks.filter fun m =>
            decide (m ∈ ls.dropWhile (Ascending.isBelow id k)) == present) =
          ks.filter fun m => decide (m ∈ ls) == present :=
        List.filter_congr fun m hm => by
          simp only [mem_dropWhile_iff (Key.lt_asymm (hk.1 m hm))]
      rw [sift, sift_eq present hk.2 (hl.sublist (List.dropWhile_sublist _)), later,
        List.filter_cons]
      simp only [head?_dropWhile_eq_some_iff hl]
      by_cases h : decide (k ∈ ls) = present <;> simp [h]

/-- The members of the first set that are, or are not, in the second. -/
def select (present : Bool) (s t : KeySet) : KeySet :=
  ⟨sift present [] s.toList t.toList, by
    rw [sift_eq present s.ascending t.ascending]
    exact s.ascending.sublist List.filter_sublist⟩

theorem select_eq_filter (present : Bool) (s t : KeySet) :
    select present s t = s.filter fun k => decide (k ∈ t) == present :=
  ext_toList (sift_eq present s.ascending t.ascending)

/-- The members of the first set that are not in the second. -/
def diff (s t : KeySet) : KeySet := select false s t

@[simp] theorem mem_diff {s t : KeySet} {k : Key} : k ∈ s.diff t ↔ k ∈ s ∧ ¬ k ∈ t := by
  simp [diff, select_eq_filter]

/-- Whether all members of the first set are in the second. -/
def isSubset (s t : KeySet) : Bool := decide (s.diff t = ∅)

@[simp] theorem isSubset_iff {s t : KeySet} : s.isSubset t = true ↔ ∀ k ∈ s, k ∈ t := by
  simp [isSubset, eq_empty_iff]

/-- The members that both sets have. -/
def inter (s t : KeySet) : KeySet := select true s t

@[simp] theorem mem_inter {s t : KeySet} {k : Key} : k ∈ s.inter t ↔ k ∈ s ∧ k ∈ t := by
  simp [inter, select_eq_filter]

end KeySet

end HighlightSync
