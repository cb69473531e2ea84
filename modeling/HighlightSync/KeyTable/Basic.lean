import HighlightSync.KeySet.Summary

/-!
# Tables from coarse keys to sets of fine keys

A table tells which fine keys stand behind a coarse key, such as the rows of a cluster.
Its entries are listed by strictly ascending coarse key, so two tables that answer
every question alike are the same table (`KeyTable.ext_find?`). An entry with the empty
set differs from no entry.

Tables are put together by `KeyTable.merge`; an insertion merges a single entry, and to
build a table from pairs merges one entry for each. `KeyTable.inverse` swaps the two sides
of the relation.
-/

namespace HighlightSync

/-- A finite relation from coarse keys to sets of fine keys. -/
structure KeyTable where
  entries : List (Key × KeySet)
  ascending : entries.Pairwise (Prod.fst · < Prod.fst ·)

namespace KeyTable

@[ext] theorem ext_entries {t u : KeyTable} (h : t.entries = u.entries) : t = u := by
  cases t
  cases u
  cases h
  rfl

instance : DecidableEq KeyTable := fun t u =>
  decidable_of_iff (t.entries = u.entries) ⟨ext_entries, fun h => h ▸ rfl⟩

/-- The table without entries. -/
def empty : KeyTable := ⟨[], .nil⟩

instance : EmptyCollection KeyTable := ⟨empty⟩

instance : Inhabited KeyTable := ⟨empty⟩

/-- The number of coarse keys with an entry. -/
def size (t : KeyTable) : Nat := t.entries.length

/-- Whether no coarse key has an entry. -/
def isEmpty (t : KeyTable) : Bool := t.entries.isEmpty

/-- The fine keys of a coarse key, if it has an entry. -/
def find? (t : KeyTable) (k : Key) : Option KeySet :=
  (Ascending.find? Prod.fst k t.entries).map Prod.snd

/-- Tables that answer every question alike are equal. -/
theorem ext_find? {t u : KeyTable} (h : ∀ k, t.find? k = u.find? k) : t = u := by
  refine ext_entries (Ascending.ext_find? t.ascending u.ascending fun k => ?_)
  have answer := h k
  unfold find? at answer
  cases ht : Ascending.find? Prod.fst k t.entries with
  | none =>
      cases hu : Ascending.find? Prod.fst k u.entries with
      | none => rfl
      | some e => simp [ht, hu] at answer
  | some d =>
      cases hu : Ascending.find? Prod.fst k u.entries with
      | none => simp [ht, hu] at answer
      | some e =>
          simp only [ht, hu, Option.map_some, Option.some.injEq] at answer
          exact congrArg some (Prod.ext
            ((Ascending.key_of_find? ht).trans (Ascending.key_of_find? hu).symm) answer)

@[simp] theorem find?_empty (k : Key) : find? ∅ k = none := rfl

/-- Join two entries of one coarse key. -/
def joinEntries (d e : Key × KeySet) : Key × KeySet := (d.1, d.2.union e.2)

theorem fst_joinEntries (d e : Key × KeySet) (_ : e.1 = d.1) : (joinEntries d e).1 = d.1 := rfl

/-- All entries of two tables. Entries of the same coarse key are joined. -/
def merge (t u : KeyTable) : KeyTable :=
  ⟨Ascending.merge Prod.fst joinEntries t.entries u.entries,
    Ascending.pairwise_merge fst_joinEntries t.ascending u.ascending⟩

theorem find?_merge (t u : KeyTable) (k : Key) :
    (t.merge u).find? k = Option.merge KeySet.union (t.find? k) (u.find? k) := by
  have h := @Ascending.find?_merge _ Prod.fst joinEntries fst_joinEntries k _ _
    t.ascending u.ascending
  unfold find? merge
  rw [h]
  cases Ascending.find? Prod.fst k t.entries <;>
    cases Ascending.find? Prod.fst k u.entries <;> rfl

theorem merge_assoc (t u v : KeyTable) : (t.merge u).merge v = t.merge (u.merge v) := by
  refine ext_find? fun k => ?_
  simp only [find?_merge]
  cases t.find? k <;> cases u.find? k <;> cases v.find? k <;>
    simp [Option.merge, KeySet.union_assoc]

theorem merge_comm (t u : KeyTable) : t.merge u = u.merge t := by
  refine ext_find? fun k => ?_
  rw [find?_merge, find?_merge]
  cases t.find? k <;> cases u.find? k <;> simp [Option.merge, KeySet.union_comm]

@[simp] theorem merge_empty (t : KeyTable) : t.merge ∅ = t :=
  ext_find? fun k => by rw [find?_merge, find?_empty, Option.merge_none_right]

@[simp] theorem empty_merge (t : KeyTable) : merge ∅ t = t := by rw [merge_comm, merge_empty]

/-- The table with a single entry. -/
def single (k : Key) (fine : KeySet) : KeyTable := ⟨[(k, fine)], by simp⟩

theorem find?_single (k m : Key) (fine : KeySet) :
    (single k fine).find? m = if m = k then some fine else none := by
  by_cases h : m = k
  · subst h
    simp [find?, single, Ascending.find?_cons]
  · simp [find?, single, Ascending.find?, h, Ne.symm h]

/-- Add fine keys to the entry of a coarse key, which is made if there is none. -/
def insert (t : KeyTable) (k : Key) (fine : KeySet) : KeyTable := (single k fine).merge t

theorem find?_insert (t : KeyTable) (k m : Key) (fine : KeySet) :
    (t.insert k fine).find? m =
      if m = k then some (fine.union ((t.find? k).getD ∅)) else t.find? m := by
  rw [insert, find?_merge, find?_single]
  by_cases h : m = k
  · subst h
    cases t.find? m <;> simp [Option.merge]
  · simp [h]

/-- Remove the entry of a coarse key. -/
def erase (t : KeyTable) (k : Key) : KeyTable :=
  ⟨t.entries.filter (fun e => !decide (e.1 = k)), t.ascending.sublist List.filter_sublist⟩

theorem find?_erase (t : KeyTable) (k m : Key) :
    (t.erase k).find? m = if m = k then none else t.find? m := by
  unfold find? erase Ascending.find?
  rw [List.find?_filter]
  by_cases h : m = k
  · subst h
    simp
  · rw [if_neg h]
    congr 2
    funext e
    by_cases hm : e.1 = m
    · simp [hm, h]
    · simp [hm]

/-- The table built from pairs. Pairs with the same coarse key merge. -/
def ofPairs (pairs : List (Key × List Key)) : KeyTable :=
  Balanced.fold merge ∅ (pairs.map fun p => single p.1 (.ofList p.2))

theorem ofPairs_eq_foldl (pairs : List (Key × List Key)) :
    ofPairs pairs = (pairs.map fun p => single p.1 (.ofList p.2)).foldl merge ∅ :=
  Balanced.fold_eq_foldl merge_assoc merge_empty empty_merge _

/-- Add the fine keys of every pair. -/
def extend (t : KeyTable) (pairs : List (Key × List Key)) : KeyTable := t.merge (ofPairs pairs)

@[simp] theorem extend_nil (t : KeyTable) : t.extend [] = t := merge_empty t

theorem extend_cons (t : KeyTable) (p : Key × List Key) (pairs : List (Key × List Key)) :
    t.extend (p :: pairs) = (t.insert p.1 (.ofList p.2)).extend pairs := by
  have start : ∀ (us : List KeyTable) (u : KeyTable),
      us.foldl merge u = u.merge (us.foldl merge ∅) := by
    intro us
    induction us with
    | nil => simp
    | cons v vs ih =>
        intro u
        rw [List.foldl_cons, List.foldl_cons, ih, ih (merge ∅ v), empty_merge, merge_assoc]
  simp only [extend, ofPairs_eq_foldl, List.map_cons, List.foldl_cons]
  rw [start, empty_merge, ← merge_assoc, merge_comm t, insert]

@[simp] theorem empty_extend (pairs : List (Key × List Key)) :
    extend ∅ pairs = ofPairs pairs := empty_merge _

/-- Every pair of a coarse key and one of its fine keys, the fine key in front. -/
def swappedPairs (t : KeyTable) : List (Key × List Key) :=
  t.entries.flatMap fun e => e.2.toList.map fun f => (f, [e.1])

/-- The relation read the other way: each fine key with the coarse keys it stands behind. -/
def inverse (t : KeyTable) : KeyTable := ofPairs t.swappedPairs

/-- An entry in written form: the coarse key, a colon and its fine keys in braces. -/
def entryChars (e : Key × KeySet) : List Char :=
  Key.chars e.1 ++ ':' :: ' ' :: e.2.chars

/-- All entries in written form, between braces. -/
def chars (t : KeyTable) : List Char :=
  '{' :: (Text.commaList (t.entries.map entryChars) ++ ['}'])

/-- The table in written form, as a string. -/
def render (t : KeyTable) : String := String.ofList t.chars

end KeyTable

end HighlightSync
