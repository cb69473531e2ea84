import HighlightSync.Proofs.TwoWay

/-!
# Tables read the other way

The inverse of a table is put together by insertions, one for each fine key of each entry
(`KeyTable.inverse_eq_foldl`). It relates what the table relates, the other way, and every entry
that it has was made for some coarse key, so none is empty. A table without empty entries is
determined by what it relates (`KeyTable.Full.ext_relates`). So the inverse of the inverse is the
table without its empty entries, and nothing more is lost by further inversions
(`KeyTable.inverse_transposes`).
-/

namespace HighlightSync.KeyTable

/-- No entry is empty. -/
def Full (t : KeyTable) : Prop := ∀ c, t.find? c ≠ some ∅

/-- The table without its empty entries. -/
def trim (t : KeyTable) : KeyTable :=
  ⟨t.entries.filter fun e => !decide (e.2 = ∅), t.ascending.sublist List.filter_sublist⟩

variable {t u : KeyTable} {c f : Key}

theorem extend_eq_foldl (t : KeyTable) (pairs : List (Key × List Key)) :
    t.extend pairs = pairs.foldl (fun t p => t.insert p.1 (.ofList p.2)) t := by
  induction pairs generalizing t with
  | nil => exact extend_nil t
  | cons p pairs ih => rw [extend_cons, ih, List.foldl_cons]

/-- The inverse is built by insertions: for every entry and each of its fine keys, the coarse key is
added to the entry of the fine key. -/
theorem inverse_eq_foldl (t : KeyTable) :
    t.inverse = t.entries.foldl
      (fun u e => e.2.toList.foldl (fun u f => u.insert f (.singleton e.1)) u) ∅ := by
  have single : ∀ c : Key, KeySet.ofList [c] = .singleton c := by
    intro c
    apply KeySet.ext_mem
    simp
  rw [inverse, ← empty_extend, extend_eq_foldl, swappedPairs, List.foldl_flatMap]
  simp only [List.foldl_map, single]

theorem find?_eq_some_iff {fine : KeySet} : t.find? c = some fine ↔ (c, fine) ∈ t.entries := by
  constructor
  · intro found
    obtain ⟨e, entry, rfl⟩ := Option.map_eq_some_iff.mp found
    obtain rfl : e.1 = c := Ascending.key_of_find? entry
    exact List.mem_of_find?_eq_some entry
  · intro entry
    rw [find?, mem_of_ascending t.ascending entry]
    rfl

namespace Full

theorem empty : Full ∅ := by
  intro c found
  cases found

theorem insert (full : t.Full) (c : Key) {fine : KeySet} (some : fine ≠ ∅) :
    (t.insert c fine).Full := by
  intro k
  rw [find?_insert]
  split
  · intro same
    obtain ⟨f, mem⟩ := KeySet.exists_mem some
    have gone : f ∈ (∅ : KeySet) := by
      rw [← Option.some.inj same]
      exact KeySet.mem_union.mpr (.inl mem)
    exact KeySet.not_mem_empty f gone
  · exact full k

theorem foldl_insert {α : Type} {key : α → Key} {fine : α → KeySet} (full : t.Full) {items : List α}
    (some : ∀ a ∈ items, fine a ≠ ∅) :
    (items.foldl (fun t a => t.insert (key a) (fine a)) t).Full := by
  induction items generalizing t with
  | nil => exact full
  | cons a items ih =>
      apply ih (full.insert (key a) (some a List.mem_cons_self))
      intro b mem
      exact some b (List.mem_cons_of_mem a mem)

/-- Full tables that relate the same keys are equal. -/
theorem ext_relates (full : t.Full) (full' : u.Full)
    (same : ∀ c f, t.Relates c f ↔ u.Relates c f) : t = u := by
  -- Each direction needs that the other table has an entry where one has it, so both are shown
  -- at once.
  have half : ∀ {t u : KeyTable}, t.Full → (∀ c f, t.Relates c f ↔ u.Relates c f) →
      ∀ {c fine}, t.find? c = some fine → u.find? c = some fine := by
    intro t u full same c fine found
    have nonempty : fine ≠ ∅ := by
      rintro rfl
      exact full c found
    obtain ⟨f, mem⟩ := KeySet.exists_mem nonempty
    obtain ⟨fine', found', -⟩ := (same c f).mp ⟨fine, found, mem⟩
    have sets : fine' = fine := by
      apply KeySet.ext_mem
      intro f
      have related := same c f
      simp only [Relates, found, found', Option.some.injEq, exists_eq_left'] at related
      exact related.symm
    rw [found', sets]
  apply ext_find?
  intro c
  apply Option.ext
  intro fine
  exact ⟨half full same, half full' fun c f => (same c f).symm⟩

end Full

theorem full_inverse (t : KeyTable) : t.inverse.Full := by
  rw [inverse_eq_foldl]
  suffices go : ∀ (entries : List (Key × KeySet)) (u : KeyTable), u.Full → (entries.foldl
      (fun u e => e.2.toList.foldl (fun u f => u.insert f (.singleton e.1)) u) u).Full from
    go t.entries ∅ .empty
  intro entries
  induction entries with
  | nil => exact fun u full => full
  | cons e entries ih =>
      intro u full
      apply ih
      apply full.foldl_insert
      intro f _ none
      exact KeySet.not_mem_empty e.1 (none ▸ KeySet.mem_singleton.mpr rfl)

theorem find?_trim_eq_some_iff {fine : KeySet} :
    t.trim.find? c = some fine ↔ t.find? c = some fine ∧ fine ≠ ∅ := by
  rw [find?_eq_some_iff, find?_eq_some_iff, trim, List.mem_filter]
  simp

theorem full_trim (t : KeyTable) : t.trim.Full := by
  intro c found
  exact (find?_trim_eq_some_iff.mp found).2 rfl

theorem relates_trim : t.trim.Relates c f ↔ t.Relates c f := by
  constructor
  · rintro ⟨fine, found, mem⟩
    exact ⟨fine, (find?_trim_eq_some_iff.mp found).1, mem⟩
  · rintro ⟨fine, found, mem⟩
    refine ⟨fine, find?_trim_eq_some_iff.mpr ⟨found, ?_⟩, mem⟩
    rintro rfl
    exact KeySet.not_mem_empty f mem

/-- Inversion is transposition. A coarse key is found under a fine key in the inverse exactly if the
fine key is found under the coarse key in the table, and the inverse has no empty entry. The inverse
of the inverse is the table without its empty entries: the table itself if and only if it has none.
To invert a third time gives the inverse again. -/
theorem inverse_transposes (t : KeyTable) :
    (∀ c f, t.inverse.Relates f c ↔ t.Relates c f) ∧
    (∀ f, t.inverse.find? f ≠ some ∅) ∧
    t.inverse.inverse = t.trim ∧
    (t.inverse.inverse = t ↔ ∀ c, t.find? c ≠ some ∅) ∧
    t.inverse.inverse.inverse = t.inverse := by
  have twice : ∀ (t : KeyTable) c f, t.inverse.inverse.Relates c f ↔ t.Relates c f := by
    intro t c f
    rw [relates_inverse, relates_inverse]
  refine ⟨fun c f => relates_inverse, full_inverse t, ?_, ⟨?_, ?_⟩, ?_⟩
  · apply (full_inverse _).ext_relates (full_trim t)
    intro c f
    rw [twice, relates_trim]
  · intro same
    rw [← same]
    exact full_inverse t.inverse
  · intro full
    exact (full_inverse _).ext_relates full (twice t)
  · exact (full_inverse _).ext_relates (full_inverse t) (twice t.inverse)

/-- The entry of `1`, which is empty, is lost, and the fine key that two coarse keys share is kept
under both. -/
example :
    let t := ofPairs [(.int 1, []), (.int 2, [.int 7, .int 8]), (.int 3, [.int 8])]
    t.inverse = ofPairs [(.int 7, [.int 2]), (.int 8, [.int 3, .int 2])] ∧
      t.inverse.inverse = ofPairs [(.int 3, [.int 8]), (.int 2, [.int 8, .int 7])] := by
  decide +kernel

end HighlightSync.KeyTable
