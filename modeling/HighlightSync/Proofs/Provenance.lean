import HighlightSync.KeyTable.Request
import HighlightSync.Proofs.Transposition
import Mathlib.Data.Set.Card

/-!
# Where the entries of a table come from

A history is a row of requests to a table that is new at first; if it is to be collected from pairs,
this is the first request. What a history leaves under a coarse key can be told from the history
alone (`KeyTable.entry`): from the requests since the last one that forgets the key, and the batches
of fine keys that they put there. No batch leaves no entry, and otherwise the entry has the keys of
all batches; a batch without keys counts.

One request after another, the table has under each coarse key just what its history leaves
there (`KeyTable.find?_after`). So histories that leave the same make the same table, however the
requests are arranged (`KeyTable.history_determines`).
-/

namespace HighlightSync.KeyTable

/-- Whether a request gives up what a coarse key had before. -/
def Request.forgets (c : Key) : Request → Bool
  | .remove k => decide (k = c)
  | .collect _ | .clear => true
  | _ => false

/-- The batches of fine keys that a request puts under a coarse key. -/
def Request.batches (c : Key) : Request → List (List Key)
  | .insert k fine => if k = c then [fine] else []
  | .extend pairs | .collect pairs => (pairs.filter fun p => decide (p.1 = c)).map Prod.snd
  | _ => []

/-- The history from the last request on that forgets a coarse key, and all of it if none does. -/
def since (c : Key) : List Request → List Request
  | [] => []
  | r :: later => if later.any (·.forgets c) then since c later else r :: later

/-- What batches of fine keys make together: nothing if there is none, and else the set of all
their keys. -/
def gather (batches : List (List Key)) : Option KeySet :=
  if batches.isEmpty then none else some (.ofList batches.flatten)

/-- What a history leaves under a coarse key. -/
def entry (c : Key) (history : List Request) : Option KeySet :=
  gather ((since c history).flatMap (·.batches c))

/-- The table when all requests of a history have been served. -/
def after (t : KeyTable) (history : List Request) : KeyTable :=
  history.foldl (fun t r => (t.serve r).1) t

variable {history : List Request}

theorem after_append (t : KeyTable) (history later : List Request) :
    t.after (history ++ later) = (t.after history).after later := List.foldl_append

theorem after_singleton (t : KeyTable) (r : Request) : t.after [r] = (t.serve r).1 := rfl

theorem serveAll_append (t : KeyTable) (history later : List Request) :
    t.serveAll (history ++ later) = t.serveAll history ++ (t.after history).serveAll later := by
  induction history generalizing t with
  | nil => rfl
  | cons r history ih => rw [List.cons_append, serveAll, ih, serveAll]; rfl

theorem gather_eq_none_iff {batches : List (List Key)} : gather batches = none ↔ batches = [] := by
  cases batches <;> simp [gather]

theorem mem_of_gather {batches : List (List Key)} {fine : KeySet} {f : Key}
    (gathered : gather batches = some fine) : f ∈ fine ↔ ∃ batch ∈ batches, f ∈ batch := by
  obtain ⟨-, all⟩ := Option.ite_none_left_eq_some.mp gathered
  cases all
  rw [KeySet.mem_ofList, List.mem_flatten]

theorem gather_append (bs bs' : List (List Key)) :
    gather (bs ++ bs') = Option.merge KeySet.union (gather bs) (gather bs') := by
  have both : KeySet.ofList (bs ++ bs').flatten =
      (KeySet.ofList bs.flatten).union (.ofList bs'.flatten) := by
    apply KeySet.ext_mem
    simp
  cases bs with
  | nil => simp [gather]
  | cons b bs =>
      cases bs' with
      | nil => simp [gather]
      | cons b' bs' => simpa [gather] using both

theorem gather_perm {bs bs' : List (List Key)} (perm : bs.Perm bs') : gather bs = gather bs' := by
  have keys : KeySet.ofList bs.flatten = .ofList bs'.flatten := by
    apply KeySet.ext_mem
    intro f
    rw [KeySet.mem_ofList, KeySet.mem_ofList, perm.flatten.mem_iff]
  rw [gather, gather, keys, perm.isEmpty_eq]

theorem find?_ofPairs (pairs : List (Key × List Key)) (c : Key) :
    (ofPairs pairs).find? c =
      gather ((pairs.filter fun p => decide (p.1 = c)).map Prod.snd) := by
  induction pairs with
  | nil => rfl
  | cons p pairs ih =>
      have cons : ofPairs (p :: pairs) = (single p.1 (.ofList p.2)).merge (ofPairs pairs) := by
        rw [← empty_extend, extend_cons, insert, merge_empty, extend]
      rw [cons, find?_merge, find?_single, ih]
      by_cases here : p.1 = c
      · rw [List.filter_cons_of_pos (by simpa using here), List.map_cons, ← List.singleton_append,
          gather_append, if_pos here.symm]
        simp [gather]
      · rw [List.filter_cons_of_neg (by simpa using here), if_neg (Ne.symm here),
          Option.merge_none_left]

/-- What a request other than an inversion makes of the entry of a coarse key: what it does not
forget, and its batches. -/
theorem find?_serve {r : Request} (plain : r ≠ .invert) (t : KeyTable) (c : Key) :
    (t.serve r).1.find? c = Option.merge KeySet.union
      (if r.forgets c then none else t.find? c) (gather (r.batches c)) := by
  cases r with
  | insert k fine =>
      rw [serve, insert, merge_comm, find?_merge, find?_single]
      by_cases here : k = c
      · simp [Request.forgets, Request.batches, gather, here]
      · simp [Request.forgets, Request.batches, gather, here, Ne.symm here]
  | remove k =>
      rw [serve, find?_erase]
      by_cases here : k = c
      · simp [Request.forgets, Request.batches, gather, here]
      · simp [Request.forgets, Request.batches, gather, here, Ne.symm here]
  | extend pairs =>
      rw [serve, extend, find?_merge, find?_ofPairs]
      rfl
  | collect pairs =>
      rw [serve, find?_ofPairs]
      simp [Request.forgets, Request.batches]
  | invert => exact absurd rfl plain
  | _ => simp [serve, Request.forgets, Request.batches, gather]

theorem entry_eq_none_iff {c : Key} :
    entry c history = none ↔ ∀ r ∈ since c history, r.batches c = [] := by
  rw [entry, gather_eq_none_iff, List.flatMap_eq_nil_iff]

theorem mem_of_entry {c : Key} {fine : KeySet} (left : entry c history = some fine) (f : Key) :
    f ∈ fine ↔ ∃ r ∈ since c history, ∃ batch ∈ r.batches c, f ∈ batch := by
  simp only [mem_of_gather left, List.mem_flatMap]
  constructor
  · rintro ⟨batch, ⟨r, recent, put⟩, mem⟩
    exact ⟨r, recent, batch, put, mem⟩
  · rintro ⟨r, recent, batch, put, mem⟩
    exact ⟨batch, ⟨r, recent, put⟩, mem⟩

theorem since_concat (c : Key) (history : List Request) (r : Request) :
    since c (history ++ [r]) = if r.forgets c then [r] else since c history ++ [r] := by
  induction history with
  | nil => simp [since]
  | cons r' history ih =>
      rw [List.cons_append, since, since, ih, List.any_append, List.any_cons, List.any_nil,
        Bool.or_false]
      by_cases last : r.forgets c = true
      · simp [last]
      · by_cases before : history.any (·.forgets c) = true <;> simp [last, before]

theorem entry_concat (c : Key) (history : List Request) (r : Request) :
    entry c (history ++ [r]) = Option.merge KeySet.union
      (if r.forgets c then none else entry c history) (gather (r.batches c)) := by
  rw [entry, since_concat, entry]
  split
  · simp
  · rw [List.flatMap_append, gather_append, List.flatMap_singleton]

/-- Under each coarse key a table has what its history leaves there. -/
theorem find?_after (plain : Request.invert ∉ history) (c : Key) :
    (after ∅ history).find? c = entry c history := by
  induction history using List.reverseRecOn with
  | nil => rfl
  | append_singleton history r ih =>
      rw [List.mem_append, List.mem_singleton, not_or] at plain
      rw [after_append, after_singleton, find?_serve (Ne.symm plain.2), ih plain.1, entry_concat]

theorem size_eq_encard (t : KeyTable) : (t.size : ℕ∞) = {c | t.find? c ≠ none}.encard := by
  have found : {c | t.find? c ≠ none} = ((t.entries.map Prod.fst).toFinset : Set Key) := by
    ext c
    simp [Option.ne_none_iff_exists', find?_eq_some_iff]
  have distinct : (t.entries.map Prod.fst).Nodup :=
    List.pairwise_map.mpr (t.ascending.imp Key.ne_of_lt)
  rw [found, Set.encard_coe_eq_coe_finsetCard, List.toFinset_card_of_nodup distinct,
    List.length_map, size]

theorem ofPairs_perm {pairs pairs' : List (Key × List Key)} (perm : pairs.Perm pairs') :
    ofPairs pairs = ofPairs pairs' := by
  apply ext_find?
  intro c
  rw [find?_ofPairs, find?_ofPairs]
  exact gather_perm ((perm.filter _).map _)

theorem after_map_extend (t : KeyTable) (pieces : List (List (Key × List Key))) :
    t.after (pieces.map .extend) = t.extend pieces.flatten := by
  induction pieces generalizing t with
  | nil => exact (extend_nil t).symm
  | cons piece pieces ih =>
      calc t.after ((piece :: pieces).map .extend)
          = (t.extend piece).after (pieces.map .extend) := rfl
        _ = (t.extend piece).extend pieces.flatten := ih _
        _ = t.extend (piece :: pieces).flatten := by
            simp only [extend_eq_foldl, List.flatten_cons, List.foldl_append]

/-- A table is determined by its history, one coarse key after another. After any requests but
inversions, what is found under a key, and returned by its removal, is what the history left there:
nothing if no batch was put there since the key was last forgotten, and else the keys of all batches
since then. The size is the number of keys under which something is left. So two histories make the
same table if and only if they leave the same under every key; in particular pairs may come in any
order, and piece by piece. -/
theorem history_determines (plain : Request.invert ∉ history) :
    (∀ c, (after ∅ history).find? c = entry c history ∧
      (entry c history = none ↔ ∀ r ∈ since c history, r.batches c = []) ∧
      (∀ fine, entry c history = some fine →
        ∀ f, f ∈ fine ↔ ∃ r ∈ since c history, ∃ batch ∈ r.batches c, f ∈ batch) ∧
      (after ∅ history).answer c = .ok (entry c history) ∧
      serveAll ∅ (history ++ [.find c]) =
        serveAll ∅ history ++ [(after ∅ history, .keys (entry c history))] ∧
      serveAll ∅ (history ++ [.remove c]) =
        serveAll ∅ history ++ [(after ∅ (history ++ [.remove c]), .keys (entry c history))]) ∧
    (after ∅ history).size = {c | entry c history ≠ none}.encard ∧
    (∀ history', Request.invert ∉ history' →
      (after ∅ history = after ∅ history' ↔ ∀ c, entry c history = entry c history')) ∧
    (∀ pairs pairs' : List (Key × List Key), pairs.Perm pairs' → ofPairs pairs = ofPairs pairs') ∧
    ∀ (pieces : List (List (Key × List Key))) (pairs : List (Key × List Key)),
      pieces.flatten.Perm pairs → after ∅ (pieces.map .extend) = ofPairs pairs ∧
        after ∅ (history ++ pieces.map .extend) = (after ∅ history).extend pairs := by
  have found := find?_after plain
  refine ⟨fun c => ⟨found c, entry_eq_none_iff, fun _ => mem_of_entry, ?_, ?_, ?_⟩,
    ?_, ?_, fun _ _ => ofPairs_perm, ?_⟩
  · rw [answer, found]
  · rw [serveAll_append, ← found]
    rfl
  · rw [serveAll_append, ← found, after_append]
    rfl
  · simp only [size_eq_encard, found]
  · intro history' plain'
    constructor
    · intro same c
      rw [← found, ← find?_after plain', same]
    · intro same
      apply ext_find?
      intro c
      rw [found, find?_after plain', same]
  · intro pieces pairs perm
    have all : ofPairs pieces.flatten = ofPairs pairs := ofPairs_perm perm
    constructor
    · rw [after_map_extend, empty_extend, all]
    · rw [after_append, after_map_extend, extend, extend, all]

/-- The entry of `1` is removed and made again without a key, that of `3` is removed, and `2` has
one key from the beginning and another one from later. Two insertions make the same table. -/
theorem history_determines_remade :
    let history : List Request := [.collect [(.int 1, [.int 10]), (.int 2, [.int 20])],
      .remove (.int 1), .extend [(.int 3, [.int 30]), (.int 2, [.int 21, .int 20])],
      .insert (.int 1) [], .remove (.int 3)]
    let history' : List Request := [.insert (.int 2) [.int 21, .int 20], .insert (.int 1) []]
    let pieces : List (List (Key × List Key)) := [[(.int 2, [.int 20])], [(.int 1, [])]]
    let pairs : List (Key × List Key) := [(.int 1, []), (.int 2, [.int 20])]
    Request.invert ∉ history ∧ Request.invert ∉ history' ∧ pieces.flatten.Perm pairs ∧
      (after ∅ history).find? (.int 1) = some ∅ ∧
      (after ∅ history).find? (.int 2) = some (.ofList [.int 20, .int 21]) ∧
      (after ∅ history).find? (.int 3) = none ∧
      (∀ c, entry c history = entry c history') ∧
      ofPairs pieces.flatten = ofPairs pairs ∧ after ∅ (pieces.map .extend) = ofPairs pairs := by
  intro history history' pieces pairs
  have plain : Request.invert ∉ history := by simp [history]
  have plain' : Request.invert ∉ history' := by simp [history']
  have perm : pieces.flatten.Perm pairs := .swap ..
  obtain ⟨found, -, same, order, inPieces⟩ := history_determines plain
  refine ⟨plain, plain', perm, (found _).1.trans ?_, (found _).1.trans ?_, (found _).1.trans ?_,
    (same history' plain').mp ?_, order _ _ perm, (inPieces pieces pairs perm).1⟩
  all_goals decide +kernel

end HighlightSync.KeyTable
