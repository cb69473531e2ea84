import HighlightSync.Proofs.Sweeping

/-!
# Two handlers that are linked both ways by a table

A table relates coarse keys to fine keys, and its inverse relates them the other way
(`KeyTable.relates_inverse`). When two handlers are linked by a translator with the table and
another one back with its inverse, each call that moves keys on either of them goes to and fro,
through all keys that are related to moved ones. It always comes to an end, and the two sets
agree then: a coarse key is highlighted on one handler exactly when any fine key related to it
is highlighted on the other (`saturated_of_twoWay`).
-/

namespace HighlightSync

namespace KeyTable

/-- The fine key stands behind the coarse key. -/
def Relates (t : KeyTable) (c f : Key) : Prop := ∃ fine, t.find? c = some fine ∧ f ∈ fine

variable {t u : KeyTable} {c f : Key}

theorem relates_merge : (t.merge u).Relates c f ↔ t.Relates c f ∨ u.Relates c f := by
  simp only [Relates, find?_merge]
  cases t.find? c <;> cases u.find? c <;> simp [Option.merge]

theorem relates_single {k : Key} {fine : KeySet} :
    (single k fine).Relates c f ↔ c = k ∧ f ∈ fine := by
  simp only [Relates, find?_single]
  by_cases same : c = k <;> simp [same]

theorem relates_ofPairs {pairs : List (Key × List Key)} :
    (ofPairs pairs).Relates c f ↔ ∃ p ∈ pairs, c = p.1 ∧ f ∈ p.2 := by
  suffices go : ∀ t : KeyTable,
      ((pairs.map fun p => single p.1 (.ofList p.2)).foldl merge t).Relates c f ↔
        t.Relates c f ∨ ∃ p ∈ pairs, c = p.1 ∧ f ∈ p.2 by
    rw [ofPairs_eq_foldl, go]
    exact or_iff_right (by simp [Relates])
  induction pairs with
  | nil => simp
  | cons p pairs ih =>
      intro t
      rw [List.map_cons, List.foldl_cons, ih, relates_merge, relates_single, or_assoc]
      simp

theorem mem_of_ascending {α : Type} {key : α → Key} {xs : List α} {x : α}
    (ascending : xs.Pairwise (key · < key ·)) (mem : x ∈ xs) :
    Ascending.find? key (key x) xs = some x := by
  induction xs with
  | nil => cases mem
  | cons y ys ih =>
      rw [List.pairwise_cons] at ascending
      rw [Ascending.find?_cons]
      obtain rfl | later := List.mem_cons.mp mem
      · exact if_pos rfl
      · rw [if_neg (Key.ne_of_lt (ascending.1 x later)), ih ascending.2 later]

theorem relates_iff_mem : t.Relates c f ↔ ∃ e ∈ t.entries, e.1 = c ∧ f ∈ e.2 := by
  constructor
  · rintro ⟨fine, found, mem⟩
    obtain ⟨e, entry, rfl⟩ := Option.map_eq_some_iff.mp found
    exact ⟨e, List.mem_of_find?_eq_some entry, Ascending.key_of_find? entry, mem⟩
  · rintro ⟨e, entry, rfl, mem⟩
    exact ⟨e.2, by rw [find?, mem_of_ascending t.ascending entry]; rfl, mem⟩

/-- The inverse relates what the table relates, the other way. -/
theorem relates_inverse : t.inverse.Relates f c ↔ t.Relates c f := by
  rw [inverse, relates_ofPairs, relates_iff_mem]
  simp only [swappedPairs, List.mem_flatMap, List.mem_map]
  constructor
  · rintro ⟨p, ⟨e, entry, f, mem, rfl⟩, rfl, coarse⟩
    exact ⟨e, entry, (List.mem_singleton.mp coarse).symm, mem⟩
  · rintro ⟨e, entry, rfl, mem⟩
    exact ⟨_, ⟨e, entry, f, mem, rfl⟩, rfl, List.mem_singleton_self _⟩

/-- All keys that occur in a table. -/
def allKeys (t : KeyTable) : List Key := t.entries.flatMap fun e => e.1 :: e.2.toList

theorem Relates.mem_allKeys (h : t.Relates c f) : c ∈ t.allKeys ∧ f ∈ t.allKeys := by
  obtain ⟨e, entry, rfl, mem⟩ := relates_iff_mem.mp h
  exact ⟨List.mem_flatMap.mpr ⟨e, entry, List.mem_cons_self⟩,
    List.mem_flatMap.mpr ⟨e, entry, List.mem_cons_of_mem _ mem⟩⟩

end KeyTable

namespace Layout

/-- What stands on one of two handlers that are linked both ways: the source link of the
translator to the other, which works by a table, the reset link of the translator back, and
otherwise only views that only ask. -/
structure Faces (L : Layout) (t u : TranslatorId) (table : KeyTable) (a b : HandlerId) : Prop where
  translator : ∃ s m, L.translator? t = some s ∧ s.live = true ∧ s.source = a ∧
    s.targetHandlers = [b] ∧ s.mapper = some m ∧ L.mapper m = some (.ofSpec (.table table))
  attended : L.Attended a [.sourceLink t, .resetLink u]

/-- One translator leads from a handler to another by a table, one leads back by its inverse,
and nobody else who is registered on the two does anything but ask. -/
structure TwoWay (L : Layout) (t u : TranslatorId) (table : KeyTable) (a b : HandlerId) :
    Prop where
  there : L.Faces t u table a b
  back : L.Faces u t table.inverse b a

theorem mem_fine_table {L : Layout} {m : MapperId} {table : KeyTable}
    (known : L.mapper m = some (.ofSpec (.table table))) {k j : Key} :
    j ∈ L.fine m k ↔ table.Relates k j := by
  have answered : L.answer m k = .ok (table.find? k) := by
    rw [answer, known]
    rfl
  rw [fine, answered, KeyTable.Relates]
  cases table.find? k <;> simp

theorem pure_table {L : Layout} {m : MapperId} {table : KeyTable}
    (known : L.mapper m = some (.ofSpec (.table table))) : L.Pure m := by
  intro s found
  cases known.symm.trans found
  exact MapperState.pure_table table

namespace Faces

variable {L : Layout} {t u : TranslatorId} {table back : KeyTable} {a b : HandlerId}

theorem leads_fine (h : L.Faces t u table a b) {k j : Key} (related : table.Relates k j) :
    L.Leads (a, some k) (b, some j) := by
  obtain ⟨s, m, found, live, rfl, targets, mapper, known⟩ := h.translator
  exact ⟨_, h.attended.registered (.sourceLink t) (by simp),
    .fine found live mapper (by simp [targets]) ((mem_fine_table known).mpr related)⟩

theorem leads_down (h : L.Faces t u table a b) : L.Leads (a, none) (b, none) := by
  obtain ⟨s, m, found, live, rfl, targets, -⟩ := h.translator
  exact ⟨_, h.attended.registered (.sourceLink t) (by simp), .down found live (by simp [targets])⟩

/-- From one handler all links lead to the other. -/
theorem leads_cases (h : L.Faces t u table a b) (g : L.Faces u t back b a) {y : Option Key}
    {x : Spot} (leads : L.Leads (a, y) x) :
    x = (b, none) ∨ ∃ k j, table.Relates k j ∧ x = (b, some j) := by
  obtain ⟨s, m, found, -, -, targets, mapper, known⟩ := h.translator
  obtain ⟨s', -, found', -, source, -⟩ := g.translator
  obtain ⟨l, link, passes⟩ := h.attended.exists_passes leads
  obtain rfl | rfl : l = .sourceLink t ∨ l = .resetLink u := by simpa using link
  · cases passes with
    | fine found₁ _ mapper₁ target fine =>
        cases found.symm.trans found₁
        cases mapper.symm.trans mapper₁
        rw [targets] at target
        exact .inr ⟨_, _, (mem_fine_table known).mp fine, by rw [List.mem_singleton.mp target]⟩
    | down found₁ _ target =>
        cases found.symm.trans found₁
        rw [targets] at target
        exact .inl (by rw [List.mem_singleton.mp target])
  · cases passes with
    | back found₁ _ =>
        cases found'.symm.trans found₁
        exact .inl (by rw [source])

theorem works (h : L.Faces t u table a b) :
    L.Works (.sourceLink t) ∧ L.Works (.resetLink t) := by
  obtain ⟨s, m, found, live, -, -, mapper, known⟩ := h.translator
  have pure : ∀ m', s.mapper = some m' → L.Pure m' := by
    intro m' mapper'
    cases mapper.symm.trans mapper'
    exact pure_table known
  exact ⟨⟨t, s, rfl, found, live, pure⟩, ⟨t, s, rfl, found, live, pure⟩⟩

end Faces

namespace TwoWay

variable {L : Layout} {t u : TranslatorId} {table : KeyTable} {a b : HandlerId}

/-- The spots of the two handlers that calls with some keys can come to. -/
def region (table : KeyTable) (a b : HandlerId) (keys : List Key) : List Spot :=
  (none :: (keys ++ table.allKeys).map some).flatMap fun y => [(a, y), (b, y)]

theorem mem_region {keys : List Key} {x : Spot} :
    x ∈ region table a b keys ↔
      (x.1 = a ∨ x.1 = b) ∧ (x.2 = none ∨ ∃ k, (k ∈ keys ∨ k ∈ table.allKeys) ∧ x.2 = some k) := by
  obtain ⟨h, y⟩ := x
  simp only [region, List.mem_flatMap, List.mem_cons, List.mem_map, List.mem_append,
    List.not_mem_nil, or_false, Prod.mk.injEq]
  constructor
  · rintro ⟨z, spot, ⟨rfl, rfl⟩ | ⟨rfl, rfl⟩⟩
    · exact ⟨.inl rfl, spot.imp_right fun ⟨k, mem, same⟩ => ⟨k, mem, same.symm⟩⟩
    · exact ⟨.inr rfl, spot.imp_right fun ⟨k, mem, same⟩ => ⟨k, mem, same.symm⟩⟩
  · rintro ⟨here, spot⟩
    exact ⟨y, spot.imp_right fun ⟨k, mem, same⟩ => ⟨k, mem, same.symm⟩,
      here.imp (fun same => ⟨same, rfl⟩) fun same => ⟨same, rfl⟩⟩

theorem sweepable (linked : L.TwoWay t u table a b) (keys : List Key) :
    L.Sweepable (region table a b keys) := by
  refine .of_attended ?_ ?_
  · rintro ⟨h, y⟩ inside x leads
    obtain ⟨rfl | rfl, -⟩ := mem_region.mp inside
    · obtain rfl | ⟨k, j, related, rfl⟩ := linked.there.leads_cases linked.back leads
      · exact mem_region.mpr ⟨.inr rfl, .inl rfl⟩
      · exact mem_region.mpr ⟨.inr rfl, .inr ⟨j, .inr related.mem_allKeys.2, rfl⟩⟩
    · obtain rfl | ⟨k, j, related, rfl⟩ := linked.back.leads_cases linked.there leads
      · exact mem_region.mpr ⟨.inl rfl, .inl rfl⟩
      · exact mem_region.mpr ⟨.inl rfl, .inr ⟨j,
          .inr (KeyTable.relates_inverse.mp related).mem_allKeys.1, rfl⟩⟩
  · rintro ⟨h, y⟩ inside
    obtain ⟨rfl | rfl, -⟩ := mem_region.mp inside
    · exact ⟨_, linked.there.attended, ⟨_, List.mem_cons_self⟩,
        by simp [linked.there.works.1, linked.back.works.2]⟩
    · exact ⟨_, linked.back.attended, ⟨_, List.mem_cons_self⟩,
        by simp [linked.back.works.1, linked.there.works.2]⟩

end TwoWay

end Layout

namespace World

/-- A coarse key is highlighted on the one handler exactly when a fine key that is related to
it is highlighted on the other. -/
def Saturated (table : KeyTable) (a b : HandlerId) (w : World) : Prop :=
  ∀ c f, table.Relates c f → (c ∈ w.keysOf a ↔ f ∈ w.keysOf b)

variable {table : KeyTable} {a b : HandlerId} {t u : TranslatorId} {w v : World}

theorem saturated_iff (d : Direction) :
    w.Saturated table a b ↔ ∀ c f, table.Relates c f →
      (¬ w.Ripe d.kind (a, some c) ↔ ¬ w.Ripe d.kind (b, some f)) := by
  refine forall_congr' fun c => forall_congr' fun f => imp_congr_right fun _ => ?_
  cases d with
  | highlight => exact not_iff_not.symm.trans not_iff_not.symm
  | unhighlight => exact not_iff_not.symm

theorem Saturated.of_move {d : Direction} {region : List Spot} {offered : Spot → Prop}
    (saturated : w.Saturated table a b) (linked : w.layout.TwoWay t u table a b)
    (swept : w.Swept d.kind region offered v) (unrefused : v.refusals = w.refusals) :
    v.Saturated table a b := by
  rw [saturated_iff d] at saturated ⊢
  intro c f related
  have before := saturated c f related
  exact ⟨swept.settles unrefused (linked.there.leads_fine related) before.mp,
    swept.settles unrefused (linked.back.leads_fine (KeyTable.relates_inverse.mpr related))
      before.mpr⟩

/-- A reset empties both handlers, or neither. -/
theorem Saturated.of_reset {region : List Spot} {offered : Spot → Prop}
    (saturated : w.Saturated table a b) (linked : w.layout.TwoWay t u table a b)
    (swept : w.Swept .reset region offered v) (unrefused : v.refusals = w.refusals) :
    v.Saturated table a b := by
  -- Whichever of the two is emptied leads to the other.
  have both : ∀ g h, w.layout.Leads (g, none) (h, none) → w.Ripe .reset (g, none) →
      ¬ v.Ripe .reset (g, none) → v.keysOf g = ∅ ∧ v.keysOf h = ∅ :=
    fun g h leads before after => ⟨Classical.not_not.mp after,
      Classical.not_not.mp (swept.closed unrefused _ _ before after leads)⟩
  have empty : v.keysOf a = ∅ → v.keysOf b = ∅ → v.Saturated table a b := by
    intro emptyA emptyB c f _
    rw [emptyA, emptyB]
    exact iff_of_false (KeySet.not_mem_empty c) (KeySet.not_mem_empty f)
  by_cases clearsA : w.Ripe .reset (a, none) → v.Ripe .reset (a, none)
  · by_cases clearsB : w.Ripe .reset (b, none) → v.Ripe .reset (b, none)
    · intro c f related
      rw [swept.keysOf_eq clearsA, swept.keysOf_eq clearsB]
      exact saturated c f related
    · obtain ⟨before, after⟩ := Classical.not_imp.mp clearsB
      obtain ⟨emptyB, emptyA⟩ := both b a linked.back.leads_down before after
      exact empty emptyA emptyB
  · obtain ⟨before, after⟩ := Classical.not_imp.mp clearsA
    obtain ⟨emptyA, emptyB⟩ := both a b linked.there.leads_down before after
    exact empty emptyA emptyB

end World

namespace Config

variable {table : KeyTable} {a b : HandlerId} {t u : TranslatorId} {w : World}

/-- A call on either handler comes to an end and upholds that the two sets are saturated. -/
theorem ends_begin_twoWay (linked : w.layout.TwoWay t u table a b) {call : Call}
    (own : call.handler = a ∨ call.handler = b) (stack : List Frame) :
    Ends (fun v => v.layout.TwoWay t u table a b ∧ w.Upholds (World.Saturated table a b) v)
      (call.begin w stack) stack := by
  cases call with
  | move d h keys =>
      have inside : ∀ x, Given h keys x → x ∈ Layout.TwoWay.region table a b keys := by
        rintro ⟨g, y⟩ ⟨rfl, k, mem, rfl⟩
        exact Layout.TwoWay.mem_region.mpr ⟨own, .inr ⟨k, .inl mem, rfl⟩⟩
      refine (sweeps_call (linked.sweepable keys) (.move d h keys)
        (fun x given _ => inside x given) stack).mono fun v swept => ?_
      exact ⟨swept.layout ▸ linked, swept.refusals, fun unrefused saturated =>
        saturated.of_move linked swept unrefused⟩
  | reset h =>
      have inside : (h, none) ∈ Layout.TwoWay.region table a b [] :=
        Layout.TwoWay.mem_region.mpr ⟨own, .inl rfl⟩
      refine (sweeps_call (linked.sweepable []) (.reset h)
        (fun x given _ => given ▸ inside) stack).mono fun v swept => ?_
      exact ⟨swept.layout ▸ linked, swept.refusals, fun unrefused saturated =>
        saturated.of_reset linked swept unrefused⟩

/-- Two handlers that are linked both ways by a table, and were empty at first, agree after
every row of calls on them: each call comes to an end, and if none was refused, a coarse key
is highlighted on the one exactly when a fine key that stands behind it is highlighted on the
other. -/
theorem saturated_of_twoWay (linked : w.layout.TwoWay t u table a b) (emptyA : w.keysOf a = ∅)
    (emptyB : w.keysOf b = ∅) (calls : List Call)
    (own : ∀ call ∈ calls, call.handler = a ∨ call.handler = b) :
    ∃ w', Served Call.begin calls w w' ∧ (w'.refusals = w.refusals →
      ∀ c f, table.Relates c f → (c ∈ w'.keysOf a ↔ f ∈ w'.keysOf b)) := by
  have start : w.Saturated table a b := by
    intro c f _
    rw [emptyA, emptyB]
    exact iff_of_false (KeySet.not_mem_empty c) (KeySet.not_mem_empty f)
  obtain ⟨w', served, -, upheld⟩ := exists_served (f := fun s _ => s) (s := ())
    (fun call mem _ v linked => ends_begin_twoWay linked (own call mem) []) linked
  exact ⟨w', served, fun unrefused => upheld.lasts unrefused start⟩

section Examples

/-- A table of two coarse keys that share a fine key. -/
def sharing : KeyTable :=
  .ofPairs [(.int 1, [.int 10, .int 11]), (.int 2, [.int 11, .int 12])]

/-- Two handlers that are linked both ways by a table, one of them with a view. -/
def twins : List (Action Op) :=
  [.createHandler "a" .plain, .createHandler "b" .plain, .createListener "v" onlooker,
    .addListener "a" "v", .createTranslator "ab" "a" (some (.table sharing)), .addTarget "ab" "b",
    .createTranslator "ba" "b" (some (.table sharing.inverse)), .addTarget "ba" "a"]

theorem twoWay_twins : (World.built twins).layout.TwoWay ⟨1⟩ ⟨2⟩ sharing ⟨1⟩ ⟨2⟩ := by
  have behaves : (World.built twins).layout.behavior "v" = some (.ofSpec onlooker) := rfl
  have asks : (World.built twins).layout.Asks "v" := by
    intro b found ran e ops script
    cases behaves.symm.trans found
    simp [Behavior.ofSpec, onlooker] at script
  have onA : (World.built twins).layout.listeners ⟨1⟩ =
      [.view "v", .sourceLink ⟨1⟩, .resetLink ⟨2⟩] := by decide +kernel
  have onB : (World.built twins).layout.listeners ⟨2⟩ = [.resetLink ⟨1⟩, .sourceLink ⟨2⟩] := by
    decide +kernel
  refine ⟨⟨?_, ⟨?_, ?_⟩⟩, ⟨?_, ⟨?_, ?_⟩⟩⟩
  · exact ⟨⟨⟨1⟩, ⟨2, 1⟩, [⟨⟨2⟩, ⟨1, 1⟩⟩], some ⟨1⟩, true⟩, ⟨1⟩, rfl, rfl, rfl, rfl, rfl, rfl⟩
  · simp [onA]
  · simp [onA, asks]
  · exact ⟨⟨⟨2⟩, ⟨2, 1⟩, [⟨⟨1⟩, ⟨3, 1⟩⟩], some ⟨2⟩, true⟩, ⟨2⟩, rfl, rfl, rfl, rfl, rfl, rfl⟩
  · simp [onB]
  · simp [onB]

/-- A key that is highlighted on one of the twins comes to both fine keys of the other coarse
key, by way of the fine key that they share. -/
theorem saturated_of_twoWay_twins :
    ∃ w', Served Call.begin [.move .highlight ⟨1⟩ [.int 1]] (.built twins) w' ∧
      .int 2 ∈ w'.keysOf ⟨1⟩ ∧ .int 12 ∈ w'.keysOf ⟨2⟩ := by
  obtain ⟨w', served, saturated⟩ := saturated_of_twoWay twoWay_twins (by decide +kernel)
    (by decide +kernel) [.move .highlight ⟨1⟩ [.int 1]] (by simp [Call.handler])
  have serves : (serve Call.begin 300 [.move .highlight ⟨1⟩ [.int 1]] (.built twins)).any
      (fun v => decide (.int 2 ∈ v.keysOf ⟨1⟩) &&
        decide (v.refusals = (World.built twins).refusals)) = true := by
    decide +kernel
  obtain ⟨v, found, seen⟩ := (Option.any_eq_true _ _).mp serves
  cases served.eq_of_serve found
  rw [Bool.and_eq_true, decide_eq_true_eq, decide_eq_true_eq] at seen
  have related : sharing.Relates (.int 2) (.int 12) :=
    KeyTable.relates_ofPairs.mpr ⟨(.int 2, [.int 11, .int 12]), by simp, rfl, by simp⟩
  exact ⟨w', served, seen.1, (saturated seen.2 _ _ related).mp seen.1⟩

end Examples

end Config

end HighlightSync
