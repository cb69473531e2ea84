import HighlightSync.Proofs.Guarded
import HighlightSync.Proofs.Sweep
import Mathlib.Data.Set.Card
import Mathlib.Data.Set.Finite.Lattice

/-!
# Cascades settle without depth limits

Nothing in a cascade counts down, and its wiring may have cycles. But a call goes deeper only
when it has really moved a key, and that key cannot be moved again while the cascade goes on,
on whatever branch. So the spots that are ripe bound the depth: those of a finite region that
cannot be left are counted, and each level below a call begins with fewer of them
(`endsWithin_of_left`).

For unhighlighting the highlighted keys of all handlers are such a region, whatever mappers
answer. For highlighting it is what can be reached, if that is finite; with tables it always
is (`ends_of_settling`).
-/

namespace HighlightSync

namespace Layout

/-- A translator that is linked to the handler of the first spot may forward its key as the
second. -/
def MayLead (L : Layout) (x y : Spot) : Prop :=
  ∃ t s m k j, .sourceLink t ∈ L.listeners x.1 ∧ L.translator? t = some s ∧ s.mapper = some m ∧
    y.1 ∈ s.targetHandlers ∧ x.2 = some k ∧ y.2 = some j ∧ L.Yields m k j

variable {L : Layout} {x y : Spot}

theorem MayLead.feeds (leads : L.MayLead x y) : L.Feeds x.1 y.1 := by
  obtain ⟨t, s, -, -, -, registered, found, -, target, -⟩ := leads
  exact ⟨t, s, registered, found, target⟩

theorem Forwards.exists_mayLead {h g : HandlerId} {moved keys : KeySet}
    (forwards : L.Forwards h moved g keys) {j : Key} (mem : j ∈ keys) :
    ∃ k ∈ moved, L.MayLead (h, some k) (g, some j) := by
  obtain ⟨t, s, m, registered, found, mapper, target, yields⟩ := forwards
  obtain ⟨k, moves, yielded⟩ := yields j mem
  exact ⟨k, moves, t, s, m, k, j, registered, found, mapper, target, rfl, rfl, yielded⟩

theorem Steady.mem_fine (steady : L.Steady) {m : MapperId} {k j : Key} (h : L.Yields m k j) :
    j ∈ L.fine m k := by
  obtain ⟨s, n, fine, found, answers, mem⟩ := h
  have first : L.answer m k = .ok (some fine) := by
    rw [answer, found, Option.elim_some, steady m s found 0 n k, answers]
  rw [Layout.fine, first]
  exact mem

theorem yields_of_mem_fine {m : MapperId} {k j : Key} (h : j ∈ L.fine m k) : L.Yields m k j := by
  rw [Layout.fine] at h
  split at h
  · rename_i fine answers
    rw [answer] at answers
    cases found : L.mapper m with
    | none =>
        rw [found] at answers
        cases answers
    | some s =>
        rw [found] at answers
        exact ⟨s, 0, fine, found, answers, h⟩
  · exact absurd h (KeySet.not_mem_empty j)

theorem Steady.leads {w : World} (steady : w.layout.Steady) (sound : w.Sound)
    (orderly : w.Orderly) {x y : Spot} (h : w.layout.MayLead x y) : w.layout.Leads x y := by
  obtain ⟨g, i⟩ := y
  obtain ⟨t, s, m, k, j, mem, found, mapper, target, origin, rfl, yields⟩ := h
  refine ⟨.sourceLink t, mem, ?_⟩
  rw [Config.listeners_layout] at mem
  obtain ⟨live, -⟩ := orderly.exists_keeps sound found rfl mem
  rw [origin]
  exact .fine found live mapper target (steady.mem_fine yields)

end Layout

namespace World

/-- The layout is that of an earlier world, no more spots are ripe, and not many in a region. -/
structure Settling (κ : ChangeKind) (region : List Spot) (w : World) (m : Nat) (v : World) :
    Prop where
  layout : v.layout = w.layout
  shrinks : ∀ x, v.Ripe κ x → w.Ripe κ x
  few : v.left κ region ≤ m

namespace Settling

variable {κ : ChangeKind} {region : List Spot} {w v u : World} {m n : Nat}

theorem stable : Config.Stable (w.Settling κ region m) := by
  intro v u layout keys settling
  have ripe : u.Ripe κ = v.Ripe κ := by
    funext x
    rw [Ripe, keys, Ripe]
  have left : u.left κ region = v.left κ region := by
    simp only [World.left, ripe]
  exact ⟨layout.trans settling.layout, ripe ▸ settling.shrinks, left ▸ settling.few⟩

theorem mono (h : w.Settling κ region m v) (more : m ≤ n) : w.Settling κ region n v :=
  ⟨h.layout, h.shrinks, h.few.trans more⟩

end Settling

end World

namespace Config

theorem Quiet.settling {w : World} (views : w.IdleViews) (mappers : w.IdleMappers)
    (κ : ChangeKind) (region : List Spot) (m : Nat) :
    Quiet w.layout (w.Settling κ region m) where
  stable := .stable
  layout _ settling := settling.layout
  views _ settling := views.of_layout settling.layout
  mappers _ settling := mappers.of_layout settling.layout

/-- A call that moves keys ends within a depth which leaves one level for each ripe spot of a
region, if the keys it may really move are in the region and nothing leads out of it. -/
theorem endsWithin_of_left {w : World} (sound : w.Sound) (views : w.IdleViews)
    (mappers : w.IdleMappers) {d : Direction} {region : List Spot}
    (closed : ∀ x ∈ region, ∀ y, w.layout.MayLead x y → w.Ripe d.kind y → y ∈ region) {N : Nat}
    (m k : Nat) (deep : k + 1 + m ≤ N) {h : HandlerId} (present : (w.handler? h).isSome = true)
    (filter : Option Presence) (keys : List Key)
    (inside : ∀ i ∈ keys, w.Ripe d.kind (h, some i) → (h, some i) ∈ region) {v : World}
    (hv : At (w.Settling d.kind region m) k v) (stack : List Frame) :
    EndsWithin N (At (w.Settling d.kind region m) k) stack
      (openMove d h ⟨filter, keys.map .key⟩ v stack) := by
  have quiet := Quiet.settling views mappers d.kind region
  induction m using Nat.strong_induction_on generalizing k h filter keys v stack with
  | h m ih =>
    refine endsWithin_openMove (quiet m) (quiet (m - 1))
      (fun v settling => settling.mono (Nat.sub_le m 1)) (by omega)
      (fun _ => ⟨by omega, fun v moved settling proper given => ?_⟩) hv stack
    have here : (v.handler? h).isSome = true := by
      rw [World.handler?_isSome_of_layout settling.layout]
      exact present
    have visits : ∀ i ∈ moved, (h, some i) ∈ region := fun i mem =>
      inside i (given i mem) (settling.shrinks _
        (Change.Proper.ripe (c := .move d moved) proper (decide_eq_true mem)))
    -- A key has really moved, so there is one ripe spot less below.
    obtain ⟨i, mem⟩ := KeySet.exists_mem proper.1
    have fewer : (v.change h (.move d moved)).left d.kind region < v.left d.kind region :=
      World.left_change_lt here rfl proper (y := some i) (decide_eq_true mem) (visits i mem) rfl
    have few := settling.few
    refine ⟨⟨(v.layout_change h _).trans settling.layout, fun x ripe => ?_, by omega⟩, ?_⟩
    · exact settling.shrinks x ((World.ripe_change_iff (c := .move d moved) here rfl rfl).mp ripe).1
    · intro g forwarded forwards u stack hu
      have target : (w.handler? g).isSome = true := by
        obtain ⟨t, s, -, -, found, -, listed, -⟩ := id forwards
        exact sound.targets t s found g listed
      refine ih (m - 1) (by omega) (k + 1) (by omega) target none forwarded.toList
        (fun j listed ripe => ?_) hu stack
      obtain ⟨i, mem, leads⟩ := forwards.exists_mayLead (KeySet.mem_def.mpr listed)
      exact closed _ (visits i mem) _ leads ripe

/-- An operation that moves keys comes to a reply, at most as deep below its first call as a
region has spots, and the layout stays as it is. -/
theorem ends_of_region {w : World} (sound : w.Sound) (admissible : w.Admissible)
    (flat : w.depth = 0) (views : w.IdleViews) (mappers : w.IdleMappers) (d : Direction)
    {region : List Spot}
    (closed : ∀ x ∈ region, ∀ y, w.layout.MayLead x y → w.Ripe d.kind y → y ∈ region)
    (name : String) (filter : Option Presence) (keys : List Key)
    (inside : ∀ h, w.handlerNamed? name = some h → ∀ i ∈ keys, w.Ripe d.kind (h, some i) →
      (h, some i) ∈ region) :
    (∃ n w' r, Steps n (perform (.move d name ⟨filter, keys.map .key⟩) w []) (answered w' [] r) ∧
        w'.layout = w.layout) ∧
      ∀ n c, Steps n (perform (.move d name ⟨filter, keys.map .key⟩) w []) c →
        c.world.depth ≤ 1 + region.length := by
  have settling : At (w.Settling d.kind region region.length) 0 w :=
    ⟨⟨rfl, fun _ => id, List.countP_le_length⟩, flat⟩
  have within : EndsWithin (1 + region.length) (At (w.Settling d.kind region region.length) 0) []
      (perform (.move d name ⟨filter, keys.map .key⟩) w []) := by
    refine endsWithin_perform (settling.le (Nat.zero_le _)) settling fun h named => ?_
    have present := admissible.present named
    exact endsWithin_of_left sound views mappers closed region.length 0 (by omega) present
      filter keys (inside h named) settling []
  obtain ⟨n, w', r, steps, ends⟩ := within.ends
  exact ⟨⟨n, w', r, steps, ends.holds.layout⟩, fun n c steps => within.depth_le steps⟩

end Config

namespace World

/-- The highlighted keys of all handlers. -/
def lit (w : World) : List Spot :=
  w.existing.flatMap fun h => (w.keysOf h).toList.map fun k => (h, some k)

/-- How many keys are highlighted over all handlers. -/
def highlighted (w : World) : Nat := (w.existing.map fun h => (w.keysOf h).size).sum

theorem length_lit (w : World) : w.lit.length = w.highlighted := by
  simp only [lit, highlighted, List.length_flatMap, List.length_map]
  rfl

theorem mem_lit {w : World} {h : HandlerId} {y : Option Key} (mem : h ∈ w.existing)
    (ripe : w.Ripe .unhighlight (h, y)) : (h, y) ∈ w.lit := by
  cases y with
  | none => cases ripe
  | some k => exact List.mem_flatMap.mpr ⟨h, mem, List.mem_map.mpr ⟨k, ripe, rfl⟩⟩

/-- The keys of handlers that are not highlighted yet and can be reached from given ones of a
handler through such keys. -/
def reachable (w : World) (h : HandlerId) (keys : List Key) : Set Spot :=
  { x | w.layout.Reach (w.Ripe .highlight) (Config.Given h keys) x }

/-- Every mapper answers from a table. -/
def Tabular (w : World) : Prop :=
  ∀ m s, w.mapper? m = some s → ∃ table : KeyTable, ∀ n k, s.answer n k = table.answer k

theorem Tabular.steady {w : World} (tabular : w.Tabular) : w.layout.Steady := by
  intro m s found i j k
  obtain ⟨s', found', rfl⟩ := Option.map_eq_some_iff.mp found
  obtain ⟨table, answers⟩ := tabular m s' found'
  exact (answers i k).trans (answers j k).symm

/-- Tables yield finitely many keys. -/
theorem Tabular.finite_yields {w : World} (tabular : w.Tabular) :
    { j | ∃ m k, w.layout.Yields m k j }.Finite := by
  have mappers : { m : MapperId | (w.mapper? m).isSome = true }.Finite := by
    refine ((List.range (w.mappers.size + 1)).map MapperId.mk).finite_toSet.subset fun m there => ?_
    have bound := (Store.get?_isSome_iff.mp there).2
    exact List.mem_map.mpr ⟨m.number, List.mem_range.mpr (by omega), rfl⟩
  have each : ∀ m ∈ { m : MapperId | (w.mapper? m).isSome = true },
      { j | ∃ k, w.layout.Yields m k j }.Finite := by
    intro m there
    obtain ⟨s, found⟩ := Option.isSome_iff_exists.mp there
    obtain ⟨table, answers⟩ := tabular m s found
    refine (table.entries.flatMap fun e => e.2.toList).finite_toSet.subset ?_
    rintro j ⟨k, s', n, fine, found', answered, mem⟩
    obtain ⟨s'', found'', rfl⟩ := Option.map_eq_some_iff.mp found'
    cases found.symm.trans found''
    have listed : table.find? k = some fine := by
      simpa [KeyTable.answer, answers n k] using answered
    obtain ⟨e, entry, rfl⟩ := Option.map_eq_some_iff.mp listed
    exact List.mem_flatMap.mpr ⟨e, List.mem_of_find?_eq_some entry, mem⟩
  refine (mappers.biUnion each).subset ?_
  rintro j ⟨m, k, s, n, fine, found, yields⟩
  have there : (w.mapper? m).isSome = true := by
    obtain ⟨s', found', -⟩ := Option.map_eq_some_iff.mp found
    rw [found']
    rfl
  exact Set.mem_biUnion there ⟨k, s, n, fine, found, yields⟩

/-- What can be reached are keys that were given or that a mapper yields, on handlers that
exist. -/
theorem mem_of_reachable {w : World} (sound : w.Sound) (orderly : w.Orderly) {h g : HandlerId}
    {keys : List Key} {y : Option Key} (reached : (g, y) ∈ w.reachable h keys) :
    g ∈ h :: w.existing ∧ ∃ j, y = some j ∧ (j ∈ keys ∨ ∃ m k, w.layout.Yields m k j) := by
  cases reached with
  | root given ripe =>
      obtain ⟨rfl, k, mem, rfl⟩ := given
      exact ⟨List.mem_cons_self, k, rfl, .inl mem⟩
  | @step x _ reached leads ripe =>
      obtain ⟨_, z⟩ := x
      obtain ⟨l, mem, passes⟩ := leads
      cases passes with
      | @fine t s m target k j found live mapper listed yields =>
          have known := mem_existing_of_feeds sound orderly ⟨t, s, mem, found, listed⟩
          exact ⟨List.mem_cons_of_mem h known, j, rfl,
            .inr ⟨m, k, Layout.yields_of_mem_fine yields⟩⟩
      | down => cases ripe
      | back => cases ripe

theorem Tabular.finite_reachable {w : World} (tabular : w.Tabular) (sound : w.Sound)
    (orderly : w.Orderly) (h : HandlerId) (keys : List Key) : (w.reachable h keys).Finite := by
  have handlers := (h :: w.existing).finite_toSet
  have offered := keys.finite_toSet.union tabular.finite_yields
  refine ((handlers.prod offered).image fun p => (p.1, some p.2)).subset ?_
  rintro ⟨g, y⟩ reached
  obtain ⟨known, j, rfl, offers⟩ := mem_of_reachable sound orderly reached
  exact ⟨(g, j), ⟨known, offers⟩, rfl⟩

end World

namespace Config

/-- Every unhighlight comes to a reply, at most as deep below its first call as there are keys
highlighted over all handlers. -/
theorem ends_unhighlight {w : World} (sound : w.Sound) (orderly : w.Orderly)
    (admissible : w.Admissible) (flat : w.depth = 0) (views : w.IdleViews)
    (mappers : w.IdleMappers) (name : String) (filter : Option Presence) (keys : List Key) :
    (∃ n w' r, Steps n (perform (.move .unhighlight name ⟨filter, keys.map .key⟩) w [])
        (answered w' [] r) ∧ w'.layout = w.layout) ∧
      ∀ n c, Steps n (perform (.move .unhighlight name ⟨filter, keys.map .key⟩) w []) c →
        c.world.depth ≤ 1 + w.highlighted := by
  rw [← w.length_lit]
  refine ends_of_region sound admissible flat views mappers .unhighlight ?_ name filter keys ?_
  · intro x _ y leads ripe
    exact World.mem_lit (World.mem_existing_of_feeds sound orderly leads.feeds) ripe
  · intro h named i _ ripe
    exact World.mem_lit (World.mem_existing_of_named admissible named) ripe

/-- With steady mappers a highlight from which finitely many spots can be reached comes to a
reply, at most that deep below its first call. -/
theorem ends_highlight {w : World} (sound : w.Sound) (orderly : w.Orderly)
    (admissible : w.Admissible) (flat : w.depth = 0) (views : w.IdleViews)
    (mappers : w.IdleMappers) (steady : w.layout.Steady) {name : String} {h : HandlerId}
    (named : w.handlerNamed? name = some h) (filter : Option Presence) (keys : List Key)
    (finite : (w.reachable h keys).Finite) :
    (∃ n w' r, Steps n (perform (.move .highlight name ⟨filter, keys.map .key⟩) w [])
        (answered w' [] r) ∧ w'.layout = w.layout) ∧
      ∀ n c, Steps n (perform (.move .highlight name ⟨filter, keys.map .key⟩) w []) c →
        c.world.depth ≤ 1 + (w.reachable h keys).ncard := by
  have listed : ∀ x, x ∈ finite.toFinset.toList ↔
      w.layout.Reach (w.Ripe .highlight) (Given h keys) x := by
    intro x
    rw [Finset.mem_toList, Set.Finite.mem_toFinset]
    exact Iff.rfl
  rw [Set.ncard_eq_toFinset_card _ finite, ← Finset.length_toList]
  refine ends_of_region sound admissible flat views mappers .highlight ?_ name filter keys ?_
  · intro x inside y leads ripe
    rw [listed] at inside ⊢
    exact .step inside (steady.leads sound orderly leads) ripe
  · intro g named' i mem ripe
    cases named.symm.trans named'
    exact (listed _).mpr (.root ⟨rfl, i, mem, rfl⟩ ripe)

/-- In a world at rest, however it came about, in which mappers and views run nothing, every
unhighlight comes to a reply, whatever mappers answer, at most as deep below its first call as
there are keys highlighted over all handlers. When mappers answer by the key alone, a highlight
from which finitely many keys that are not highlighted yet can be reached comes to a reply at
most that deep, and with tables these are always finitely many. -/
theorem ends_of_settling {w : World} (sound : w.Sound) (orderly : w.Orderly)
    (admissible : w.Admissible) (flat : w.depth = 0) (views : w.IdleViews)
    (mappers : w.IdleMappers) (name : String) (filter : Option Presence) (keys : List Key) :
    ((∃ n w' r, Steps n (perform (.move .unhighlight name ⟨filter, keys.map .key⟩) w [])
        (answered w' [] r)) ∧
      ∀ n c, Steps n (perform (.move .unhighlight name ⟨filter, keys.map .key⟩) w []) c →
        c.world.depth ≤ 1 + w.highlighted) ∧
    (w.layout.Steady → ∀ h, w.handlerNamed? name = some h → (w.reachable h keys).Finite →
      (∃ n w' r, Steps n (perform (.move .highlight name ⟨filter, keys.map .key⟩) w [])
        (answered w' [] r)) ∧
      ∀ n c, Steps n (perform (.move .highlight name ⟨filter, keys.map .key⟩) w []) c →
        c.world.depth ≤ 1 + (w.reachable h keys).ncard) ∧
    (w.Tabular → w.layout.Steady ∧ ∀ h, (w.reachable h keys).Finite) := by
  refine ⟨?_, ?_, fun tabular => ⟨tabular.steady, fun h =>
    tabular.finite_reachable sound orderly h keys⟩⟩
  · obtain ⟨⟨n, w', r, steps, -⟩, depth⟩ :=
      ends_unhighlight sound orderly admissible flat views mappers name filter keys
    exact ⟨⟨n, w', r, steps⟩, depth⟩
  · intro steady h named finite
    obtain ⟨⟨n, w', r, steps, -⟩, depth⟩ :=
      ends_highlight sound orderly admissible flat views mappers steady named filter keys finite
    exact ⟨⟨n, w', r, steps⟩, depth⟩

section Examples

/-- A table with one key, which it maps to itself. -/
def oneKey : KeyTable := .single (.int 1) (.singleton (.int 1))

/-- Two handlers that are linked both ways by tables. -/
def tables : List (Action Op) :=
  [.createHandler "a" .plain, .createHandler "b" .plain,
    .createTranslator "ab" "a" (some (.table oneKey)), .addTarget "ab" "b",
    .createTranslator "ba" "b" (some (.table oneKey)), .addTarget "ba" "a"]

theorem eq_of_mapper?_tables {m : MapperId} {s : MapperState}
    (found : (World.built tables).mapper? m = some s) : s = .ofSpec (.table oneKey) := by
  have stored : (World.built tables).mappers =
      ⟨#[.ofSpec (.table oneKey), .ofSpec (.table oneKey)]⟩ := rfl
  rw [World.mapper?, stored] at found
  simpa using Store.mem_of_get? found

theorem tabular_tables : (World.built tables).Tabular := fun m s found =>
  ⟨oneKey, fun n k => by rw [eq_of_mapper?_tables found]; rfl⟩

/-- Only one key of each of the two can be reached. -/
theorem reachable_tables (sound : (World.built tables).Sound)
    (orderly : (World.built tables).Orderly) :
    (World.built tables).reachable ⟨1⟩ [.int 1] ⊆
      {(⟨1⟩, some (.int 1)), (⟨2⟩, some (.int 1))} := by
  rintro ⟨g, y⟩ spot
  obtain ⟨known, j, rfl, offers⟩ := World.mem_of_reachable sound orderly spot
  have one : j = .int 1 := by
    obtain given | ⟨m, k, s, n, fine, found, answers, mem⟩ := offers
    · exact List.mem_singleton.mp given
    · obtain ⟨s', found', rfl⟩ := Option.map_eq_some_iff.mp found
      rw [eq_of_mapper?_tables found'] at answers
      have listed : oneKey.find? k = some fine := Except.ok.inj answers
      rw [oneKey, KeyTable.find?_single] at listed
      split at listed
      · cases listed
        exact KeySet.mem_singleton.mp mem
      · cases listed
  have handlers : ∀ g ∈ ⟨1⟩ :: (World.built tables).existing, g = ⟨1⟩ ∨ g = ⟨2⟩ := by
    decide +kernel
  obtain rfl | rfl := handlers g known
  · exact .inl (by rw [one])
  · exact .inr (by rw [one]; rfl)

/-- A key that is highlighted on one of the two goes round once. It can be unhighlighted on the
other, also when the tables have given way to mappers that never answer twice alike. -/
theorem ends_of_settling_tables :
    ∃ n w' r, Steps n (perform (.move .highlight "a" ⟨none, [.int 1].map .key⟩) (.built tables) [])
        (answered w' [] r) ∧
      (∀ n c, Steps n (perform (.move .highlight "a" ⟨none, [.int 1].map .key⟩) (.built tables) [])
        c → c.world.depth ≤ 3) ∧
      w'.highlighted = 2 ∧
      ∀ mapper : MapperState, mapper.script = (fun _ _ => []) →
        let v : World := { w' with mappers := ⟨#[mapper, mapper]⟩ }
        (∃ n w'' r', Steps n (perform (.move .unhighlight "b" ⟨none, [.int 1].map .key⟩) v [])
          (answered w'' [] r')) ∧
        ∀ n c, Steps n (perform (.move .unhighlight "b" ⟨none, [.int 1].map .key⟩) v []) c →
          c.world.depth ≤ 3 := by
  obtain ⟨reply, reached⟩ := reached_built tables
  have sound : (World.built tables).Sound := reached.sound
  have orderly : (World.built tables).Orderly := reached.orderly
  have admissible : (World.built tables).Admissible := reached.accounted.admissible
  have flat : (World.built tables).depth = 0 := reached.accounted.depth
  have views : (World.built tables).IdleViews := .of_nil rfl
  have mappers : (World.built tables).IdleMappers := by
    intro m s found n k
    rw [eq_of_mapper?_tables found]
    rfl
  have named : (World.built tables).handlerNamed? "a" = some ⟨1⟩ := by decide +kernel
  obtain ⟨-, highlight, finite⟩ :=
    ends_of_settling sound orderly admissible flat views mappers "a" none [.int 1]
  obtain ⟨steady, finite⟩ := finite tabular_tables
  obtain ⟨-, depth⟩ := highlight steady ⟨1⟩ named (finite ⟨1⟩)
  have few : ((World.built tables).reachable ⟨1⟩ [.int 1]).ncard ≤ 2 :=
    (Set.ncard_le_ncard (reachable_tables sound orderly) (Set.toFinite _)).trans
      ((Set.ncard_insert_le _ _).trans (by rw [Set.ncard_singleton]))
  obtain ⟨⟨n, w', r, steps, layout⟩, -⟩ :=
    ends_highlight sound orderly admissible flat views mappers steady named none [.int 1]
      (finite ⟨1⟩)
  have lit : w'.highlighted = 2 := by
    have runs : ((perform (.move .highlight "a" ⟨none, [.int 1].map .key⟩) (.built tables)
        []).run 200).any (fun c => decide (c.world.highlighted = 2)) = true := by
      decide +kernel
    obtain ⟨_, c, steps', rest, found⟩ := exists_steps_of_run runs
    cases (steps.rest_unique steps' (atRest_iff.mpr rfl) rest).2
    exact of_decide_eq_true found
  have reached' := Reached.steps (.tail reached (.perform _ (atRest_iff.mpr rfl)) trivial) steps
  refine ⟨n, w', r, steps, fun n c steps => (depth n c steps).trans (by omega), lit, ?_⟩
  intro mapper silent v
  have sound' : v.Sound :=
    ⟨reached'.sound.registries, reached'.sound.views, reached'.sound.targets⟩
  have orderly' : v.Orderly :=
    ⟨reached'.orderly.links, reached'.orderly.distinct, reached'.orderly.named,
      reached'.orderly.unique⟩
  have views' : w'.IdleViews := views.of_layout layout
  have mappers' : v.IdleMappers := by
    intro m s found n k
    have same : s = mapper := by simpa [v, World.mapper?] using Store.mem_of_get? found
    rw [same, silent]
  have lit' : v.highlighted = 2 := lit
  obtain ⟨unhighlight, -⟩ := ends_of_settling sound' orderly'
    (reached'.accounted.admissible.of_same rfl rfl) reached'.accounted.depth views' mappers' "b"
    none [.int 1]
  rw [lit'] at unhighlight
  exact unhighlight

end Examples

end Config

end HighlightSync
