import HighlightSync.Proofs.Descent
import HighlightSync.Proofs.Links
import Mathlib.Data.List.Chain
import Mathlib.Data.List.Perm.Subperm

/-!
# Depth limits stop runaway cycles

A handler with depth limit `n` refuses a call while `n` calls are open, on whatever handlers.
If every cycle of links passes through a handler with a limit (`Layout.Guarded`), that is
enough for moves of keys to end, whatever idle mappers answer.

The handlers with open calls, the innermost first, form a chain of links (`Layout.Descends`).
Where more calls are open than the largest limit says, no handler of the chain has a limit,
so the chain is free of cycles there and each of these handlers stands in it once. This
bounds the depth (`Descends.length_le`), and every call is a step towards the bound.
-/

namespace HighlightSync

namespace Layout

/-- A translator is linked to the first handler and has the second as a target. -/
def Feeds (L : Layout) (g h : HandlerId) : Prop :=
  ∃ t s, .sourceLink t ∈ L.listeners g ∧ L.translator? t = some s ∧ h ∈ s.targetHandlers

/-- Every cycle of links passes through a handler with a depth limit. -/
def Guarded (L : Layout) : Prop :=
  ∀ h route, (h :: (route ++ [h])).IsChain L.Feeds → ∃ g ∈ h :: route, (L.limit? g).isSome = true

/-- Handlers on which calls are open, the innermost first: each is fed by the one outside of
it, and accepted its call when those outside of it were open. -/
inductive Descends (L : Layout) : List HandlerId → Prop where
  | nil : Descends L []
  | cons {h gs} : Descends L gs → (∀ g ∈ gs.head?, L.Feeds g h) →
      (∀ limit, L.limit? h = some limit → gs.length < limit) → Descends L (h :: gs)

theorem Forwards.feeds {L : Layout} {h target : HandlerId} {moved keys : KeySet}
    (forwards : L.Forwards h moved target keys) : L.Feeds h target := by
  obtain ⟨t, s, -, registered, found, -, listed, -⟩ := forwards
  exact ⟨t, s, registered, found, listed⟩

/-- Without limits on the way a chain of links meets no handler twice. -/
theorem Guarded.nodup {L : Layout} (guarded : L.Guarded) {gs : List HandlerId}
    (chain : gs.IsChain fun inner outer => L.Feeds outer inner)
    (unlimited : ∀ g ∈ gs, L.limit? g = none) : gs.Nodup := by
  induction gs with
  | nil => exact List.nodup_nil
  | cons h gs ih =>
      refine List.nodup_cons.mpr ⟨fun again => ?_, ih chain.tail fun g mem =>
        unlimited g (List.mem_cons_of_mem h mem)⟩
      obtain ⟨front, back, rfl⟩ := List.append_of_mem again
      have cycle : (h :: (front ++ [h])).IsChain fun inner outer => L.Feeds outer inner := by
        rw [List.append_cons, ← List.cons_append] at chain
        exact chain.left_of_append
      rw [← List.isChain_reverse, List.reverse_cons, List.reverse_append] at cycle
      obtain ⟨g, mem, limited⟩ := guarded h front.reverse cycle
      have free : L.limit? g = none := by
        refine unlimited g ?_
        simp only [List.mem_cons, List.mem_append, List.mem_reverse] at mem ⊢
        exact mem.imp_right .inl
      rw [free] at limited
      cases limited

namespace Descends

variable {L : Layout} {gs : List HandlerId} {most : Nat}

theorem chain (h : L.Descends gs) : gs.IsChain fun inner outer => L.Feeds outer inner := by
  induction h with
  | nil => exact .nil
  | cons _ fed _ ih => exact ih.cons fed

/-- Beyond the largest limit only handlers without limits are met. -/
theorem unlimited (h : L.Descends gs)
    (largest : ∀ g ∈ gs, ∀ limit, L.limit? g = some limit → limit ≤ most) :
    ∀ g ∈ gs.take (gs.length - most), L.limit? g = none := by
  induction h with
  | nil => simp
  | @cons g gs _ _ accepted ih =>
      have ih := ih fun i mem => largest i (List.mem_cons_of_mem g mem)
      by_cases beyond : most ≤ gs.length
      · rw [List.length_cons, Nat.succ_sub beyond, List.take_succ_cons]
        refine List.forall_mem_cons.mpr ⟨?_, ih⟩
        rw [Option.eq_none_iff_forall_ne_some]
        intro limit is
        have small := largest g List.mem_cons_self limit is
        have late := accepted limit is
        omega
      · rw [List.length_cons, Nat.sub_eq_zero_of_le (by omega), List.take_zero]
        simp

/-- No more calls are open than the largest limit says and there are handlers without. -/
theorem length_le (h : L.Descends gs) (guarded : L.Guarded) {handlers : List HandlerId}
    (known : ∀ g ∈ gs, g ∈ handlers)
    (largest : ∀ g ∈ handlers, ∀ limit, L.limit? g = some limit → limit ≤ most) :
    gs.length ≤ most + handlers.countP fun g => (L.limit? g).isNone := by
  have free := h.unlimited fun g mem => largest g (known g mem)
  have once := guarded.nodup (h.chain.take _) free
  have few : (gs.take (gs.length - most)).length ≤
      (handlers.filter fun g => (L.limit? g).isNone).length := by
    refine (List.Nodup.subperm once fun g mem => List.mem_filter.mpr ⟨?_, ?_⟩).length_le
    · exact known g (List.mem_of_mem_take mem)
    · rw [free g mem]
      rfl
  rw [List.length_take, ← List.countP_eq_length_filter] at few
  omega

end Descends

end Layout

namespace World

/-- The handlers that exist at rest. -/
def existing (w : World) : List HandlerId :=
  ((List.range (w.handlers.size + 1)).map HandlerId.mk).filter fun h =>
    (w.handler? h).isSome && w.isHeld [] h

/-- The largest depth limit of a handler that exists, zero if there is none. -/
def largestLimit (w : World) : Nat := (w.existing.filterMap w.layout.limit?).max?.getD 0

/-- How many handlers exist that have no depth limit. -/
def unlimited (w : World) : Nat := w.existing.countP fun h => (w.layout.limit? h).isNone

theorem mem_existing_iff {w : World} {h : HandlerId} :
    h ∈ w.existing ↔ (w.handler? h).isSome = true ∧ w.isHeld [] h = true := by
  rw [existing, List.mem_filter, Bool.and_eq_true, and_iff_right_iff_imp]
  rintro ⟨present, -⟩
  have bound := (Store.get?_isSome_iff.mp present).2
  exact List.mem_map.mpr ⟨h.number, List.mem_range.mpr (by omega), rfl⟩

theorem limit_le_largest {w : World} {h : HandlerId} (mem : h ∈ w.existing) {limit : Nat}
    (is : w.layout.limit? h = some limit) : limit ≤ w.largestLimit :=
  List.le_max?_getD_of_mem (List.mem_filterMap.mpr ⟨h, mem, is⟩)

theorem exists_of_feeds {w : World} (sound : w.Sound) (orderly : w.Orderly) {g h : HandlerId}
    (feeds : w.layout.Feeds g h) :
    ∃ t s, w.translator? t = some s ∧ s.live = true ∧ s.source = g ∧ h ∈ s.targetHandlers := by
  obtain ⟨t, s, mem, found, target⟩ := feeds
  rw [Config.listeners_layout] at mem
  obtain ⟨live, -, source, -⟩ := orderly.exists_keeps sound found rfl mem
  exact ⟨t, s, found, live, source, target⟩

theorem mem_existing_of_feeds {w : World} (sound : w.Sound) (orderly : w.Orderly)
    {g h : HandlerId} (feeds : w.layout.Feeds g h) : h ∈ w.existing := by
  obtain ⟨t, s, found, live, -, target⟩ := exists_of_feeds sound orderly feeds
  refine mem_existing_iff.mpr ⟨sound.targets t s found h target, ?_⟩
  have links : w.linksHandler h = true := by
    refine Array.any_eq_true'.mpr ⟨s, Store.mem_of_get? found, ?_⟩
    obtain ⟨aim, listed, rfl⟩ := List.mem_map.mp target
    simp only [live, Bool.true_and, Bool.or_eq_true, List.any_eq_true, decide_eq_true_eq]
    exact .inr ⟨aim, listed, rfl⟩
  rw [isHeld, links, Bool.or_true, Bool.true_or]

theorem mem_existing_of_named {w : World} (admissible : w.Admissible) {name : String}
    {h : HandlerId} (named : w.handlerNamed? name = some h) : h ∈ w.existing := by
  refine mem_existing_iff.mpr ⟨admissible.present named, ?_⟩
  have names : w.namesHandler h = true :=
    List.any_eq_true.mpr ⟨_, mem_names_of_handlerNamed? named, decide_eq_true rfl⟩
  rw [isHeld, names, Bool.true_or, Bool.true_or]

end World

namespace Config

/-- Where every cycle is guarded, a call that moves keys ends within the bound for all chains
of calls, if it goes on with such a chain. The induction is on what the chain lacks to the
bound. -/
theorem endsWithin_of_guarded {w : World} (sound : w.Sound) (orderly : w.Orderly)
    (views : w.IdleViews) (mappers : w.IdleMappers) (guarded : w.layout.Guarded) (d : Direction)
    (m : Nat) {gs : List HandlerId} (descends : w.layout.Descends gs)
    (known : ∀ g ∈ gs, g ∈ w.existing) (lack : w.largestLimit + w.unlimited ≤ gs.length + m)
    {h : HandlerId} (fed : ∀ g ∈ gs.head?, w.layout.Feeds g h) (listed : h ∈ w.existing)
    (filter : Option Presence) (keys : List Key) {v : World}
    (hv : At (fun v => v.layout = w.layout) gs.length v) (stack : List Frame) :
    EndsWithin (w.largestLimit + w.unlimited) (At (fun v => v.layout = w.layout) gs.length) stack
      (openMove d h ⟨filter, keys.map .key⟩ v stack) := by
  have quiet := Quiet.of_layout views mappers
  have bound : ∀ {gs : List HandlerId}, w.layout.Descends gs → (∀ g ∈ gs, g ∈ w.existing) →
      gs.length ≤ w.largestLimit + w.unlimited := fun descends known =>
    descends.length_le guarded known fun g mem limit is => World.limit_le_largest mem is
  induction m using Nat.strong_induction_on generalizing gs h filter keys v stack with
  | h m ih =>
    refine endsWithin_openMove quiet quiet (fun _ => id) (bound descends known) (fun accepts => ?_)
      hv stack
    have deeper := descends.cons fed accepts
    have known' := List.forall_mem_cons.mpr ⟨listed, known⟩
    have longer := bound deeper known'
    rw [List.length_cons] at longer
    refine ⟨longer, fun v moved same _ _ => ⟨(v.layout_change h _).trans same, ?_⟩⟩
    intro g forwarded forwards u stack hu
    refine ih (m - 1) (by omega) deeper known' ?_ ?_ ?_ none forwarded.toList hu stack
    · rw [List.length_cons]
      omega
    · rintro _ ⟨⟩
      exact forwards.feeds
    · exact World.mem_existing_of_feeds sound orderly forwards.feeds

/-- In a world at rest, however it came about, let every cycle of links pass through a handler
with a depth limit. Then every highlight and every unhighlight comes to a reply, whatever idle
mappers answer, and never are more calls open than the largest limit says and there are handlers
without a limit. -/
theorem ends_of_guarded {w : World} (sound : w.Sound) (orderly : w.Orderly)
    (admissible : w.Admissible) (flat : w.depth = 0) (views : w.IdleViews)
    (mappers : w.IdleMappers) (guarded : w.layout.Guarded) (d : Direction) (name : String)
    (filter : Option Presence) (keys : List Key) :
    (∃ n w' r, Steps n (perform (.move d name ⟨filter, keys.map .key⟩) w []) (answered w' [] r)) ∧
      ∀ n c, Steps n (perform (.move d name ⟨filter, keys.map .key⟩) w []) c →
        c.world.depth ≤ w.largestLimit + w.unlimited := by
  have here : At (fun v => v.layout = w.layout) ([] : List HandlerId).length w := ⟨rfl, flat⟩
  have within : EndsWithin (w.largestLimit + w.unlimited)
      (At (fun v => v.layout = w.layout) ([] : List HandlerId).length) []
      (perform (.move d name ⟨filter, keys.map .key⟩) w []) :=
    endsWithin_perform (here.le (Nat.zero_le _)) here fun h named =>
      endsWithin_of_guarded sound orderly views mappers guarded d _ .nil (by simp)
        (Nat.le_add_left _ _) (by simp) (World.mem_existing_of_named admissible named) filter keys
        here []
  obtain ⟨n, w', r, steps, -⟩ := within.ends
  exact ⟨⟨n, w', r, steps⟩, fun n c steps => within.depth_le steps⟩

section Examples

/-- A mapper that answers each question with its number, whatever the key. -/
def numbering : MapperState :=
  ⟨fun n _ => .ok (some (.singleton (.int n))), fun _ _ => [], .table, 0⟩

/-- Two handlers that are linked in turns, one of which has a depth limit. -/
def spiral : List (Action Op) :=
  [.createHandler "a" ⟨none, some 3⟩, .createHandler "b" .plain,
    .createTranslator "ab" "a" (some echo), .addTarget "ab" "b",
    .createTranslator "ba" "b" (some echo), .addTarget "ba" "a"]

/-- The two handlers with mappers that number their questions. -/
def numbered : World := { World.built spiral with mappers := ⟨#[numbering, numbering]⟩ }

/-- The bound is attained by mappers that never answer twice alike. -/
theorem ends_of_guarded_numbered :
    (∃ n w' r, Steps n (perform (.move .highlight "a" ⟨none, [.int 1].map .key⟩) numbered [])
        (answered w' [] r)) ∧
      (∀ n c, Steps n (perform (.move .highlight "a" ⟨none, [.int 1].map .key⟩) numbered []) c →
        c.world.depth ≤ 4) ∧
      ∃ n c, Steps n (perform (.move .highlight "a" ⟨none, [.int 1].map .key⟩) numbered []) c ∧
        c.world.depth = 4 := by
  obtain ⟨reply, reached⟩ := reached_built spiral
  have sound : numbered.Sound :=
    ⟨reached.sound.registries, reached.sound.views, reached.sound.targets⟩
  have orderly : numbered.Orderly :=
    ⟨reached.orderly.links, reached.orderly.distinct, reached.orderly.named,
      reached.orderly.unique⟩
  have admissible : numbered.Admissible := reached.accounted.admissible.of_same rfl rfl
  have views : numbered.IdleViews := .of_nil rfl
  have mappers : numbered.IdleMappers := by
    intro m s found n k
    have same : s = numbering := by
      simpa [numbered, World.mapper?] using Store.mem_of_get? found
    rw [same]
    rfl
  -- Every link leads from the first handler or to it.
  have edges : ∀ {g h}, numbered.layout.Feeds g h → g = ⟨1⟩ ∨ h = ⟨1⟩ := by
    intro g h feeds
    obtain ⟨t, s, found, -, rfl, target⟩ := World.exists_of_feeds sound orderly feeds
    have all : ∀ s ∈ numbered.translators.items.toList,
        s.source = ⟨1⟩ ∨ s.targetHandlers = [⟨1⟩] := by
      decide +kernel
    obtain source | targets := all s (Array.mem_toList_iff.mpr (Store.mem_of_get? found))
    · exact .inl source
    · rw [targets] at target
      exact .inr (List.mem_singleton.mp target)
  have guarded : numbered.layout.Guarded := by
    intro h route chain
    refine ⟨⟨1⟩, ?_, by decide +kernel⟩
    cases route with
    | nil =>
        obtain ⟨feeds, -⟩ := List.isChain_cons_cons.mp chain
        obtain rfl | rfl := edges feeds <;> exact List.mem_cons_self
    | cons g route =>
        obtain ⟨feeds, -⟩ := List.isChain_cons_cons.mp chain
        obtain rfl | rfl := edges feeds
        · exact List.mem_cons_self
        · exact List.mem_cons_of_mem _ List.mem_cons_self
  have ends := ends_of_guarded sound orderly admissible (by decide +kernel) views mappers guarded
    .highlight "a" none [.int 1]
  have bound : numbered.largestLimit + numbered.unlimited = 4 := by
    decide +kernel
  rw [bound] at ends
  have deepest : (follow (fun _ => true) 40 (perform (.move .highlight "a"
      ⟨none, [.int 1].map .key⟩) numbered [])).any
        (fun c => decide (c.world.depth = 4)) = true := by
    decide +kernel
  obtain ⟨c, followed, depth⟩ := (Option.any_eq_true _ _).mp deepest
  exact ⟨ends.1, ends.2, 40, c, steps_of_follow followed, of_decide_eq_true depth⟩

end Examples

end Config

end HighlightSync
