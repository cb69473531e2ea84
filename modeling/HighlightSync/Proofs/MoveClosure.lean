import HighlightSync.Proofs.Closure

/-!
# Which keys a call moves

Highlighting keys on a handler highlights whatever translators make of them on their
targets, in turn on the targets of these, and so on. Each call forwards only the keys that
it has really moved, in the middle of its fan-out, and the wiring may be cyclic. When no
listener and no mapper runs operations and mappers answer by the key alone, the result is
nevertheless a closure that says nothing about any order: a call that ends well has moved
the keys that can be reached from the given ones through keys that had not moved before
(`settled_openMove`). A call that ends with a fault has moved no others. Every key that has
moved is in exactly one event, of which each listener of its handler was told once.

The same holds of unhighlighting, where the keys that can be moved are the highlighted ones.
-/

namespace HighlightSync.Config

/-- The keys that a call on a handler is given. -/
def Given (h : HandlerId) (keys : List Key) (x : Spot) : Prop := x.1 = h ∧ ∃ k ∈ keys, x.2 = some k

theorem Searchable.of_moves {w : World} (sound : w.Sound) (views : w.IdleViews)
    (mappers : w.IdleMappers) (steady : w.layout.Steady) (d : Direction) :
    Searchable d.kind w where
  views := views
  mappers _ := mappers
  regular :=
    { targets := fun t s ht h hh =>
        (handler_layout_isSome w h).trans (sound.targets t s ht h hh)
      steady := fun _ => steady
      live := fun resets => by cases d <;> cases resets }

/-- Where a call that moves keys ends: with all that can be reached if it ends well, and
with a part of it otherwise. Each key that has moved is in one event, and each listener of
its handler was told of one event with it. -/
theorem settled_openMove {w w' : World} (sound : w.Sound) (views : w.IdleViews)
    (mappers : w.IdleMappers) (steady : w.layout.Steady) (d : Direction) {h : HandlerId}
    (present : (w.handler? h).isSome = true) (keys : List Key) {n : Nat} {r : Reply}
    (ends : Steps n (openMove d h ⟨none, keys.map .key⟩ w []) (answered w' [] r)) :
    (r.fault? = none → ∀ g k, d.Settled (w'.keysOf g) k ↔
      d.Settled (w.keysOf g) k ∨ w.layout.Reach (w.Ripe d.kind) (Given h keys) (g, some k)) ∧
    (∀ g k, d.Settled (w.keysOf g) k → d.Settled (w'.keysOf g) k) ∧
    (∀ g k, d.Settled (w'.keysOf g) k → d.Settled (w.keysOf g) k ∨
      w.layout.Reach (w.Ripe d.kind) (Given h keys) (g, some k)) ∧
    ∀ g k, ¬ d.Settled (w.keysOf g) k → d.Settled (w'.keysOf g) k →
      (w.announcedSince w').countP (Event.carries d.kind (g, some k)) = 1 ∧
      ∀ l, (w.heardSince w').countP (fun t => decide (t.1 = l) && t.2.carries d.kind (g, some k)) =
        if l ∈ w.listeners g then 1 else 0 := by
  have searchable := Searchable.of_moves sound views mappers steady d
  have begins : Explores d.kind w (Given h keys) (openMove d h ⟨none, keys.map .key⟩ w []) := by
    refine .of_openCall ⟨⟨d, rfl, rfl⟩, rfl, keys, rfl⟩ ((handler_layout_isSome w h).trans present)
      rfl rfl rfl fun x => and_congr_right fun _ => ?_
    constructor
    · rintro ⟨k, spot, taken | pulled⟩
      · cases taken
      · obtain ⟨j, hj, same⟩ := List.mem_map.mp pulled
        cases same
        exact ⟨k, hj, spot⟩
    · rintro ⟨k, hk, spot⟩
      exact ⟨k, spot, .inr (List.mem_map_of_mem hk)⟩
  obtain ⟨cascading, searched, ledger⟩ := begins.steps sound searchable ends
  have settled : ∀ (u : World) g k, d.Settled (u.keysOf g) k ↔ ¬ u.Ripe d.kind (g, some k) :=
    fun u g k => Classical.not_not.symm.trans (not_congr Change.ripe_move_iff.symm)
  have stays : ∀ g k, d.Settled (w.keysOf g) k → d.Settled (w'.keysOf g) k := by
    intro g k hk
    rw [settled] at hk ⊢
    exact fun ripe => hk (searched.shrinks _ ripe)
  have moved : ∀ g k, d.Settled (w'.keysOf g) k → d.Settled (w.keysOf g) k ∨
      w.layout.Reach (w.Ripe d.kind) (Given h keys) (g, some k) := by
    intro g k hk
    refine (Classical.em _).imp id fun new => ?_
    rw [settled] at hk new
    exact searched.visited _ (Classical.not_not.mp new) hk
  refine ⟨?_, stays, moved, ?_⟩
  · intro clean g k
    refine ⟨moved g k, fun reached => reached.elim (stays g k) fun reached => ?_⟩
    have uncut : w'.cuts d.kind = w.cuts d.kind := cascading.fault clean
    rw [settled]
    exact (searched.visited_iff_reach rfl uncut reached.ripe).mpr reached
  · intro g k new hk
    rw [settled] at new hk
    have once := searched.once _ (Classical.not_not.mp new) hk
    refine ⟨once, fun l => ?_⟩
    have own : ∀ e : Event, e.carries d.kind (g, some k) = true → e.source = g := by
      rintro ⟨source, change⟩ carries
      simp only [Event.carries, Bool.and_eq_true, decide_eq_true_eq] at carries
      exact carries.1.1
    rw [show w' = (answered w' [] r).world from rfl, ledger.countP_heard sound rfl own, once]

section Examples

/-- Two handlers that are linked both ways, key by key. -/
def mirrors : List (Action Op) :=
  [.createHandler "a" .plain, .createHandler "b" .plain,
    .createTranslator "ab" "a" (some echo), .addTarget "ab" "b",
    .createTranslator "ba" "b" (some echo), .addTarget "ba" "a"]

/-- A key that is highlighted on one of two mirrors reaches the other. -/
theorem settled_openMove_mirrors :
    ∃ (n : Nat) (w' : World) (r : Reply),
      Steps n (openMove .highlight ⟨1⟩ ⟨none, [.int 1].map .key⟩ (.built mirrors) [])
        (answered w' [] r) ∧ .int 1 ∈ w'.keysOf ⟨2⟩ ∧
      (World.built mirrors).layout.Reach ((World.built mirrors).Ripe .highlight)
        (Given ⟨1⟩ [.int 1]) (⟨2⟩, some (.int 1)) := by
  obtain ⟨reply, reached⟩ := reached_built mirrors
  have views : (World.built mirrors).IdleViews := .of_nil rfl
  have mapper : ∀ m s, (World.built mirrors).mapper? m = some s → s = .ofSpec echo := by
    intro m s found
    have stored : (World.built mirrors).mappers = ⟨#[.ofSpec echo, .ofSpec echo]⟩ := rfl
    rw [World.mapper?, stored] at found
    simpa using Store.mem_of_get? found
  have mappers : (World.built mirrors).IdleMappers := by
    intro m s found n k
    rw [mapper m s found]
    rfl
  have steady : (World.built mirrors).layout.Steady := by
    intro m s found i j k
    obtain ⟨s', found', rfl⟩ := Option.map_eq_some_iff.mp found
    rw [mapper m s' found']
    rfl
  have runs : ((openMove .highlight ⟨1⟩ ⟨none, [.int 1].map .key⟩ (.built mirrors) []).run 200).any
      (fun c => c.reply.isSome && decide (.int 1 ∈ c.world.keysOf ⟨2⟩)) = true := by
    decide +kernel
  obtain ⟨n, ⟨w', stack, reply'⟩, steps, rest, found⟩ := exists_steps_of_run runs
  obtain ⟨replied, moved⟩ := (Bool.and_eq_true _ _).mp found
  obtain ⟨r, rfl⟩ := Option.isSome_iff_exists.mp replied
  cases atRest_iff.mp rest
  have moved : .int 1 ∈ w'.keysOf ⟨2⟩ := of_decide_eq_true moved
  refine ⟨n, w', r, steps, moved, ?_⟩
  have present : ((World.built mirrors).handler? ⟨1⟩).isSome = true := by decide +kernel
  have closed := settled_openMove reached.sound views mappers steady .highlight present [.int 1]
    steps
  have new : ¬ .int 1 ∈ (World.built mirrors).keysOf ⟨2⟩ := by decide +kernel
  exact (closed.2.2.1 ⟨2⟩ (.int 1) moved).resolve_left new

end Examples

end HighlightSync.Config
