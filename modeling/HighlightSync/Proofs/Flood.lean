import HighlightSync.Proofs.Closure
import HighlightSync.Proofs.Links
import HighlightSync.Proofs.Termination

/-!
# What a reset floods

A reset goes down from a handler through source links and up through reset links, so it
follows translators in both directions. It stops at empty handlers, and since a handler is
cleared before it tells anybody, it passes each handler at most once. A reset therefore
floods the part of the wiring that is joined to its handler through handlers with keys
(`World.Flooded`): these are cleared, each with one event that all its listeners are told,
and no other handler takes part (`settled_openReset`).

Unlike calls that move keys, resets always end. A call that is refused for its depth cuts the
flood short, so what is flooded is only said of resets without one.
-/

namespace HighlightSync

namespace World

/-- A live translator leads from one of the handlers to the other. -/
def Joined (w : World) (g h : HandlerId) : Prop :=
  ∃ t s, w.translator? t = some s ∧ s.live = true ∧
    ((s.source = g ∧ h ∈ s.targetHandlers) ∨ (s.source = h ∧ g ∈ s.targetHandlers))

/-- The handlers that are joined to a handler, through handlers with keys only. -/
inductive Flooded (w : World) (h : HandlerId) : HandlerId → Prop where
  | start : w.keysOf h ≠ ∅ → Flooded w h h
  | join {g g'} : Flooded w h g → w.Joined g g' → w.keysOf g' ≠ ∅ → Flooded w h g'

theorem Flooded.nonempty {w : World} {h g : HandlerId} (flooded : w.Flooded h g) :
    w.keysOf g ≠ ∅ := by
  cases flooded with
  | start nonempty => exact nonempty
  | join _ _ nonempty => exact nonempty

/-- How many calls were refused so far, in all cascades. -/
def refusals (w : World) : Nat :=
  w.journal.toList.countP fun
    | .note (.cascadeRefused _ _ _) => true
    | _ => false

/-- The callbacks for events of a handler since an earlier world. -/
def heardFrom (start w : World) (h : HandlerId) : List (Listener × Event) :=
  (start.heardSince w).filter fun t => decide (t.2.source = h)

theorem length_cuts_reset (w : World) : (w.cuts .reset).length = w.refusals := by
  rw [cuts, refusals, List.length_filterMap_eq_countP]
  congr 1
  funext r
  cases r with
  | note n => cases n <;> rfl
  | _ => rfl

section Edges

variable {w : World} (sound : w.Sound) (orderly : w.Orderly) (linked : w.Linked)

include sound orderly linked

theorem leads_iff_joined {g : HandlerId} {x : Spot} :
    w.layout.Leads (g, none) x ↔ x.2 = none ∧ w.Joined g x.1 := by
  simp only [Layout.Leads, Config.listeners_layout]
  constructor
  · rintro ⟨l, mem, passes⟩
    cases passes with
    | @down t s target found live target_mem =>
        obtain ⟨-, id, source, -⟩ := orderly.exists_keeps sound found rfl mem
        exact ⟨rfl, t, s, found, live, .inl ⟨source, target_mem⟩⟩
    | @back t s found live =>
        obtain ⟨-, id, kept⟩ := orderly.exists_keeps sound found rfl mem
        exact ⟨rfl, t, s, found, live, .inr ⟨rfl, List.mem_map_of_mem kept⟩⟩
  · obtain ⟨g', spot⟩ := x
    rintro ⟨rfl, t, s, found, live, ⟨rfl, mem⟩ | ⟨rfl, mem⟩⟩
    · exact ⟨.sourceLink t, (linked t s found live).1, .down found live mem⟩
    · exact ⟨.resetLink t, (linked t s found live).2 g mem, .back found live⟩

/-- Resets reach the handlers that are flooded. -/
theorem reach_iff_flooded {h g : HandlerId} :
    w.layout.Reach (w.Ripe .reset) (· = (h, none)) (g, none) ↔ w.Flooded h g := by
  constructor
  · suffices all : ∀ x, w.layout.Reach (w.Ripe .reset) (· = (h, none)) x →
        x.2 = none ∧ w.Flooded h x.1 from fun reached => (all _ reached).2
    intro x reached
    induction reached with
    | root start ripe =>
        subst start
        exact ⟨rfl, .start ripe⟩
    | @step y x _ leads ripe ih =>
        obtain ⟨g, spot⟩ := y
        obtain ⟨rfl, flooded⟩ := ih
        obtain ⟨none, joined⟩ := (leads_iff_joined sound orderly linked).mp leads
        obtain ⟨g', spot⟩ := x
        cases none
        exact ⟨rfl, .join flooded joined ripe⟩
  · intro flooded
    induction flooded with
    | start nonempty => exact .root rfl nonempty
    | join _ joined nonempty ih =>
        exact .step ih ((leads_iff_joined sound orderly linked).mpr ⟨rfl, joined⟩) nonempty

end Edges

theorem mem_numbered {w : World} {h : HandlerId} (nonempty : w.keysOf h ≠ ∅) :
    h ∈ (List.range (w.handlers.size + 1)).map HandlerId.mk := by
  have bound := (Store.get?_isSome_iff.mp (handler?_isSome_of_keysOf_ne nonempty)).2
  exact List.mem_map.mpr ⟨h.number, List.mem_range.mpr (by omega), rfl⟩

end World

namespace Config

theorem Searchable.of_orderly {w : World} (sound : w.Sound) (orderly : w.Orderly)
    (views : w.IdleViews) : Searchable .reset w where
  views := views
  mappers moves := absurd rfl moves
  regular :=
    { targets := fun t s ht h hh =>
        (handler_layout_isSome w h).trans (sound.targets t s ht h hh)
      steady := fun moves => absurd rfl moves
      live := by
        intro _ h t mem
        rw [listeners_layout] at mem
        obtain ⟨id, registered⟩ := (World.exists_registered_iff sound).mpr mem
        obtain ⟨s, found, live, -⟩ := orderly.links h id _ t rfl registered
        exact (Option.any_eq_true _ _).mpr ⟨s, found, live⟩ }

/-- All events of a handler are alike when they are resets. -/
theorem filter_resets {events : List Event} (kinds : ∀ e ∈ events, e.change.kind = .reset)
    (g : HandlerId) :
    events.filter (fun e => decide (e.source = g)) =
      List.replicate (events.countP (Event.carries .reset (g, none))) ⟨g, .reset⟩ := by
  have resets : ∀ e ∈ events, e.change = .reset := by
    rintro ⟨source, change⟩ he
    have kind := kinds _ he
    cases change with
    | reset => rfl
    | move d keys => cases d <;> cases kind
  refine List.eq_replicate_iff.mpr ⟨?_, ?_⟩
  · rw [← List.countP_eq_length_filter]
    refine List.countP_congr fun e he => ?_
    simp [Event.carries, resets e he, Change.kind, Change.touches]
  · rintro ⟨source, change⟩ he
    obtain ⟨mem, own⟩ := List.mem_filter.mp he
    cases resets _ mem
    cases of_decide_eq_true own
    rfl

/-- A reset ends with the handlers cleared that it floods, unless a call is refused: each has
told each of its listeners once, and nothing else was told or changed. -/
theorem settled_openReset {w : World} (sound : w.Sound) (orderly : w.Orderly)
    (views : w.IdleViews) (linked : w.Linked) (h : HandlerId) :
    ∃ n w' r, Steps n (openReset h w []) (answered w' [] r) ∧
      (w'.refusals = w.refusals → ∀ g,
        (w.Flooded h g → w'.keysOf g = ∅ ∧
          (w.heardFrom w' g).Perm ((w.listeners g).map (·, ⟨g, .reset⟩))) ∧
        (¬ w.Flooded h g → w'.keysOf g = w.keysOf g ∧ w.heardFrom w' g = [])) := by
  have searchable : Searchable .reset w := .of_orderly sound orderly views
  -- The reset ends whether or not it is cut short, and its end is that of a search.
  obtain ⟨n, w', r, steps, -⟩ := ends_openReset (L := w.layout)
    (fun v same => views.of_layout same) _ h w []
    ⟨rfl, fun _ => World.mem_numbered, Nat.le_refl _⟩
  refine ⟨n, w', r, steps, fun unrefused => ?_⟩
  have begins : Explores .reset w (· = (h, none)) (openReset h w []) :=
    .of_openCall rfl trivial rfl rfl rfl fun _ => Iff.rfl
  obtain ⟨cascading, searched, ledger⟩ := begins.steps sound searchable steps
  have uncut : w'.cuts .reset = w.cuts .reset := by
    refine (cascading.cuts.eq_of_length ?_).symm
    rw [World.length_cuts_reset, World.length_cuts_reset]
    exact unrefused.symm
  intro g
  have events := filter_resets searched.kinds g
  have heard := ledger.filter_heard rfl g
  rw [events] at heard
  have visited : w.Ripe .reset (g, none) →
      (¬ w'.Ripe .reset (g, none) ↔ w.Flooded h g) := fun ripe =>
    (searched.visited_iff_reach rfl uncut ripe).trans
      (World.reach_iff_flooded sound orderly linked)
  constructor
  · intro flooded
    have ripe : w.Ripe .reset (g, none) := flooded.nonempty
    have cleared := (visited ripe).mpr flooded
    rw [searched.once _ ripe cleared, List.replicate_one, List.flatMap_singleton] at heard
    exact ⟨Classical.not_not.mp cleared, heard⟩
  · intro spared
    have untouched : ¬ w.Ripe .reset (g, none) ∨ w'.Ripe .reset (g, none) := by
      by_cases ripe : w.Ripe .reset (g, none)
      · exact .inr (Classical.not_not.mp fun cleared => spared ((visited ripe).mp cleared))
      · exact .inl ripe
    rw [searched.never _ untouched] at heard events
    refine ⟨searched.untouched g fun e he own => ?_, heard.eq_nil⟩
    exact List.not_mem_nil (events ▸ List.mem_filter.mpr ⟨he, decide_eq_true own⟩)

section Examples

/-- A handler with two targets, which get its keys. -/
def siblings : List (Action Op) :=
  [.createHandler "a" .plain, .createHandler "b" .plain, .createHandler "c" .plain,
    .createTranslator "t" "a" (some echo), .addTarget "t" "b", .addTarget "t" "c"]

/-- The siblings when a key has been highlighted on their source. -/
def siblingsLit : World :=
  ((perform (.move .highlight "a" ⟨none, [.key (.int 1)]⟩) (.built siblings) []).run 100).elim ∅
    Config.world

/-- A reset of one sibling clears the other, which is told once. -/
theorem settled_openReset_siblings :
    ∃ (n : Nat) (w' : World) (r : Reply),
      Steps n (openReset ⟨2⟩ siblingsLit []) (answered w' [] r) ∧
      siblingsLit.keysOf ⟨3⟩ ≠ ∅ ∧ w'.keysOf ⟨3⟩ = ∅ ∧
      (siblingsLit.heardFrom w' ⟨3⟩).Perm [(.resetLink ⟨1⟩, ⟨⟨3⟩, .reset⟩)] := by
  obtain ⟨reply, built⟩ := reached_built siblings
  have lit : ((perform (.move .highlight "a" ⟨none, [.key (.int 1)]⟩) (.built siblings) []).run
      100).isSome = true := by
    decide +kernel
  obtain ⟨⟨w, stack, reply⟩, ends⟩ := Option.isSome_iff_exists.mp lit
  have world : siblingsLit = w := by
    rw [siblingsLit, ends]
    rfl
  obtain ⟨_, -, steps, rest⟩ := run_eq_some_iff.mp ends
  cases atRest_iff.mp rest
  have reached : Reached ⟨siblingsLit, [], reply⟩ := by
    rw [world]
    exact Reached.steps (.tail built (.perform _ (atRest_iff.mpr rfl)) trivial) steps
  have views : siblingsLit.IdleViews := .of_nil (List.isEmpty_iff.mp (by decide +kernel))
  have linked : siblingsLit.Linked := by decide +kernel
  have flooded : siblingsLit.Flooded ⟨2⟩ ⟨3⟩ := by
    have joins : (siblingsLit.translator? ⟨1⟩).any (fun s => s.live && decide (s.source = ⟨1⟩) &&
        decide (s.targetHandlers = [⟨2⟩, ⟨3⟩])) = true := by
      decide +kernel
    obtain ⟨s, found, shape⟩ := (Option.any_eq_true _ _).mp joins
    simp only [Bool.and_eq_true, decide_eq_true_eq] at shape
    obtain ⟨⟨live, source⟩, targets⟩ := shape
    have up : siblingsLit.Joined ⟨2⟩ ⟨1⟩ := ⟨⟨1⟩, s, found, live, .inr ⟨source, by simp [targets]⟩⟩
    have down : siblingsLit.Joined ⟨1⟩ ⟨3⟩ :=
      ⟨⟨1⟩, s, found, live, .inl ⟨source, by simp [targets]⟩⟩
    exact ((World.Flooded.start (by decide +kernel)).join up (by decide +kernel)).join down
      (by decide +kernel)
  obtain ⟨n, w', r, steps, settled⟩ := settled_openReset reached.sound reached.orderly views
    linked ⟨2⟩
  have unrefused : w'.refusals = siblingsLit.refusals := by
    have runs : ((openReset ⟨2⟩ siblingsLit []).run 100).any (fun c =>
        decide (c.world.refusals = siblingsLit.refusals)) = true := by
      decide +kernel
    obtain ⟨_, c, steps', rest, same⟩ := exists_steps_of_run runs
    cases (steps.rest_unique steps' (atRest_iff.mpr rfl) rest).2
    exact of_decide_eq_true same
  obtain ⟨cleared, told⟩ := (settled unrefused ⟨3⟩).1 flooded
  have listeners : siblingsLit.listeners ⟨3⟩ = [.resetLink ⟨1⟩] := by decide +kernel
  rw [listeners] at told
  exact ⟨n, w', r, steps, by decide +kernel, cleared, told⟩

end Examples

end Config

end HighlightSync
