import HighlightSync.Proofs.Ledger
import HighlightSync.Proofs.Search

/-!
# What a cascade reaches

A cascade of one kind visits spots that were ripe when it began and can be reached from its
roots through such spots (`Layout.Reach`), each in exactly one event. If no branch is cut
off, it visits all of them: a successor of a visited spot is offered as long as it is ripe,
and at the end nothing is offered any more (`Searched`). Which spots are reached does not
depend on the order of the search, although events are announced in the middle of others.

Calls that move keys and resets are both cascades of this sort (`Explores`).
-/

namespace HighlightSync

/-- The spots that can be reached from roots through ripe ones. -/
inductive Layout.Reach (L : Layout) (ripe roots : Spot → Prop) : Spot → Prop where
  | root {x} : roots x → ripe x → Reach L ripe roots x
  | step {x y} : Reach L ripe roots x → L.Leads x y → ripe y → Reach L ripe roots y

theorem Layout.Reach.ripe {L : Layout} {ripe roots : Spot → Prop} {x : Spot}
    (h : L.Reach ripe roots x) : ripe x := by
  cases h with
  | root _ hx => exact hx
  | step _ _ hx => exact hx

/-- Whether the event is a change of some kind that touches the spot. -/
def Event.carries (κ : ChangeKind) (x : Spot) (e : Event) : Bool :=
  decide (e.source = x.1) && decide (e.change.kind = κ) && e.change.touches x.2

theorem Event.carries_iff {κ : ChangeKind} {x : Spot} {h : HandlerId} {c : Change}
    (kind : c.kind = κ) :
    (Event.mk h c).carries κ x = true ↔ x.1 = h ∧ c.touches x.2 = true := by
  rw [carries, Bool.and_eq_true, Bool.and_eq_true, decide_eq_true_eq, decide_eq_true_eq]
  exact and_congr_left' ((and_iff_left kind).trans eq_comm)

namespace World

theorem ripe_change_iff {κ : ChangeKind} {w : World} {h : HandlerId} {c : Change}
    (present : (w.handler? h).isSome = true) (kind : c.kind = κ) {v : World}
    (keys : v.keysOf = (w.change h c).keysOf) {x : Spot} :
    v.Ripe κ x ↔ w.Ripe κ x ∧ ¬ (x.1 = h ∧ c.touches x.2 = true) := by
  rw [Ripe, keys, keysOf_change present]
  split
  · rename_i here
    rw [← kind, Change.ripe_apply_iff, Ripe, here]
    simp
  · rename_i elsewhere
    exact (and_iff_left fun touched => elsewhere touched.1).symm

end World

namespace Config

namespace Announces

variable {L : Layout} {κ : ChangeKind} {w : World} {stack : List Frame} {replaced : Spot → Prop}
variable {h : HandlerId} {change : Change} {d : Config} {x : Spot}

theorem ripe_iff (a : Announces L κ w stack replaced h change d) :
    d.world.Ripe κ x ↔ w.Ripe κ x ∧ ¬ (x.1 = h ∧ change.touches x.2 = true) :=
  World.ripe_change_iff a.present a.kind a.observed.1

theorem ripe (a : Announces L κ w stack replaced h change d)
    (touched : x.1 = h ∧ change.touches x.2 = true) : w.Ripe κ x := by
  obtain ⟨g, y⟩ := x
  obtain ⟨rfl, touched⟩ := touched
  rw [World.Ripe, ← a.kind]
  exact a.proper.ripe touched

theorem countP (a : Announces L κ w stack replaced h change d) {start : World}
    (since : start.announced <+: w.announced) :
    (start.announcedSince d.world).countP (Event.carries κ x) =
      (start.announcedSince w).countP (Event.carries κ x) +
        if x.1 = h ∧ change.touches x.2 = true then 1 else 0 := by
  rw [World.announcedSince_append since a.observed.2, List.countP_append, List.countP_singleton]
  simp only [Event.carries_iff a.kind]

end Announces

/-- A cascade of one kind is under way that began in the world `w`. Its fault tells whether a
branch was cut off. -/
structure Cascading (κ : ChangeKind) (w : World) (c : Config) : Prop where
  cascade : ∀ f ∈ c.stack, f.Cascades κ
  fits : ∀ f ∈ c.stack, f.Fits w.layout
  faithful : Faithful c
  layout : c.world.layout = w.layout
  cuts : w.cuts κ <+: c.world.cuts κ
  fault : c.fault? = none → c.world.cuts κ = w.cuts κ

/-- The world allows cascades of a kind that are searches. -/
structure Searchable (κ : ChangeKind) (w : World) : Prop where
  views : w.IdleViews
  mappers : κ ≠ .reset → w.IdleMappers
  regular : w.layout.Regular κ

/-- A step of a cascade leads on with the cascade, and cuts no branch off or only one. -/
theorem Cascading.step {κ : ChangeKind} {w : World} {c d : Config} (h : Cascading κ w c)
    (searchable : Searchable κ w) (hs : c.step = some d) :
    Cascading κ w d ∧ c.world.cuts κ <+: d.world.cuts κ ∧
      ∃ stack replaced, (∀ x, c.Offers w.layout x ↔ replaced x ∨ Waits w.layout stack x) ∧
        Spreads w.layout κ c.world stack replaced d := by
  have views := searchable.views.of_layout h.layout
  have mappers := fun moves => (searchable.mappers moves).of_layout h.layout
  obtain ⟨cascade, layout⟩ := cascades_step hs views mappers h.cascade
  have follows := h.faithful.step hs views mappers fun f mem => .inl (h.cascade f mem)
  obtain ⟨fits, spreads⟩ := step_spreads hs searchable.regular h.layout h.cascade h.fits
  refine ⟨⟨cascade, fits, follows.faithful, layout.trans h.layout, h.cuts.trans follows.cuts, ?_⟩,
    follows.cuts, spreads⟩
  intro clean
  obtain ⟨before, same⟩ := follows.uncut clean
  exact same.trans (h.fault before)

/-- The state of a search from some roots that began in the world `w`. Whatever was visited
can be reached, and was announced once, and a handler that announced nothing has not changed.
While no branch is cut off, whatever is ripe and is a root or a successor of what was visited
is still offered. -/
structure Searched (κ : ChangeKind) (w : World) (roots : Spot → Prop) (c : Config) : Prop where
  since : w.announced <+: c.world.announced
  shrinks : ∀ x, c.world.Ripe κ x → w.Ripe κ x
  visited : ∀ x, w.Ripe κ x → ¬ c.world.Ripe κ x → w.layout.Reach (w.Ripe κ) roots x
  offered : ∀ x, c.Offers w.layout x →
    roots x ∨ ∃ y, w.layout.Reach (w.Ripe κ) roots y ∧ w.layout.Leads y x
  once : ∀ x, w.Ripe κ x → ¬ c.world.Ripe κ x →
    (w.announcedSince c.world).countP (Event.carries κ x) = 1
  never : ∀ x, ¬ w.Ripe κ x ∨ c.world.Ripe κ x →
    (w.announcedSince c.world).countP (Event.carries κ x) = 0
  kinds : ∀ e ∈ w.announcedSince c.world, e.change.kind = κ
  untouched : ∀ g, (∀ e ∈ w.announcedSince c.world, e.source ≠ g) →
    c.world.keysOf g = w.keysOf g
  rootsLeft : c.world.cuts κ = w.cuts κ → ∀ x, roots x → c.world.Ripe κ x → c.Offers w.layout x
  successorsLeft : c.world.cuts κ = w.cuts κ → ∀ x y, w.Ripe κ x → ¬ c.world.Ripe κ x →
    w.layout.Leads x y → c.world.Ripe κ y → c.Offers w.layout y

namespace Searched

variable {κ : ChangeKind} {w : World} {roots : Spot → Prop} {c d : Config}
variable {stack : List Frame} {replaced : Spot → Prop}

theorem reach (s : Searched κ w roots c) {x : Spot} (offered : c.Offers w.layout x)
    (ripe : c.world.Ripe κ x) : w.layout.Reach (w.Ripe κ) roots x := by
  obtain root | ⟨y, reached, leads⟩ := s.offered x offered
  · exact .root root (s.shrinks x ripe)
  · exact .step reached leads (s.shrinks x ripe)

/-- A search begins with what is offered first. -/
theorem start (h : GoesOn w.layout κ w [] roots c) : Searched κ w roots c := by
  have ripe : c.world.Ripe κ = w.Ripe κ := by
    funext x
    rw [World.Ripe, h.same.1, World.Ripe]
  have events : w.announcedSince c.world = [] := by
    rw [World.announcedSince, h.same.2, List.drop_length]
  refine ⟨h.same.2 ▸ List.prefix_refl _, fun x hx => ripe ▸ hx, ?_, ?_, ?_, ?_, ?_, ?_, ?_, ?_⟩
  · intro x hx visited
    exact absurd (ripe ▸ hx) visited
  · exact fun x offered => .inl ((h.fewer x offered).resolve_right waits_nil)
  · intro x hx visited
    exact absurd (ripe ▸ hx) visited
  · intro x _
    rw [events]
    rfl
  · intro e he
    rw [events] at he
    cases he
  · exact fun g _ => congrFun h.same.1 g
  · intro uncut x root hx
    obtain offered | unripe | ⟨n, cut⟩ := h.kept x (.inl root)
    · exact offered
    · exact absurd (ripe ▸ hx) unripe
    · rw [uncut] at cut
      simp at cut
  · intro _ x _ hx visited
    exact absurd (ripe ▸ hx) visited

/-- A search goes on without visiting anything. -/
theorem goesOn (s : Searched κ w roots c)
    (cuts : d.world.cuts κ = w.cuts κ → c.world.cuts κ = w.cuts κ)
    (offers : ∀ x, c.Offers w.layout x ↔ replaced x ∨ Waits w.layout stack x)
    (h : GoesOn w.layout κ c.world stack replaced d) : Searched κ w roots d := by
  have ripe : d.world.Ripe κ = c.world.Ripe κ := by
    funext x
    rw [World.Ripe, h.same.1, World.Ripe]
  have events : w.announcedSince d.world = w.announcedSince c.world := by
    rw [World.announcedSince, h.same.2, World.announcedSince]
  have kept : d.world.cuts κ = w.cuts κ → ∀ x, c.world.Ripe κ x → c.Offers w.layout x →
      d.Offers w.layout x := by
    intro uncut x hx offered
    obtain offered | unripe | ⟨n, cut⟩ := h.kept x ((offers x).mp offered)
    · exact offered
    · exact absurd hx unripe
    · rw [uncut, cuts uncut] at cut
      simp at cut
  refine ⟨h.same.2 ▸ s.since, ripe ▸ s.shrinks, ripe ▸ s.visited,
    fun x offered => s.offered x ((offers x).mpr (h.fewer x offered)), ?_, ?_, ?_, ?_, ?_, ?_⟩
  · rw [ripe, events]
    exact s.once
  · rw [ripe, events]
    exact s.never
  · rw [events]
    exact s.kinds
  · rw [events, h.same.1]
    exact s.untouched
  · intro uncut x root hx
    rw [ripe] at hx
    exact kept uncut x hx (s.rootsLeft (cuts uncut) x root hx)
  · intro uncut x y hx visited leads hy
    rw [ripe] at visited hy
    exact kept uncut y hy (s.successorsLeft (cuts uncut) x y hx visited leads hy)

/-- A search visits the spots of a change. -/
theorem announces (s : Searched κ w roots c) {h : HandlerId} {change : Change}
    (cuts : d.world.cuts κ = w.cuts κ → c.world.cuts κ = w.cuts κ)
    (offers : ∀ x, c.Offers w.layout x ↔ replaced x ∨ Waits w.layout stack x)
    (a : Announces w.layout κ c.world stack replaced h change d) : Searched κ w roots d := by
  have ripe : ∀ x, d.world.Ripe κ x ↔
      c.world.Ripe κ x ∧ ¬ (x.1 = h ∧ change.touches x.2 = true) := fun _ => a.ripe_iff
  have events : w.announcedSince d.world = w.announcedSince c.world ++ [⟨h, change⟩] :=
    World.announcedSince_append s.since a.observed.2
  have count := fun x => a.countP s.since (x := x)
  have wasRipe : ∀ x : Spot, x.1 = h ∧ change.touches x.2 = true → c.world.Ripe κ x :=
    fun _ => a.ripe
  have reached : ∀ x : Spot, x.1 = h ∧ change.touches x.2 = true →
      w.layout.Reach (w.Ripe κ) roots x := by
    intro x touched
    refine s.reach ((offers x).mpr (.inl ?_)) (wasRipe x touched)
    obtain ⟨g, y⟩ := x
    obtain ⟨rfl, touched⟩ := touched
    exact a.visited y touched
  -- Of the frame that is replaced, only what the change touches was ripe.
  have kept : ∀ x, d.world.Ripe κ x → c.Offers w.layout x → d.Offers w.layout x := by
    intro x hx offered
    obtain ⟨before, untouched⟩ := (ripe x).mp hx
    obtain gone | waits := (offers x).mp offered
    · exact ((a.others x gone).elim untouched fun unripe => unripe before).elim
    · exact (a.offers x).mpr (.inr waits)
  refine ⟨?_, fun x hx => s.shrinks x ((ripe x).mp hx).1, ?_, ?_, ?_, ?_, ?_, ?_, ?_, ?_⟩
  · rw [a.observed.2]
    exact s.since.trans (List.prefix_append _ _)
  · intro x hx visited
    by_cases touched : x.1 = h ∧ change.touches x.2 = true
    · exact reached x touched
    · exact s.visited x hx fun before => visited ((ripe x).mpr ⟨before, touched⟩)
  · intro x offered
    obtain ⟨y, touched, leads⟩ | waits := (a.offers x).mp offered
    · exact .inr ⟨(h, y), reached (h, y) ⟨rfl, touched⟩, leads⟩
    · exact s.offered x ((offers x).mpr (.inr waits))
  · intro x hx visited
    rw [count]
    by_cases touched : x.1 = h ∧ change.touches x.2 = true
    · rw [if_pos touched, s.never x (.inr (wasRipe x touched))]
    · rw [if_neg touched, s.once x hx fun before => visited ((ripe x).mpr ⟨before, touched⟩)]
  · intro x hx
    rw [count]
    by_cases touched : x.1 = h ∧ change.touches x.2 = true
    · obtain unripe | still := hx
      · exact absurd (s.shrinks x (wasRipe x touched)) unripe
      · exact absurd touched ((ripe x).mp still).2
    · rw [if_neg touched, s.never x (hx.imp id fun still => ((ripe x).mp still).1)]
  · intro e he
    rw [events, List.mem_append, List.mem_singleton] at he
    obtain earlier | rfl := he
    · exact s.kinds e earlier
    · exact a.kind
  · intro g silent
    rw [events] at silent
    have other : g ≠ h := (silent _ (List.mem_append_right _ List.mem_cons_self)).symm
    rw [a.observed.1, World.keysOf_change_of_ne _ other]
    exact s.untouched g fun e earlier => silent e (List.mem_append_left _ earlier)
  · intro uncut x root hx
    exact kept x hx (s.rootsLeft (cuts uncut) x root ((ripe x).mp hx).1)
  · intro uncut x y hx visited leads hy
    by_cases touched : x.1 = h ∧ change.touches x.2 = true
    · obtain ⟨g, z⟩ := x
      obtain ⟨rfl, touched⟩ := touched
      exact (a.offers y).mpr (.inl ⟨z, touched, leads⟩)
    · have before : ¬ c.world.Ripe κ x := fun before => visited ((ripe x).mpr ⟨before, touched⟩)
      exact kept y hy (s.successorsLeft (cuts uncut) x y hx before leads ((ripe y).mp hy).1)

/-- A step of a cascade leads on with the search. -/
theorem step (s : Searched κ w roots c) (h : Cascading κ w c) (searchable : Searchable κ w)
    (hs : c.step = some d) : Searched κ w roots d := by
  obtain ⟨-, grown, stack, replaced, offers, spreads⟩ := h.step searchable hs
  have cuts : d.world.cuts κ = w.cuts κ → c.world.cuts κ = w.cuts κ := by
    intro uncut
    rw [uncut] at grown
    exact grown.eq_of_length_le h.cuts.length_le
  obtain goesOn | ⟨g, change, announces⟩ := spreads
  · exact s.goesOn cuts offers goesOn
  · exact s.announces cuts offers announces

theorem visited_iff_reach (s : Searched κ w roots c) (rest : c.stack = [])
    (uncut : c.world.cuts κ = w.cuts κ) {x : Spot} (hx : w.Ripe κ x) :
    ¬ c.world.Ripe κ x ↔ w.layout.Reach (w.Ripe κ) roots x := by
  have nothing : ∀ y, ¬ c.Offers w.layout y := by
    intro y offered
    obtain ⟨v, stack, reply⟩ := c
    cases rest
    cases reply <;> exact waits_nil offered
  refine ⟨s.visited x hx, fun reached => ?_⟩
  -- Along a path, a ripe successor of something visited would be offered still.
  induction reached with
  | root root _ => exact fun ripe => nothing _ (s.rootsLeft uncut _ root ripe)
  | step reached leads _ ih =>
      exact fun ripe =>
        nothing _ (s.successorsLeft uncut _ _ reached.ripe (ih reached.ripe) leads ripe)

end Searched

/-- What is true of a cascade from its beginning in the world `w` to its end. -/
structure Explores (κ : ChangeKind) (w : World) (roots : Spot → Prop) (c : Config) : Prop where
  cascading : Cascading κ w c
  searched : Searched κ w roots c
  ledger : Ledger w c

namespace Explores

variable {κ : ChangeKind} {w : World} {roots : Spot → Prop} {c d : Config}

theorem of_openCall {kind : ChangeKind} {h : HandlerId} {body : Frame} (cascades : body.Cascades κ)
    (fits : body.Fits w.layout) (silent : body.tells = []) (runs : body.isScript = false)
    (clean : body.fault? = none) (offers : ∀ x, body.Offers w.layout x ↔ roots x) :
    Explores κ w roots (openCall kind h body w []) := by
  have follows : Follows κ w (faultIn []) (openCall kind h body w []) :=
    follows_openCall kind h (by simp) runs clean
  have goesOn : GoesOn w.layout κ w [] (body.Offers w.layout) (openCall kind h body w []) :=
    goesOn_openCall kind h fits
  have all : ∀ {P : Frame → Prop}, Grows P [] (openCall kind h body w []) →
      ∀ f ∈ (openCall kind h body w []).stack, P f := by
    rintro P ⟨pushed, grown, all⟩
    rw [grown, List.append_nil]
    exact all
  refine ⟨⟨all (.openCall trivial cascades), all goesOn.fits, follows.faithful,
    layout_openCall w [] kind h body, follows.cuts, fun none => (follows.uncut none).2⟩,
    .start ?_, .start (still_openCall w [] kind h silent)⟩
  exact ⟨goesOn.fits, goesOn.same, fun x hx => (goesOn.fewer x hx).imp (offers x).mp id,
    fun x hx => goesOn.kept x (hx.imp (offers x).mpr id)⟩

theorem steps (h : Explores κ w roots c) (sound : w.Sound) (searchable : Searchable κ w) {n : Nat}
    (run : Steps n c d) : Explores κ w roots d := by
  induction run with
  | refl _ => exact h
  | cons hs _ ih =>
      exact ih ⟨(h.cascading.step searchable hs).1, h.searched.step h.cascading searchable hs,
        h.ledger.step sound h.cascading.layout hs⟩

end Explores

end Config

end HighlightSync
