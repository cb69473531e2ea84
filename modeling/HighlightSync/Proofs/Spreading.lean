import HighlightSync.Proofs.Faults

/-!
# How changes spread

A cascade of one kind is a search in a graph. Its nodes are spots: keys of handlers for a
cascade that moves keys, and handlers for one that resets. An edge leads from a spot of a
handler to wherever a link on the handler passes a change of the spot on
(`Layout.Leads`). A spot is ripe while a change of the kind can still change it.

The stack holds what the search still has to visit: the spots that its frames offer
(`Config.Offers`). A step visits a ripe spot when its handler announces a change, and from
then on the stack offers all its successors; other steps leave the sets alone. An offer goes
away only when its spot is not ripe, or when a branch is cut off
(`step_spreads`).
-/

namespace HighlightSync

/-- A key of a handler, or the handler as a whole. -/
abbrev Spot := HandlerId × Option Key

namespace World

/-- Whether a change of some kind can still change a spot. -/
def Ripe (κ : ChangeKind) (w : World) (x : Spot) : Prop := κ.Ripe (w.keysOf x.1) x.2

/-- Both worlds have the same sets, and no event was announced between them. -/
def SameSets (w v : World) : Prop := v.keysOf = w.keysOf ∧ v.announced = w.announced

namespace SameSets

variable {w v u : World}

theorem refl (w : World) : w.SameSets w := ⟨rfl, rfl⟩

theorem trans (h : w.SameSets v) (g : v.SameSets u) : w.SameSets u :=
  ⟨g.1.trans h.1, g.2.trans h.2⟩

theorem record (w : World) {r : Record} (h : r.announced? = none) : w.SameSets (w.record r) := by
  refine ⟨rfl, ?_⟩
  rw [announced_record, h]
  exact List.append_nil _

theorem note (w : World) {n : Note} (h : n.announced? = none) : w.SameSets (w.note n) :=
  record w h

end SameSets

end World

namespace Layout

/-- The translator with an identity. -/
def translator? (L : Layout) (t : TranslatorId) : Option TranslatorState :=
  L.translators.get? t.number

/-- Whether a translator is there and was not dropped. -/
def isLive (L : Layout) (t : TranslatorId) : Bool := (L.translator? t).any TranslatorState.live

/-- Who is registered on a handler. -/
def listeners (L : Layout) (h : HandlerId) : List Listener :=
  ((L.handler h).elim ∅ HandlerState.registry).snapshot

/-- What a mapper says about a key when it is first asked. -/
def answer (L : Layout) (m : MapperId) (k : Key) : Answer :=
  (L.mapper m).elim (.ok none) fun s => s.answer 0 k

/-- The fine keys that a mapper gives for a key. -/
def fine (L : Layout) (m : MapperId) (k : Key) : KeySet :=
  match L.answer m k with
  | .ok (some keys) => keys
  | _ => ∅

/-- Where a listener passes a change of a spot on: a source link of a live translator passes
a key on to the fine keys on each target and a reset to each target, and a reset link passes
a reset back to the source. -/
inductive Passes (L : Layout) : Listener → Option Key → Spot → Prop where
  | fine {t s m target k j} : L.translator? t = some s → s.live = true → s.mapper = some m →
      target ∈ s.targetHandlers → j ∈ L.fine m k →
        Passes L (.sourceLink t) (some k) (target, some j)
  | down {t s target} : L.translator? t = some s → s.live = true →
      target ∈ s.targetHandlers → Passes L (.sourceLink t) none (target, none)
  | back {t s} : L.translator? t = some s → s.live = true →
      Passes L (.resetLink t) none (s.source, none)

/-- A listener on the handler of the first spot passes its change on to the second. -/
def Leads (L : Layout) (x y : Spot) : Prop := ∃ l ∈ L.listeners x.1, L.Passes l x.2 y

/-- Mappers answer by the key alone, whatever they were asked before. -/
def Steady (L : Layout) : Prop :=
  ∀ m s, L.mapper m = some s → ∀ i j k, s.answer i k = s.answer j k

/-- What a layout has to fulfil for cascades of a kind to be searches: targets exist, mappers
that are asked are steady, and reset links that are heeded belong to live translators. -/
structure Regular (κ : ChangeKind) (L : Layout) : Prop where
  targets : ∀ t s, L.translator? t = some s → ∀ h ∈ s.targetHandlers, (L.handler h).isSome = true
  steady : κ ≠ .reset → L.Steady
  live : κ = .reset → ∀ h t, .resetLink t ∈ L.listeners h → L.isLive t = true

end Layout

namespace Frame

/-- The spots that a frame is going to visit. -/
def Offers (L : Layout) : Frame → Spot → Prop
  | .reading h _ _ pulls taken, x =>
      x.1 = h ∧ ∃ k, x.2 = some k ∧ (k ∈ taken ∨ .key k ∈ pulls)
  | .clearing h, x => x = (h, none)
  | .fanOut e pending _, x => ∃ l ∈ pending, ∃ y, e.change.touches y = true ∧ L.Passes l y x
  | .mapping _ _ m targets _ pending mapped _, x =>
      x.1 ∈ targets ∧ ∃ k, x.2 = some k ∧ ((∃ s ∈ mapped, k ∈ s) ∨ ∃ j ∈ pending, k ∈ L.fine m j)
  | .forwarding _ keys _ pending _, x => x.1 ∈ pending ∧ ∃ k ∈ keys, x.2 = some k
  | .resetTargets _ pending _, x => x.1 ∈ pending ∧ x.2 = none
  | _, _ => False

/-- The frame fits the layout: the handlers it works on exist, the translators it works for
are live, and the answer it holds is that of the mapper. -/
def Fits (L : Layout) : Frame → Prop
  | .reading h _ _ _ _ => (L.handler h).isSome = true
  | .fanOut e pending _ => e.change = .reset → ∀ t, .resetLink t ∈ pending → L.isLive t = true
  | .forward t => L.isLive t = true
  | .mapping _ _ m targets _ pending _ held =>
      (∀ h ∈ targets, (L.handler h).isSome = true) ∧
        ∀ a, held = some a → ∃ k rest, pending = k :: rest ∧ a = L.answer m k
  | .forwarding _ _ _ pending _ => ∀ h ∈ pending, (L.handler h).isSome = true
  | .resetTargets t _ _ => L.isLive t = true
  | _ => True

end Frame

namespace Config

/-- The spots that waiting frames are going to visit. -/
def Waits (L : Layout) (stack : List Frame) (x : Spot) : Prop :=
  ∃ f ∈ stack, f.waiting.Offers L x

/-- The spots that a configuration is going to visit. -/
def Offers (L : Layout) (c : Config) (x : Spot) : Prop :=
  match c.reply, c.stack with
  | none, f :: stack => f.Offers L x ∨ Waits L stack x
  | _, stack => Waits L stack x

section

variable {L : Layout} {κ : ChangeKind} {w v : World} {stack : List Frame} {f : Frame} {x : Spot}

@[simp] theorem waits_nil : ¬ Waits L [] x := by simp [Waits]

@[simp] theorem waits_cons : Waits L (f :: stack) x ↔ f.waiting.Offers L x ∨ Waits L stack x := by
  simp [Waits]

@[simp] theorem offers_running :
    (running w (f :: stack)).Offers L x ↔ f.Offers L x ∨ Waits L stack x := Iff.rfl

@[simp] theorem offers_answered (r : Reply) :
    (answered w stack r).Offers L x ↔ Waits L stack x := by
  cases stack <;> exact Iff.rfl

end

/-- Work goes on without changing any set. What had been offered by frames that are replaced
is offered still, unless it is not ripe or a branch is cut off; nothing else is offered. -/
structure GoesOn (L : Layout) (κ : ChangeKind) (w : World) (stack : List Frame)
    (replaced : Spot → Prop) (d : Config) : Prop where
  fits : Grows (Frame.Fits L) stack d
  same : w.SameSets d.world
  fewer : ∀ x, d.Offers L x → replaced x ∨ Waits L stack x
  kept : ∀ x, replaced x ∨ Waits L stack x →
    d.Offers L x ∨ ¬ w.Ripe κ x ∨ ∃ n, d.world.cuts κ = w.cuts κ ++ [n]

/-- A handler announces a change. The spots that it visits had been offered by the frame that
is replaced, whose other offers are not ripe, and their successors are offered from now on. -/
structure Announces (L : Layout) (κ : ChangeKind) (w : World) (stack : List Frame)
    (replaced : Spot → Prop) (h : HandlerId) (change : Change) (d : Config) : Prop where
  fits : Grows (Frame.Fits L) stack d
  kind : change.kind = κ
  proper : change.Proper (w.keysOf h)
  observed : d.world.keysOf = (w.change h change).keysOf ∧
    d.world.announced = w.announced ++ [⟨h, change⟩]
  present : (w.handler? h).isSome = true
  visited : ∀ y, change.touches y = true → replaced (h, y)
  others : ∀ x, replaced x → (x.1 = h ∧ change.touches x.2 = true) ∨ ¬ w.Ripe κ x
  offers : ∀ x, d.Offers L x ↔
    (∃ y, change.touches y = true ∧ L.Leads (h, y) x) ∨ Waits L stack x

/-- What one step of a cascade does. -/
def Spreads (L : Layout) (κ : ChangeKind) (w : World) (stack : List Frame)
    (replaced : Spot → Prop) (d : Config) : Prop :=
  GoesOn L κ w stack replaced d ∨ ∃ h change, Announces L κ w stack replaced h change d

namespace GoesOn

variable {L : Layout} {κ : ChangeKind} {w v : World} {stack : List Frame} {f : Frame}
variable {replaced replaced' : Spot → Prop} {d : Config}

theorem answered (r : Reply) (same : w.SameSets v)
    (done : ∀ x, replaced x → ¬ w.Ripe κ x) : GoesOn L κ w stack replaced (answered v stack r) where
  fits := .answered r
  same := same
  fewer _ hx := .inr ((offers_answered r).mp hx)
  kept x hx := hx.elim (fun hx => .inr (.inl (done x hx)))
    fun hx => .inl ((offers_answered r).mpr hx)

theorem cut (r : Reply) (same : w.SameSets v) {n : Note}
    (cuts : v.cuts κ = w.cuts κ ++ [n]) :
    GoesOn L κ w stack replaced (Config.answered v stack r) where
  fits := .answered r
  same := same
  fewer _ hx := .inr ((offers_answered r).mp hx)
  kept _ _ := .inr (.inr ⟨n, cuts⟩)

theorem running (fits : f.Fits L) (same : w.SameSets v)
    (takes : ∀ x, f.Offers L x ↔ replaced x) :
    GoesOn L κ w stack replaced (running v (f :: stack)) where
  fits := .running fits
  same := same
  fewer x hx := (offers_running.mp hx).imp (takes x).mp id
  kept x hx := .inl (offers_running.mpr (hx.imp (takes x).mpr id))

theorem under (h : GoesOn L κ w (f :: stack) replaced d) (fits : f.Fits L)
    (split : ∀ x, replaced' x ↔ replaced x ∨ f.waiting.Offers L x) :
    GoesOn L κ w stack replaced' d where
  fits := h.fits.under fits
  same := h.same
  fewer x hx := by
    rw [split, or_assoc]
    simpa only [waits_cons] using h.fewer x hx
  kept x hx := by
    rw [split, or_assoc, ← waits_cons] at hx
    exact h.kept x hx

theorem congr (h : GoesOn L κ v stack replaced d) (same : w.SameSets v)
    (cuts : v.cuts κ = w.cuts κ) : GoesOn L κ w stack replaced d where
  fits := h.fits
  same := same.trans h.same
  fewer := h.fewer
  kept x hx := by
    have kept := h.kept x hx
    rwa [World.Ripe, same.1, cuts] at kept

theorem silently (fits : f.Fits L) (same : w.SameSets v) (nothing : ∀ x, ¬ f.Offers L x)
    (done : ∀ x, ¬ replaced x) : GoesOn L κ w stack replaced (Config.running v (f :: stack)) :=
  .running fits same fun x => iff_of_false (nothing x) (done x)

end GoesOn

section Links

variable {L : Layout} {w : World} {stack : List Frame}

theorem listeners_layout (w : World) (h : HandlerId) : w.layout.listeners h = w.listeners h := by
  simp only [Layout.listeners, World.layout, World.listeners, World.registryOf]
  cases w.handler? h <;> rfl

theorem handler_layout_isSome (w : World) (h : HandlerId) :
    (w.layout.handler h).isSome = (w.handler? h).isSome :=
  Option.isSome_map

/-- When all frames fit, the links of a translator act exactly while it is live. -/
theorem isAtWork_eq (layout : w.layout = L) (fits : ∀ f ∈ stack, f.Fits L) (t : TranslatorId) :
    w.isAtWork stack t = L.isLive t := by
  subst layout
  have works : stack.any (Frame.worksFor t) = true → w.layout.isLive t = true := by
    intro h
    obtain ⟨f, hf, works⟩ := List.any_eq_true.mp h
    have hfits := fits f hf
    cases f with
    | forward u =>
        cases of_decide_eq_true works
        exact hfits
    | resetTargets u pending first =>
        cases of_decide_eq_true works
        exact hfits
    | _ => cases works
  change (w.layout.isLive t || stack.any (Frame.worksFor t)) = _
  cases live : w.layout.isLive t with
  | true => rfl
  | false =>
      rw [Bool.false_or, ← Bool.not_eq_true]
      intro h
      rw [works h] at live
      cases live

theorem isHeld_source {t : TranslatorId} {s : TranslatorState} (ht : w.translator? t = some s)
    (live : s.live = true) : w.isHeld stack s.source = true := by
  have links : w.linksHandler s.source = true :=
    Array.any_eq_true'.mpr ⟨s, Store.mem_of_get? ht, by simp [live]⟩
  rw [World.isHeld, links, Bool.or_true, Bool.true_or]

end Links

end Config

end HighlightSync
