import HighlightSync.Proofs.Observation
import HighlightSync.Proofs.Registry

/-!
# Sound worlds

A world is sound when its registries are, every view that is registered exists, and every
target of a translator exists. Wiring keeps a world sound, and in one operation the list of
those registered on a handler changes in one of two ways: some go and the others keep their
order, or one comes behind all others (`Turnover`).
-/

namespace HighlightSync

/-- Some have gone, or one has come behind all others. -/
def Turnover {α : Type u} (before after : List α) : Prop :=
  after.Sublist before ∨ ∃ a, a ∉ before ∧ after = before ++ [a]

theorem Turnover.refl {α : Type u} (l : List α) : Turnover l l := .inl (.refl l)

namespace World

/-- Who is registered on a handler, in order of registration. -/
def listeners (w : World) (h : HandlerId) : List Listener := (w.registryOf h).snapshot

/-- The registries are sound, and registered views and targets exist. -/
structure Sound (w : World) : Prop where
  registries : ∀ h, (w.registryOf h).Sound
  views : ∀ h name, .view name ∈ w.listeners h → (w.view? name).isSome = true
  targets : ∀ t s, w.translator? t = some s → ∀ h ∈ s.targetHandlers, (w.handler? h).isSome = true

theorem registryOf_of_handler?_eq_none {w : World} {h : HandlerId} (absent : w.handler? h = none) :
    w.registryOf h = ∅ := by
  rw [registryOf, absent]
  rfl

theorem handler?_isSome_of_mem_listeners {w : World} {h : HandlerId} {l : Listener}
    (hl : l ∈ w.listeners h) : (w.handler? h).isSome = true := by
  cases absent : w.handler? h with
  | none =>
      rw [listeners, registryOf_of_handler?_eq_none absent] at hl
      cases hl
  | some s => rfl

theorem handler?_isSome_of_keysOf_ne {w : World} {h : HandlerId} (nonempty : w.keysOf h ≠ ∅) :
    (w.handler? h).isSome = true := by
  cases absent : w.handler? h with
  | none =>
      rw [keysOf, absent] at nonempty
      exact absurd rfl nonempty
  | some s => rfl

theorem Sound.of_bare {w : World} (handlers : w.handlers = ∅) (translators : w.translators = ∅) :
    w.Sound := by
  have none : ∀ h, w.registryOf h = ∅ := fun h =>
    registryOf_of_handler?_eq_none (by rw [handler?, handlers, Store.get?_empty])
  refine ⟨fun h => none h ▸ .empty, ?_, ?_⟩
  · intro h name hv
    rw [listeners, none] at hv
    cases hv
  · intro t s hs
    rw [translator?, translators, Store.get?_empty] at hs
    cases hs

/-- From a sound world to another, while the listeners of each handler turn over at most once. -/
def Rewires (w w' : World) : Prop :=
  w.Sound → w'.Sound ∧ ∀ h, Turnover (w.listeners h) (w'.listeners h)

theorem Rewires.refl (w : World) : w.Rewires w := fun hw => ⟨hw, fun _ => .refl _⟩

/-- From a sound world to another, while listeners may only go. -/
def Shrinks (w w' : World) : Prop :=
  w.Sound → w'.Sound ∧ ∀ h, (w'.listeners h).Sublist (w.listeners h)

theorem Shrinks.refl (w : World) : w.Shrinks w := fun hw => ⟨hw, fun _ => .refl _⟩

theorem Shrinks.trans {w v u : World} (h : w.Shrinks v) (g : v.Shrinks u) : w.Shrinks u := by
  intro hw
  obtain ⟨hv, first⟩ := h hw
  obtain ⟨hu, second⟩ := g hv
  exact ⟨hu, fun i => (second i).trans (first i)⟩

theorem Shrinks.rewires {w w' : World} (h : w.Shrinks w') : w.Rewires w' :=
  fun hw => ⟨(h hw).1, fun i => .inl ((h hw).2 i)⟩

/-- The registries are the same, all handlers and views are still there, and so are the
targets of translators. -/
structure Extends (w w' : World) : Prop where
  registries : w'.registryOf = w.registryOf
  views : ∀ name, (w.view? name).isSome = true → (w'.view? name).isSome = true
  handlers : ∀ h, (w.handler? h).isSome = true → (w'.handler? h).isSome = true
  targets : ∀ t s, w'.translator? t = some s → ∀ h ∈ s.targetHandlers,
    (∃ s', w.translator? t = some s' ∧ h ∈ s'.targetHandlers) ∨ (w'.handler? h).isSome = true

namespace Extends

variable {w w' : World}

theorem listeners (h : w.Extends w') : w'.listeners = w.listeners := by
  funext g
  rw [World.listeners, World.listeners, h.registries]

theorem sound (h : w.Extends w') (hw : w.Sound) : w'.Sound := by
  refine ⟨fun g => h.registries ▸ hw.registries g, ?_, ?_⟩
  · intro g name hv
    exact h.views name (hw.views g name (h.listeners ▸ hv))
  · intro t s hs g hg
    obtain ⟨s', hs', hg'⟩ | hg := h.targets t s hs g hg
    · exact h.handlers g (hw.targets t s' hs' g hg')
    · exact hg

theorem shrinks (h : w.Extends w') : w.Shrinks w' :=
  fun hw => ⟨h.sound hw, fun _ => h.listeners ▸ .refl _⟩

theorem rewires (h : w.Extends w') : w.Rewires w' := h.shrinks.rewires

theorem of_same (handlers : w'.handlers = w.handlers) (views : w'.views = w.views)
    (translators : w'.translators = w.translators) : w.Extends w' := by
  have same : w'.handler? = w.handler? := by
    funext h
    rw [handler?, handler?, handlers]
  refine ⟨?_, ?_, fun h => same ▸ id, ?_⟩
  · funext h
    rw [registryOf, registryOf, same]
  · intro name
    rw [view?, view?, views]
    exact id
  · intro t s hs g hg
    rw [translator?, translators] at hs
    exact .inl ⟨s, hs, hg⟩

theorem note (w : World) (n : Note) : w.Extends (w.note n) := of_same rfl rfl rfl

theorem bind (w : World) (name : String) (s : Subject) : w.Extends (w.bind name s) :=
  of_same rfl rfl rfl

theorem forget (w : World) (name : String) : w.Extends (w.forget name) := of_same rfl rfl rfl

theorem addMapperOf (w : World) (spec : MapperSpec Op) : w.Extends (w.addMapperOf spec).2 :=
  of_same rfl rfl rfl

end Extends

theorem Rewires.extend {w v u : World} (h : w.Rewires v) (g : v.Extends u) : w.Rewires u := by
  intro hw
  obtain ⟨hv, first⟩ := h hw
  exact ⟨g.sound hv, fun i => g.listeners ▸ first i⟩

section Registries

variable {w : World} {h : HandlerId}

theorem registryOf_setRegistry (r : Registry Listener) (g : HandlerId) :
    (w.setRegistry h r).registryOf g =
      if g = h ∧ (w.handler? h).isSome = true then r else w.registryOf g := by
  simp only [registryOf, setRegistry, handler?_modifyHandler]
  by_cases e : g = h
  · subst e
    cases w.handler? g <;> simp
  · simp [e]

theorem handler?_setRegistry_isSome (r : Registry Listener) (g : HandlerId) :
    ((w.setRegistry h r).handler? g).isSome = (w.handler? g).isSome := by
  rw [setRegistry, handler?_modifyHandler]
  split
  · exact Option.isSome_map
  · rfl

theorem listeners_setRegistry (r : Registry Listener) (g : HandlerId) :
    (w.setRegistry h r).listeners g =
      if g = h ∧ (w.handler? h).isSome = true then r.snapshot else w.listeners g := by
  rw [listeners, registryOf_setRegistry]
  split <;> rfl

/-- A sound registry in which only views are registered that exist may take the place of
another. -/
theorem Sound.setRegistry {r : Registry Listener} (hw : w.Sound) (hr : r.Sound)
    (views : ∀ name, .view name ∈ r.snapshot → (w.view? name).isSome = true) :
    (w.setRegistry h r).Sound := by
  refine ⟨?_, ?_, ?_⟩
  · intro g
    rw [registryOf_setRegistry]
    split
    · exact hr
    · exact hw.registries g
  · intro g name hv
    rw [listeners_setRegistry] at hv
    split at hv
    · exact views name hv
    · exact hw.views g name hv
  · intro t s hs g hg
    rw [handler?_setRegistry_isSome]
    exact hw.targets t s hs g hg

theorem handler?_attach_isSome (w : World) (h : HandlerId) (l : Listener) (g : HandlerId) :
    ((w.attach h l).2.handler? g).isSome = (w.handler? g).isSome := by
  simp only [attach]
  split
  · rfl
  · exact handler?_setRegistry_isSome _ g

/-- Registering a listener puts it behind all others, if it was not there. -/
theorem rewires_attach (w : World) (h : HandlerId) {l : Listener}
    (view : ∀ name, l = .view name → (w.view? name).isSome = true) :
    w.Rewires (w.attach h l).2 := by
  simp only [attach]
  split
  · exact .refl w
  · rename_i absent
    refine .extend (fun hw => ?_) (.note _ _)
    have new : l ∉ w.listeners h := (hw.registries h).find?_eq_none_iff.mp absent
    obtain ⟨sound, stored⟩ := (hw.registries h).append new
    refine ⟨hw.setRegistry sound ?_, ?_⟩
    · intro name hv
      rw [stored, List.mem_append, List.mem_singleton] at hv
      exact hv.elim (hw.views h name) fun e => view name e.symm
    · intro g
      rw [listeners_setRegistry]
      split
      · rename_i e
        exact .inr ⟨l, e.1 ▸ new, e.1 ▸ stored⟩
      · exact .refl _

theorem shrinks_setRegistry {r : Registry Listener}
    (hr : w.Sound → r.Sound ∧ r.snapshot.Sublist (w.listeners h)) :
    w.Shrinks (w.setRegistry h r) := by
  intro hw
  obtain ⟨sound, sub⟩ := hr hw
  refine ⟨hw.setRegistry sound fun name hv => hw.views h name (sub.subset hv), fun g => ?_⟩
  rw [listeners_setRegistry]
  split
  · rename_i e
    exact e.1 ▸ sub
  · exact .refl _

theorem shrinks_detach (w : World) (h : HandlerId) (id : ListenerId) :
    w.Shrinks (w.detach h id).2 := by
  simp only [detach]
  split
  · exact (shrinks_setRegistry fun hw => (hw.registries h).remove id).trans
      (Extends.note _ _).shrinks
  · exact .refl w

theorem shrinks_detachListener (w : World) (h : HandlerId) (l : Listener) :
    w.Shrinks (w.detachListener h l).2 := by
  rw [detachListener]
  split
  · exact shrinks_detach w h _
  · exact .refl w

theorem shrinks_detachAll (w : World) (h : HandlerId) : w.Shrinks (w.detachAll h) :=
  shrinks_setRegistry fun _ => ⟨.empty, List.nil_sublist _⟩

theorem shrinks_release (w : World) (target : Target) : w.Shrinks (w.release target) :=
  (shrinks_detach w _ _).trans (Extends.note _ _).shrinks

theorem shrinks_foldl_release (targets : List Target) (w : World) :
    w.Shrinks (targets.foldl release w) := by
  induction targets generalizing w with
  | nil => exact .refl w
  | cons target targets ih => exact (shrinks_release w target).trans (ih _)

end Registries

section Translators

theorem Extends.modifyTranslator (w : World) (t : TranslatorId)
    {f : TranslatorState → TranslatorState}
    (fewer : ∀ s, ∀ h ∈ (f s).targetHandlers, h ∈ s.targetHandlers ∨ (w.handler? h).isSome = true) :
    w.Extends (w.modifyTranslator t f) := by
  refine ⟨rfl, fun _ h => h, fun _ h => h, ?_⟩
  intro u s hs g hg
  rw [translator?_modifyTranslator] at hs
  split at hs
  · obtain ⟨s', hs', rfl⟩ := Option.map_eq_some_iff.mp hs
    exact (fewer s' g hg).imp (fun h => ⟨s', hs', h⟩) id
  · exact .inl ⟨s, hs, hg⟩

theorem Extends.setMapper (w : World) (t : TranslatorId) (m : Option MapperId) :
    w.Extends (w.setMapper t m) :=
  .modifyTranslator w t fun _ _ => .inl

theorem shrinks_removeAllTargets (w : World) (t : TranslatorId) (s : TranslatorState) :
    w.Shrinks (w.removeAllTargets t s) :=
  (Extends.modifyTranslator w t fun _ _ hg => (List.not_mem_nil hg).elim).shrinks.trans
    (shrinks_foldl_release s.targets _)

theorem shrinks_removeTarget (w : World) (t : TranslatorId) (s : TranslatorState)
    (h : HandlerId) : w.Shrinks (w.removeTarget t s h).2 := by
  rw [removeTarget]
  split
  · refine Shrinks.trans (Extends.modifyTranslator w t ?_).shrinks (shrinks_release _ _)
    intro s g hg
    obtain ⟨target, ht, rfl⟩ := List.mem_map.mp hg
    exact .inl (List.mem_map_of_mem (List.mem_filter.mp ht).1)
  · exact .refl w

theorem shrinks_dropTranslator (w : World) (t : TranslatorId) (s : TranslatorState) :
    w.Shrinks (w.dropTranslator t s) := by
  refine ((shrinks_removeAllTargets w t s).trans (shrinks_detach _ s.source s.sourceLink)).trans ?_
  exact (Extends.note _ _).shrinks.trans
    (Extends.modifyTranslator _ t (f := fun s => { s with live := false }) fun _ _ => .inl).shrinks

theorem rewires_addTranslator (w : World) (source : HandlerId) :
    w.Rewires (w.addTranslator source).2 := by
  simp only [addTranslator]
  refine (rewires_attach w source (by simp)).extend
    ⟨rfl, fun _ h => h, fun _ h => h, ?_⟩
  intro t s hs g hg
  rw [note_eq_record, translator?_record, translator?, Store.get?_push] at hs
  split at hs
  · cases hs
    cases hg
  · exact .inl ⟨s, hs, hg⟩

theorem rewires_introduce (w : World) (name : String) (source : HandlerId) :
    w.Rewires (w.introduce name source) :=
  (rewires_addTranslator w source).extend (.bind _ _ _)

theorem rewires_addTarget (w : World) (t : TranslatorId) (s : TranslatorState) {h : HandlerId}
    (hh : (w.handler? h).isSome = true) : w.Rewires (w.addTarget t s h).2 := by
  rw [addTarget]
  split
  · exact .refl w
  · split
    · exact .refl w
    · refine ((rewires_attach w h (by simp)).extend (.note _ _)).extend
        (.modifyTranslator _ t ?_)
      intro s g hg
      rw [TranslatorState.targetHandlers, List.map_append, List.mem_append] at hg
      refine hg.imp id fun hg => ?_
      cases List.mem_singleton.mp hg
      exact (handler?_attach_isSome w h _ h).trans hh

end Translators

theorem Extends.addHandler (w : World) (settings : Settings) :
    w.Extends (w.addHandler settings).2 := by
  have old : ∀ h, (w.addHandler settings).2.handler? h =
      if h.number = w.handlers.next then some ⟨settings, ∅, ∅⟩ else w.handler? h :=
    fun h => Store.get?_push _ _ _
  refine ⟨?_, fun _ h => h, ?_, fun t s hs g hg => .inl ⟨s, hs, hg⟩⟩
  · funext h
    rw [registryOf, old]
    split
    · rename_i new
      have absent : w.handler? h = none := by
        rw [handler?, ← Option.not_isSome_iff_eq_none, Store.get?_isSome_iff, new, Store.next]
        omega
      exact (registryOf_of_handler?_eq_none absent).symm
    · rfl
  · intro h hh
    rw [old]
    split
    · rfl
    · exact hh

theorem Extends.addView (w : World) (name : String) (b : Behavior) :
    w.Extends (w.addView name b) := by
  refine ⟨rfl, ?_, fun _ h => h, fun t s hs g hg => .inl ⟨s, hs, hg⟩⟩
  intro other h
  rw [view?, World.addView, List.lookup_append]
  rw [view?] at h
  cases found : w.views.lookup other with
  | none => simp [found] at h
  | some v => rfl

/-- In one action the listeners of each handler turn over at most once. -/
theorem Effect.rewires {w v : World} {a : Action Op} (h : w.Effect a v) : w.Rewires v := by
  cases h with
  | nothing => exact .refl w
  | createHandler => exact (Extends.addHandler w _).rewires.extend (.bind _ _ _)
  | dropHandler => exact (Extends.forget w _).rewires
  | createListener => exact (Extends.addView w _ _).rewires
  | addListener _ _ known =>
      refine rewires_attach w _ fun name same => ?_
      cases same
      exact known
  | removeListener => exact (shrinks_detachListener w _ _).rewires
  | removeListenerId => exact (shrinks_detach w _ _).rewires
  | removeAllListeners => exact (shrinks_detachAll w _).rewires
  | createTranslator => exact rewires_introduce w _ _
  | createMapped =>
      exact ((rewires_introduce w _ _).extend (.addMapperOf _ _)).extend (Extends.setMapper _ _ _)
  | addTarget _ _ _ present => exact rewires_addTarget w _ _ present
  | removeTarget => exact (shrinks_removeTarget w _ _ _).rewires
  | removeAllTargets => exact (shrinks_removeAllTargets w _ _).rewires

end World

end HighlightSync
