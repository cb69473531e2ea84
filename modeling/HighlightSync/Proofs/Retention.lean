import HighlightSync.Proofs.Anchoring

/-!
# What becomes of a translator

A translator is there from the moment it is made. Moves change it only while it goes by a name,
apart from the mapper that waits for it, and none but a drop by its name ends its life
(`World.Retains`). A dropped translator is never live again, and as no link of it is registered
from then on (`severed_of_dropTranslator`), nobody tells it of new events.
-/

namespace HighlightSync

namespace World

/-- The translator is still there, as live as before, and as it was unless it goes by a name. -/
def Retains (t : TranslatorId) (w v : World) : Prop :=
  ∀ s, w.translator? t = some s → ∃ s', v.translator? t = some s' ∧ s'.live = s.live ∧
    ((∀ name, w.translatorNamed? name ≠ some t) → s' = s)

namespace Retains

variable {t u : TranslatorId} {w v : World} {s r : TranslatorState}

theorem of_same (same : v.translator? t = w.translator? t) : Retains t w v :=
  fun s found => ⟨s, same.trans found, rfl, fun _ => rfl⟩

theorem refl (w : World) : Retains t w w := of_same rfl

theorem of_layout (same : v.layout = w.layout) : Retains t w v :=
  of_same (congrFun (translator?_of_layout same) t)

theorem revise {name : String} (named : w.translatorNamed? name = some u)
    (found : w.translator? u = some s)
    (translators : ∀ k, v.translator? k = if k = u then some r else w.translator? k)
    (live : r.live = s.live) : Retains t w v := by
  intro s' found'
  rw [translators]
  by_cases here : t = u
  · subst here
    cases found.symm.trans found'
    exact ⟨r, if_pos rfl, live, fun unnamed => absurd named (unnamed name)⟩
  · exact ⟨s', (if_neg here).trans found', rfl, fun _ => rfl⟩

theorem detachListener (w : World) (h : HandlerId) (l : Listener) :
    Retains t w (w.detachListener h l).2 := by
  rw [World.detachListener]
  split
  · exact of_same (congrFun (sameNames_detach w h _).translator? t)
  · exact refl w

theorem addTarget {name : String} (named : w.translatorNamed? name = some u)
    (found : w.translator? u = some s) (h : HandlerId) : Retains t w (w.addTarget u s h).2 := by
  by_cases source : h = s.source
  · rw [World.addTarget, if_pos source]
    exact refl w
  by_cases old : h ∈ s.targetHandlers
  · rw [World.addTarget, if_neg source, if_pos old]
    exact refl w
  exact revise named found (translator?_addTarget found source old) rfl

theorem addTranslator (w : World) (source : HandlerId) (m : Option MapperId) :
    Retains t w (w.addTranslator source).2 ∧
      Retains t w ((w.addTranslator source).2.setMapper (w.addTranslator source).1 m) := by
  have new : ∀ s, w.translator? t = some s → t ≠ (w.addTranslator source).1 := by
    rintro s found rfl
    have bound := (Store.get?_isSome_iff.mp (Option.isSome_iff_exists.mpr ⟨s, found⟩)).2
    change w.translators.size + 1 ≤ w.translators.size at bound
    omega
  have kept : ∀ s, w.translator? t = some s → (w.addTranslator source).2.translator? t = some s :=
    fun s found => (translator?_addTranslator w source t).trans ((if_neg (new s found)).trans found)
  refine ⟨fun s found => ⟨s, kept s found, rfl, fun _ => rfl⟩,
    fun s found => ⟨s, ?_, rfl, fun _ => rfl⟩⟩
  rw [World.setMapper, translator?_modifyTranslator, if_neg (new s found), kept s found]

end Retains

theorem Effect.retains {t : TranslatorId} {w v : World} {a : Action Op} (h : w.Effect a v) :
    Retains t w v := by
  cases h with
  | nothing => exact .refl w
  | addListener => exact .of_same (congrFun (sameNames_attach w _ _).translator? t)
  | removeListener => exact .detachListener w _ _
  | removeListenerId => exact .of_same (congrFun (sameNames_detach w _ _).translator? t)
  | createTranslator => exact (Retains.addTranslator w _ none).1
  | createMapped => exact (Retains.addTranslator w _ _).2
  | addTarget named found => exact .addTarget named found _
  | removeTarget named found => exact .revise named found (translator?_removeTarget found _) rfl
  | removeAllTargets named found =>
      exact .revise named found (translator?_removeAllTargets found) rfl
  | createHandler | dropHandler | createListener | removeAllListeners => exact .of_same rfl

/-- The translator was made once, and is not live any more. -/
def IsDead (w : World) (t : TranslatorId) : Prop :=
  ∃ s, w.translator? t = some s ∧ s.live = false

theorem IsDead.not_mem_listeners {t : TranslatorId} {w : World} (dead : w.IsDead t)
    (sound : w.Sound) (orderly : w.Orderly) {l : Listener} (owner : l.owner? = some t)
    (h : HandlerId) : l ∉ w.listeners h := fun mem => by
  obtain ⟨s, found, gone⟩ := dead
  rw [(orderly.exists_keeps sound found owner mem).1] at gone
  cases gone

theorem IsDead.unnamed {t : TranslatorId} {w : World} (dead : w.IsDead t) (orderly : w.Orderly)
    (name : String) : w.translatorNamed? name ≠ some t := fun named => by
  obtain ⟨s, found, gone⟩ := dead
  obtain ⟨s', found', live⟩ :=
    orderly.named name t (Orderly.mem_names_of_translatorNamed? named)
  cases found.symm.trans found'
  rw [live] at gone
  cases gone

end World

namespace Config

/-- An operation retains a translator, or drops it by its name while it is not to get another
mapper. -/
theorem Begins.retains {op : Op} {w : World} {stack : List Frame} {d : Config}
    (h : Begins w stack op d) (t : TranslatorId) :
    World.Retains t w d.world ∨
      ∃ name s, w.translatorNamed? name = some t ∧ w.translator? t = some s ∧
        d.stack = stack ∧ stack.any (Frame.swapsMapperOf t) = false ∧
        d.world.translator? t = some { s with targets := [], live := false } := by
  cases h with
  | refused => exact .inl (.refl w)
  | act effect => exact .inl effect.retains
  | move => exact .inl (.of_layout (layout_openCall _ _ _ _ _))
  | reset => exact .inl (.of_layout (layout_openCall _ _ _ _ _))
  | isHighlighted => exact .inl (.refl w)
  | clearMapper => exact .inl (.of_layout (layout_openCall _ _ _ _ _))
  | @setMapper name spec =>
      exact .inl (World.Retains.of_layout (w := (w.addMapperOf spec).2)
        (layout_openCall _ _ _ _ _))
  | @dropTranslator name u s named found idle =>
      have dropped := World.translator?_dropTranslator found
      by_cases here : t = u
      · subst here
        exact .inr ⟨name, s, named, found, rfl, idle, (dropped t).trans (if_pos rfl)⟩
      · exact .inl (.of_same ((dropped t).trans (if_neg here)))

/-- What a step does to a translator: nothing, unless its mapper is put in place or an operation
is performed. -/
theorem step_translator? {c d : Config} (h : c.step = some d) (t : TranslatorId) :
    d.world.translator? t = c.world.translator? t ∨
      (∃ m stack, c.stack = .swap t m :: stack ∧
        d.world.translator? t = (c.world.setMapper t m).translator? t) ∨
      ∃ f stack op, c = running c.world (f :: stack) ∧ f.due? = some op ∧
        d = perform op c.world (f :: stack) := by
  have still : ∀ {v : World}, v.layout = c.world.layout → v.translator? t = c.world.translator? t :=
    fun same => congrFun (World.translator?_of_layout same) t
  obtain ⟨w, stack, reply⟩ := c
  cases stack with
  | nil => cases h
  | cons f stack =>
      cases reply with
      | none =>
          cases h
          cases due : f.due? with
          | none => exact .inl (still (layout_advance w stack due))
          | some op => exact .inr (.inr ⟨f, stack, op, rfl, due, advance_of_due w stack due⟩)
      | some r =>
          cases h
          cases f with
          | swap u m =>
              by_cases here : t = u
              · subst here
                exact .inr (.inl ⟨m, stack, rfl, rfl⟩)
              · left
                change (w.setMapper u m).translator? t = _
                rw [World.setMapper, World.translator?_modifyTranslator, if_neg here]
          | _ => exact .inl (still (layout_resume w stack (by simp) r))

/-- A move drops a translator, whose state it was. -/
structure Drops (t : TranslatorId) (s : TranslatorState) (c d : Config) : Prop where
  next : Next c d
  found : c.world.translator? t = some s
  live : s.live = true
  dropped : ∀ s', d.world.translator? t = some s' → s'.live = false

/-- When a translator is dropped it loses its targets, and no frame is about to give it another
mapper. -/
theorem Drops.spec {t : TranslatorId} {s : TranslatorState} {c d : Config} (h : Drops t s c d) :
    d.world.translator? t = some { s with targets := [], live := false } ∧
      ∀ m, .swap t m ∉ d.stack := by
  have alive : ∀ {s'}, d.world.translator? t = some s' → s'.live = s.live → False :=
    fun found same => by
      rw [h.dropped _ found, h.live] at same
      cases same
  have performed : ∀ op stack, d = perform op c.world stack →
      d.world.translator? t = some { s with targets := [], live := false } ∧
        ∀ m, .swap t m ∉ d.stack := by
    intro op stack same
    obtain retains | ⟨name, s', -, found, top, idle, gone⟩ :=
      (begins_perform op c.world stack).retains t
    · obtain ⟨s', found', same', -⟩ := retains s h.found
      exact (alive (same ▸ found') same').elim
    · cases h.found.symm.trans found
      refine ⟨same ▸ gone, fun m mem => ?_⟩
      rw [same, top] at mem
      have swaps := List.any_eq_false.mp idle _ mem
      simp [Frame.swapsMapperOf] at swaps
  cases h.next with
  | perform op _ => exact performed op [] rfl
  | step hs =>
      obtain same | ⟨m, stack, -, replaced⟩ | ⟨f, stack, op, -, -, rfl⟩ := step_translator? hs t
      · exact (alive (same.trans h.found) rfl).elim
      · rw [World.setMapper, World.translator?_modifyTranslator, if_pos rfl, h.found] at replaced
        exact (alive replaced rfl).elim
      · exact performed op (f :: stack) rfl

theorem Next.keeps_dead {c d : Config} (h : Next c d) {t : TranslatorId}
    (dead : c.world.IsDead t) : d.world.IsDead t := by
  obtain ⟨s, found, gone⟩ := dead
  have performed : ∀ op stack, (Config.perform op c.world stack).world.IsDead t := by
    intro op stack
    obtain retains | ⟨-, s', -, -, -, -, dropped⟩ :=
      (begins_perform op c.world stack).retains t
    · obtain ⟨s', found', same, -⟩ := retains s found
      exact ⟨s', found', same.trans gone⟩
    · exact ⟨_, dropped, rfl⟩
  cases h with
  | perform op _ => exact performed op []
  | step hs =>
      obtain same | ⟨m, stack, -, replaced⟩ | ⟨f, stack, op, -, -, rfl⟩ := step_translator? hs t
      · exact ⟨s, same.trans found, gone⟩
      · rw [World.setMapper, World.translator?_modifyTranslator, if_pos rfl, found] at replaced
        exact ⟨_, replaced, gone⟩
      · exact performed op (f :: stack)

theorem isDead_dropTranslator {w : World} {name : String} {t : TranslatorId} {stack : List Frame}
    (orderly : w.Orderly) (named : w.translatorNamed? name = some t)
    (idle : stack.any (Frame.swapsMapperOf t) = false) :
    (perform (.dropTranslator name) w stack).world.IsDead t := by
  obtain ⟨s, found, -⟩ := orderly.named name t (World.Orderly.mem_names_of_translatorNamed? named)
  have drops : perform (.dropTranslator name) w stack =
      answered ((w.dropTranslator t s).forget name) stack .done := by
    simp [perform, onTranslator, named, found, idle]
  rw [drops]
  exact ⟨_, (World.translator?_dropTranslator found t).trans (if_pos rfl), rfl⟩

/-- Once a translator has been dropped, at any nesting, it is never live again, and no handler
has a link of it. -/
theorem severed_of_dropTranslator {b c : Config} {name : String} {t : TranslatorId}
    {stack : List Frame} (sound : b.world.Sound) (orderly : b.world.Orderly)
    (named : b.world.translatorNamed? name = some t)
    (idle : stack.any (Frame.swapsMapperOf t) = false)
    (drops : Next b (perform (.dropTranslator name) b.world stack))
    (path : Path (fun _ => True) (perform (.dropTranslator name) b.world stack) c) :
    c.world.IsDead t ∧ ∀ h l, l.owner? = some t → l ∉ c.world.listeners h := by
  have still := (drops.rewires sound).1
  have dead : c.world.IsDead t :=
    path.keeps (isDead_dropTranslator orderly named idle) fun _ _ _ _ next dead =>
      next.keeps_dead dead
  exact ⟨dead, fun h l owner => dead.not_mem_listeners (path.sound still)
    (path.orderly still (drops.orderly orderly sound)) owner h⟩

end Config

end HighlightSync
