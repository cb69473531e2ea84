import HighlightSync.Proofs.Links
import Mathlib.Data.List.Induction

/-!
# What a translator takes away

A translator takes its links away by the identities that it was given for them. Such an
identity may be out of date, when a user has removed the link before: then its slot is
vacant, or has a later version (`Registry.Reserved`), so that the identity means nobody
else. Hence dropping a translator, or taking its targets away, removes links of this
translator only (`own_of_detaches`).

This needs that no registry on which the translator has a link was started afresh since.
Removing all listeners forgets the versions that were used, and then an identity from before
may mean a registration of somebody else (`foreign_of_detaches`).
-/

namespace HighlightSync

namespace Registry

variable {α : Type u} {r : Registry α} {id : ListenerId} {a b : α}

/-- An identity can mean no value but the given one: its slot has seen its version, and gives
no other value under it. -/
def Reserved (r : Registry α) (id : ListenerId) (a : α) : Prop :=
  ∃ s, r.slot? id.slot = some s ∧ id.version ≤ s.version ∧
    (s.version = id.version → ∀ b, s.occupant = some b → b = a)

theorem reserved_of_get? (found : r.get? id = some a) : r.Reserved id a :=
  ⟨_, get?_eq_some_iff.mp found, Nat.le_refl _, fun _ _ same => (Option.some.inj same).symm⟩

theorem Reserved.eq_of_get? (reserved : r.Reserved id a) (found : r.get? id = some b) : b = a := by
  obtain ⟨s, slot, -, only⟩ := reserved
  cases slot.symm.trans (get?_eq_some_iff.mp found)
  exact only rfl b rfl

/-- A slot that is taken again gets a later version, and no other slot changes. -/
theorem exists_slot?_occupy (vacant : ∀ i ∈ r.free, ∃ v, r.slot? i = some ⟨v, none⟩) {j : Nat}
    {s : Slot α} (slot : r.slot? j = some s) (a : α) :
    ∃ s', (r.occupy a).2.slot? j = some s' ∧ (s' = s ∨ s.version < s'.version) := by
  obtain ⟨slots, free, order, snapshot⟩ := r
  cases free with
  | nil =>
      refine ⟨s, ?_, .inl rfl⟩
      cases j with
      | zero => cases slot
      | succ j =>
          have bound : j < slots.size := (Array.getElem?_eq_some_iff.mp slot).1
          simp only [occupy, slot?, Array.getElem?_push, Nat.ne_of_lt bound, if_false]
          exact slot
  | cons i rest =>
      obtain ⟨v, here⟩ := vacant i List.mem_cons_self
      have slots' : ∀ k, (Registry.mk slots (i :: rest) order snapshot |>.occupy a).2.slot? k =
          if k = i then some ⟨v + 2, some a⟩ else slot? ⟨slots, i :: rest, order, snapshot⟩ k := by
        intro k
        simp only [occupy, here, Option.elim_some]
        exact slot?_setSlot (by rw [here]; rfl)
      rw [slots']
      by_cases same : j = i
      · subst same
        cases slot.symm.trans here
        exact ⟨_, if_pos rfl, .inr (Nat.lt_add_of_pos_right (by decide))⟩
      · exact ⟨s, (if_neg same).trans slot, .inl rfl⟩

/-- A slot that is vacated keeps its version, and no other slot changes. -/
theorem exists_slot?_remove {j : Nat} {s : Slot α} (slot : r.slot? j = some s)
    (id : ListenerId) : ∃ s', (r.remove id).slot? j = some s' ∧ s'.version = s.version ∧
      ∀ b, s'.occupant = some b → s.occupant = some b := by
  rw [Registry.remove]
  split
  · rename_i b found
    have occupied := get?_eq_some_iff.mp found
    have slots : ∀ k, (r.setSlot id.slot ⟨id.version, none⟩).slot? k =
        if k = id.slot then some ⟨id.version, none⟩ else r.slot? k := by
      intro k
      apply slot?_setSlot
      rw [occupied]
      rfl
    by_cases same : j = id.slot
    · rw [same, occupied] at slot
      cases slot
      refine ⟨_, (slots j).trans (if_pos same), rfl, fun c occupied => ?_⟩
      cases occupied
    · exact ⟨s, ((slots j).trans (if_neg same)).trans slot, rfl, fun _ occupied => occupied⟩
  · exact ⟨s, slot, rfl, fun _ occupied => occupied⟩

theorem Reserved.append (reserved : r.Reserved id a) (sound : r.Sound) (b : α) :
    (r.append b).2.Reserved id a := by
  obtain ⟨s, slot, seen, only⟩ := reserved
  obtain ⟨s', slot', rfl | later⟩ := exists_slot?_occupy sound.vacant slot b
  · exact ⟨s', slot', seen, only⟩
  · exact ⟨s', slot', by omega, fun same => by omega⟩

theorem Reserved.remove (reserved : r.Reserved id a) (other : ListenerId) :
    (r.remove other).Reserved id a := by
  obtain ⟨s, slot, seen, only⟩ := reserved
  obtain ⟨s', slot', version, fewer⟩ := exists_slot?_remove slot other
  rw [← version] at seen only
  exact ⟨s', slot', seen, fun same b occupied => only same b (fewer b occupied)⟩

end Registry

/-- The operations by which a translator that goes by a name takes links away. -/
inductive Op.Detaches (name : String) : Op → Prop where
  | dropTranslator : Detaches name (.dropTranslator name)
  | removeTarget (target : String) : Detaches name (.act (.removeTarget name target))
  | removeAllTargets : Detaches name (.act (.removeAllTargets name))

namespace World

/-- No registry on which a live translator has a link has just been started afresh. -/
def Unbroken (t : TranslatorId) (w : World) : Prop :=
  ∀ s ∈ w.translator? t, s.live = true →
    ∀ h ∈ s.source :: s.targetHandlers, 0 < (w.registryOf h).slots.size

instance (t : TranslatorId) (w : World) : Decidable (w.Unbroken t) :=
  inferInstanceAs (Decidable (∀ s ∈ w.translator? t, s.live = true →
    ∀ h ∈ s.source :: s.targetHandlers, 0 < (w.registryOf h).slots.size))

/-- The identities that a live translator keeps mean nobody else's registration. -/
def Secured (t : TranslatorId) (w : World) : Prop :=
  ∀ s, w.translator? t = some s → s.live = true → ∀ h id l, l.owner? = some t →
    s.Keeps h id l → (w.registryOf h).Reserved id l

/-- From a world to another in which identities mean nobody new, while the translator keeps
identities from before or that mean nobody else. -/
structure Carries (t : TranslatorId) (w w' : World) : Prop where
  reserved : ∀ h id l, (w.registryOf h).Reserved id l → (w'.registryOf h).Reserved id l
  kept : ∀ s', w'.translator? t = some s' → s'.live = true → ∀ h id l, l.owner? = some t →
    s'.Keeps h id l → (∃ s, w.translator? t = some s ∧ s.live = true ∧ s.Keeps h id l) ∨
      (w'.registryOf h).Reserved id l

namespace Carries

variable {t : TranslatorId} {w v u : World}

theorem of_same (registries : v.registryOf = w.registryOf)
    (translators : v.translator? = w.translator?) : Carries t w v where
  reserved _ _ _ reserved := registries ▸ reserved
  kept s found live _ _ _ _ keeps := .inl ⟨s, translators ▸ found, live, keeps⟩

theorem refl (w : World) : Carries t w w := of_same rfl rfl

theorem trans (h : Carries t w v) (g : Carries t v u) : Carries t w u where
  reserved i id l reserved := g.reserved i id l (h.reserved i id l reserved)
  kept s found live i id l owner keeps := by
    obtain ⟨s', found', live', keeps'⟩ | reserved := g.kept s found live i id l owner keeps
    · exact (h.kept s' found' live' i id l owner keeps').imp_right (g.reserved i id l)
    · exact .inr reserved

theorem secured (h : Carries t w v) (secured : w.Secured t) : v.Secured t := by
  intro s found live i id l owner keeps
  obtain ⟨s', found', live', keeps'⟩ | reserved := h.kept s found live i id l owner keeps
  · exact h.reserved i id l (secured s' found' live' i id l owner keeps')
  · exact reserved

theorem note (w : World) (n : Note) : Carries t w (w.note n) := of_same rfl rfl

theorem setRegistry {h : HandlerId} {r : Registry Listener}
    (reserved : ∀ id l, (w.registryOf h).Reserved id l → r.Reserved id l) :
    Carries t w (w.setRegistry h r) where
  reserved g id l before := by
    rw [registryOf_setRegistry]
    split
    · rename_i here
      exact reserved id l (here.1 ▸ before)
    · exact before
  kept s found live _ _ _ _ keeps := .inl ⟨s, found, live, keeps⟩

theorem detach (w : World) (h : HandlerId) (id : ListenerId) : Carries t w (w.detach h id).2 := by
  simp only [World.detach]
  split
  · exact (setRegistry fun _ _ before => before.remove id).trans (.note _ _)
  · exact .refl w

theorem detachListener (w : World) (h : HandlerId) (l : Listener) :
    Carries t w (w.detachListener h l).2 := by
  rw [World.detachListener]
  split
  · exact .detach w h _
  · exact .refl w

theorem attach (sound : w.Sound) (h : HandlerId) (l : Listener) :
    Carries t w (w.attach h l).2 := by
  simp only [World.attach]
  split
  · exact .refl w
  · exact (setRegistry fun _ _ before => before.append (sound.registries h) l).trans (.note _ _)

theorem release (w : World) (target : Target) : Carries t w (w.release target) :=
  (detach w target.handler target.resetLink).trans (.note _ _)

theorem foldl_release (targets : List Target) (w : World) :
    Carries t w (targets.foldl World.release w) := by
  induction targets generalizing w with
  | nil => exact .refl w
  | cons target targets ih => exact (release w target).trans (ih _)

theorem modifyTranslator (w : World) (u : TranslatorId) {f : TranslatorState → TranslatorState}
    (fewer : ∀ s, (f s).live = true → s.live = true ∧ ∀ h id l, (f s).Keeps h id l →
      s.Keeps h id l) : Carries t w (w.modifyTranslator u f) where
  reserved _ _ _ := id
  kept s found live h id l _ keeps := by
    rw [translator?_modifyTranslator] at found
    split at found
    · obtain ⟨s', found', rfl⟩ := Option.map_eq_some_iff.mp found
      obtain ⟨live', before⟩ := fewer s' live
      exact .inl ⟨s', found', live', before h id l keeps⟩
    · exact .inl ⟨s, found, live, keeps⟩

theorem setMapper (w : World) (u : TranslatorId) (m : Option MapperId) :
    Carries t w (w.setMapper u m) :=
  modifyTranslator w u fun s live => ⟨live, fun h id l keeps => by cases l <;> exact keeps⟩

theorem removeAllTargets (w : World) (u : TranslatorId) (s : TranslatorState) :
    Carries t w (w.removeAllTargets u s) := by
  refine trans (modifyTranslator w u (f := fun s => { s with targets := [] })
    fun s live => ⟨live, fun h id l keeps => ?_⟩) (foldl_release s.targets _)
  cases l with
  | resetLink u => cases keeps
  | _ => exact keeps

theorem removeTarget (w : World) (u : TranslatorId) (s : TranslatorState) (g : HandlerId) :
    Carries t w (w.removeTarget u s g).2 := by
  rw [World.removeTarget]
  split
  · refine trans (modifyTranslator w u
      (f := fun s => { s with targets := s.targets.filter fun o => !decide (o.handler = g) })
      fun s live => ⟨live, fun h id l keeps => ?_⟩) (release _ _)
    cases l with
    | resetLink u => exact (List.mem_filter.mp keeps).1
    | _ => exact keeps
  · exact .refl w

theorem dropTranslator (w : World) (u : TranslatorId) (s : TranslatorState) :
    Carries t w (w.dropTranslator u s) :=
  (((removeAllTargets w u s).trans (detach _ _ _)).trans (.note _ _)).trans
    (modifyTranslator _ u fun _ dropped => nomatch dropped)

end Carries

section Linking

variable {t : TranslatorId} {w : World}

theorem reserved_attach (sound : w.Sound) {h : HandlerId} (present : (w.handler? h).isSome = true)
    (l : Listener) : ((w.attach h l).2.registryOf h).Reserved (w.attach h l).1 l := by
  refine Registry.reserved_of_get? ?_
  simp only [attach]
  split
  · rename_i id found
    rw [Registry.find?] at found
    simpa using List.find?_some found
  · rw [note_eq_record, registryOf_record, registryOf_setRegistry, if_pos ⟨rfl, present⟩,
      (sound.registries h).get?_append, if_pos rfl]

theorem carries_addTranslator (sound : w.Sound) {source : HandlerId}
    (present : (w.handler? source).isSome = true) :
    Carries t w (w.addTranslator source).2 := by
  let new : TranslatorId := ⟨w.translators.next⟩
  let attached := w.attach source (.sourceLink new)
  have same : w.SameNames attached.2 := sameNames_attach w source (.sourceLink new)
  have carried : Carries t w attached.2 := .attach sound source (.sourceLink new)
  refine ⟨carried.reserved, fun s found live h id l owner keeps => ?_⟩
  change (attached.2.translators.push _).get? t.number = some s at found
  rw [same.translators, Store.get?_push] at found
  split at found
  · rename_i isNew
    cases found
    cases l with
    | view name => cases keeps
    | resetLink u => cases keeps
    | sourceLink u =>
        obtain ⟨rfl, rfl⟩ := keeps
        cases owner
        obtain rfl : new = t := congrArg TranslatorId.mk isNew.symm
        exact .inr (reserved_attach sound present (.sourceLink new))
  · exact .inl ⟨s, found, live, keeps⟩

theorem carries_addTarget (sound : w.Sound) {u : TranslatorId} {s : TranslatorState}
    {h : HandlerId} (present : (w.handler? h).isSome = true) :
    Carries t w (w.addTarget u s h).2 := by
  rw [addTarget]
  split
  · exact .refl w
  · split
    · exact .refl w
    · let attached := w.attach h (.resetLink u)
      have same : w.SameNames attached.2 := sameNames_attach w h (.resetLink u)
      have carried : Carries t w attached.2 := .attach sound h (.resetLink u)
      refine ⟨carried.reserved, fun s' found live g id l owner keeps => ?_⟩
      change (attached.2.modifyTranslator u _).translator? t = some s' at found
      rw [translator?_modifyTranslator, same.translator?] at found
      split at found
      · rename_i here
        obtain ⟨s, found', rfl⟩ := Option.map_eq_some_iff.mp found
        cases l with
        | view name => cases keeps
        | sourceLink u => exact .inl ⟨s, found', live, keeps⟩
        | resetLink u' =>
            cases owner
            subst here
            obtain old | new := List.mem_append.mp keeps
            · exact .inl ⟨s, found', live, old⟩
            · cases List.mem_singleton.mp new
              exact .inr (reserved_attach sound present _)
      · exact .inl ⟨s', found, live, keeps⟩

theorem carries_introduce (sound : w.Sound) (name : String) {source : HandlerId}
    (present : (w.handler? source).isSome = true) : Carries t w (w.introduce name source) :=
  (carries_addTranslator sound present).trans (.of_same rfl rfl)

/-- An action keeps identities from meaning somebody new, unless it removes all listeners. -/
theorem Effect.carries {v : World} {a : Action Op} (h : w.Effect a v) (sound : w.Sound) :
    Carries t w v ∨ ∃ h, v = w.detachAll h := by
  cases h with
  | nothing => exact .inl (.refl w)
  | createHandler => exact .inl (.of_same (Extends.addHandler w _).registries rfl)
  | dropHandler => exact .inl (.of_same rfl rfl)
  | createListener => exact .inl (.of_same rfl rfl)
  | addListener => exact .inl (.attach sound _ _)
  | removeListener => exact .inl (.detachListener w _ _)
  | removeListenerId => exact .inl (.detach w _ _)
  | @removeAllListeners _ h => exact .inr ⟨h, rfl⟩
  | createTranslator _ _ present => exact .inl (carries_introduce sound _ present)
  | @createMapped name _ spec h _ _ present =>
      have named : Carries t w ((w.introduce name h).addMapperOf spec).2 :=
        (carries_introduce sound name present).trans (.of_same rfl rfl)
      exact .inl (named.trans (.setMapper _ _ _))
  | addTarget _ _ _ present => exact .inl (carries_addTarget sound present)
  | removeTarget => exact .inl (.removeTarget w _ _ _)
  | removeAllTargets => exact .inl (.removeAllTargets w _ _)

theorem Alters.carries {v : World} {op : Op} (h : w.Alters op v) (sound : w.Sound) :
    Carries t w v ∨ ∃ h, v = w.detachAll h := by
  have still : ∀ {u u' : World}, u'.layout = u.layout → Carries t u u' := fun same =>
    .of_same (registryOf_of_layout same) (translator?_of_layout same)
  cases h with
  | still same => exact .inl (still same)
  | act effect => exact effect.carries sound
  | @mapper _ spec _ same =>
      have added : Carries t w (w.addMapperOf spec).2 := .of_same rfl rfl
      exact .inl (added.trans (still same))
  | dropTranslator => exact .inl ((Carries.dropTranslator w _ _).trans (.of_same rfl rfl))

theorem secured_detachAll {h : HandlerId} (secured : w.Secured t)
    (unbroken : (w.detachAll h).Unbroken t) : (w.detachAll h).Secured t := by
  intro s found live g id l owner keeps
  have linked : g ∈ s.source :: s.targetHandlers := by
    cases l with
    | view name => cases keeps
    | sourceLink u => exact keeps.1 ▸ List.mem_cons_self
    | resetLink u => exact List.mem_cons_of_mem _ (List.mem_map_of_mem keeps)
  have used := unbroken s found live g linked
  rw [detachAll, registryOf_setRegistry] at used ⊢
  split at used
  · exact absurd used (Nat.lt_irrefl 0)
  · rename_i elsewhere
    rw [if_neg elsewhere]
    exact secured s found live g id l owner keeps

end Linking

/-- Listeners that do not belong to a translator stay registered. -/
def Spares (t : TranslatorId) (w w' : World) : Prop :=
  ∀ h id l, l.owner? ≠ some t → w.Registered h id l → w'.Registered h id l

section Spares

variable {t : TranslatorId} {s : TranslatorState} {w : World}

theorem Secured.own (secured : w.Secured t) (found : w.translator? t = some s)
    (live : s.live = true) {h : HandlerId} {id : ListenerId} {l m : Listener}
    (owner : l.owner? = some t) (keeps : s.Keeps h id l) (registered : w.Registered h id m) :
    m.owner? = some t :=
  (secured s found live h id l owner keeps).eq_of_get? registered ▸ owner

variable (secured : w.Secured t) (found : w.translator? t = some s) (live : s.live = true)

include secured found live

theorem spares_removeTarget (h : HandlerId) : w.Spares t (w.removeTarget t s h).2 := by
  intro g id l other registered
  rw [removeTarget]
  split
  · rename_i target chosen
    refine registered_detach.mpr ⟨registered, ?_⟩
    rintro ⟨rfl, rfl⟩
    exact other (secured.own found live (l := .resetLink t) rfl
      (List.mem_of_find?_eq_some chosen) registered)
  · exact registered

theorem spares_removeAllTargets : w.Spares t (w.removeAllTargets t s) := by
  intro g id l other registered
  refine (registered_foldl_release s.targets).mpr ⟨registered, fun kept => ?_⟩
  exact other (secured.own found live (l := .resetLink t) rfl kept registered)

theorem spares_dropTranslator : w.Spares t (w.dropTranslator t s) := by
  intro g id l other registered
  refine registered_detach.mpr
    ⟨spares_removeAllTargets secured found live g id l other registered, ?_⟩
  rintro ⟨rfl, rfl⟩
  exact other (secured.own found live (l := .sourceLink t) rfl ⟨rfl, rfl⟩ registered)

end Spares

/-- An operation by which a translator takes links away spares those of others. -/
theorem Alters.spares {t : TranslatorId} {w v : World} {op : Op} {name : String}
    (h : w.Alters op v) (secured : w.Secured t) (named : w.translatorNamed? name = some t)
    (detaches : op.Detaches name) (live : ∀ s, w.translator? t = some s → s.live = true) :
    w.Shrinks v ∧ w.Spares t v := by
  have still : ∀ {u : World}, w.Extends u → w.Shrinks u ∧ w.Spares t u := fun same =>
    ⟨same.shrinks, fun h id l _ registered => by
      rw [Registered, same.registries]
      exact registered⟩
  cases h with
  | still same => exact still (.of_layout same)
  | act effect =>
      cases effect with
      | nothing => exact still (.refl w)
      | @removeTarget _ _ _ s h named' found =>
          cases detaches
          cases named.symm.trans named'
          exact ⟨shrinks_removeTarget w t s h, spares_removeTarget secured found (live s found) h⟩
      | @removeAllTargets _ _ s named' found =>
          cases detaches
          cases named.symm.trans named'
          exact ⟨shrinks_removeAllTargets w t s,
            spares_removeAllTargets secured found (live s found)⟩
      | _ => cases detaches
  | mapper => cases detaches
  | @dropTranslator _ _ s named' found =>
      cases detaches
      cases named.symm.trans named'
      exact ⟨(shrinks_dropTranslator w t s).trans (Extends.forget _ name).shrinks,
        spares_dropTranslator secured found (live s found)⟩

end World

namespace Config

/-- A move of a session keeps the identities of a translator secured, if it does not start
registries afresh on which the translator has links. -/
theorem Next.secured {t : TranslatorId} {c d : Config} (h : Next c d) (sound : c.world.Sound)
    (secured : c.world.Secured t) (unbroken : d.world.Unbroken t) : d.world.Secured t := by
  have performed : ∀ op stack, (Config.perform op c.world stack).world.Unbroken t →
      (Config.perform op c.world stack).world.Secured t := by
    intro op stack unbroken
    obtain carries | ⟨g, removed⟩ := (alters_perform c.world stack op).carries (t := t) sound
    · exact carries.secured secured
    · rw [removed] at unbroken ⊢
      exact World.secured_detachAll secured unbroken
  cases h with
  | perform op _ => exact performed op [] unbroken
  | step h =>
      obtain same | ⟨u, m, n, replaced⟩ | ⟨f, stack, op, -, -, rfl⟩ := step_layout h
      · exact (World.Carries.of_same (World.registryOf_of_layout same)
          (World.translator?_of_layout same)).secured secured
      · rw [replaced]
        exact ((World.Carries.setMapper c.world u m).trans (.note _ n)).secured secured
      · exact performed op (f :: stack) unbroken

theorem Path.secured {t : TranslatorId} {c : Config}
    (path : Path (fun c => c.world.Unbroken t) ⟨∅, [], none⟩ c) : c.world.Secured t := by
  refine (path.keeps (I := fun c => c.world.Sound ∧ c.world.Secured t) ⟨.of_bare rfl rfl, ?_⟩
    fun _ _ _ unbroken next before =>
      ⟨(next.rewires before.1).1, next.secured before.1 before.2 unbroken⟩).2
  intro s found
  have none : (∅ : World).translator? t = none := Store.get?_empty _
  cases none.symm.trans found

/-- Dropping a translator, or taking targets of it away, removes links of this translator only,
and leaves all others registered in their order. This holds in every session in which no
handler had all its listeners removed while the translator led from it or to it, and at any
nesting. -/
theorem own_of_detaches {t : TranslatorId} {c : Config}
    (path : Path (fun c => c.world.Unbroken t) ⟨∅, [], none⟩ c) {name : String}
    (named : c.world.translatorNamed? name = some t) {op : Op} (detaches : op.Detaches name)
    (stack : List Frame) (h : HandlerId) :
    ((perform op c.world stack).world.listeners h).Sublist (c.world.listeners h) ∧
      ∀ l ∈ c.world.listeners h, l ∉ (perform op c.world stack).world.listeners h →
        l.owner? = some t := by
  have reached : Reached c := path.mono fun _ _ => trivial
  have secured := path.secured
  have spares := (alters_perform c.world stack op).spares secured named detaches fun s found =>
    reached.orderly.live found (World.Orderly.mem_names_of_translatorNamed? named) rfl
  obtain ⟨sound, fewer⟩ := spares.1 reached.sound
  refine ⟨fewer h, fun l mem gone => ?_⟩
  obtain ⟨id, registered⟩ := (World.exists_registered_iff reached.sound).mpr mem
  by_contra other
  exact gone ((World.exists_registered_iff sound).mp ⟨id, spares.2 h id l other registered⟩)

section Examples

/-- A world that is built is come to through the worlds that are built before it. -/
theorem path_built {P : World → Prop} (actions : List (Action Op))
    (holds : ∀ n ∈ List.range (actions.length + 1), P (.built (actions.take n))) :
    ∃ reply, Path (fun c => P c.world) ⟨∅, [], none⟩ ⟨World.built actions, [], reply⟩ := by
  induction actions using List.reverseRecOn with
  | nil => exact ⟨none, .refl (holds 0 (by simp))⟩
  | append_singleton actions a ih =>
      have last : P (.built (actions ++ [a])) := by
        have whole := holds (actions.length + 1) (by simp)
        rwa [List.take_of_length_le (by simp)] at whole
      have earlier : ∀ n ∈ List.range (actions.length + 1), P (.built (actions.take n)) := by
        intro n bound
        have le : n ≤ actions.length := Nat.le_of_lt_succ (List.mem_range.mp bound)
        have part := holds n (by simp; omega)
        rwa [List.take_append_of_le_length le] at part
      obtain ⟨reply, path⟩ := ih earlier
      have built : World.built (actions ++ [a]) = ((World.built actions).execute a).2 :=
        List.foldl_concat _ _ _ _
      rw [built] at last ⊢
      exact ⟨_, path.tail (.perform (.act a) (atRest_iff.mpr rfl)) last⟩

/-- A translator whose reset link a user has removed, and a view that has got its slot. -/
def slotReused : List (Action Op) :=
  [.createHandler "a" .plain, .createHandler "b" .plain, .createListener "v" onlooker,
    .createTranslator "t" "a" (some echo), .addTarget "t" "b",
    .removeListenerId "b" (some ⟨1, 1⟩), .addListener "b" "v"]

/-- A view stays registered that has the slot of a link when the link's target is taken away. -/
theorem own_of_detaches_slotReused :
    (World.built slotReused).Registered ⟨2⟩ ⟨1, 3⟩ (.view "v") ∧
      .view "v" ∈
        (perform (.act (.removeAllTargets "t")) (.built slotReused) []).world.listeners ⟨2⟩ := by
  obtain ⟨reply, path⟩ := path_built (P := World.Unbroken ⟨1⟩) slotReused (by decide +kernel)
  have named : (World.built slotReused).translatorNamed? "t" = some ⟨1⟩ := by decide +kernel
  have mem : .view "v" ∈ (World.built slotReused).listeners ⟨2⟩ := by decide +kernel
  refine ⟨by unfold World.Registered; decide +kernel, ?_⟩
  by_contra gone
  cases (own_of_detaches path named .removeAllTargets [] ⟨2⟩).2 _ mem gone

/-- A translator whose source has forgotten the versions that it had used, and a view that has
got the first one again. -/
def versionReused : List (Action Op) :=
  [.createHandler "a" .plain, .createListener "v" onlooker,
    .createTranslator "t" "a" (some echo), .removeAllListeners "a", .addListener "a" "v"]

/-- A translator that is dropped may remove somebody else's registration, when all listeners
of its source had been removed. -/
theorem foreign_of_detaches :
    ∃ (c : Config) (name : String) (t : TranslatorId) (op : Op) (h : HandlerId) (l : Listener),
      Reached c ∧ c.world.translatorNamed? name = some t ∧ op.Detaches name ∧
        l ∈ c.world.listeners h ∧ l ∉ (perform op c.world []).world.listeners h ∧
        l.owner? ≠ some t := by
  obtain ⟨reply, reached⟩ := reached_built versionReused
  have named : (World.built versionReused).translatorNamed? "t" = some ⟨1⟩ := by decide +kernel
  have mem : .view "v" ∈ (World.built versionReused).listeners ⟨1⟩ := by decide +kernel
  have gone : .view "v" ∉
      (perform (.dropTranslator "t") (.built versionReused) []).world.listeners ⟨1⟩ := by
    decide +kernel
  exact ⟨_, "t", ⟨1⟩, .dropTranslator "t", ⟨1⟩, .view "v", reached, named, .dropTranslator, mem,
    gone, by decide⟩

end Examples

end Config

end HighlightSync
