import HighlightSync.Proofs.Links
import Mathlib.Data.List.Induction
import Mathlib.Logic.Relation

/-!
# Links stay where they were put

Links that are registered belong to live translators (`World.Orderly`). Here is the converse:
as long as users take listeners away one by one and by name, every live translator has its
source link on its source and a reset link on each of its targets, under the identities that
it keeps, and its source is not one of its targets (`World.Anchored`).

An identity on a handler names one listener, so a translator that takes its links away by their
identities takes nobody else's, and a listener that is taken away by name is a view. Only the
operations that remove listeners without naming them can remove a link behind its translator's
back (`Op.severs`). A session without them keeps its world anchored (`ReachedBy.anchored`).
-/

namespace HighlightSync

/-- Whether an operation takes listeners away without naming them. -/
def Op.severs : Op → Bool
  | .act (.removeAllListeners _) => true
  | .act (.removeListenerId _ _) => true
  | _ => false

namespace World

section Translators

variable {w : World} {t : TranslatorId} {s : TranslatorState}

theorem translator?_removeTarget (found : w.translator? t = some s) (h : HandlerId)
    (u : TranslatorId) : (w.removeTarget t s h).2.translator? u =
      if u = t then
        some { s with targets := s.targets.filter fun other => !decide (other.handler = h) }
      else w.translator? u := by
  rw [World.removeTarget]
  split
  · rename_i target _
    rw [show (World.release _ target).translator? = _ from (sameNames_release _ target).translator?]
    exact Orderly.translator?_modifyTranslator_of_some found _ u
  · rename_i absent
    split
    · rename_i here
      have all : s.targets.filter (fun other => !decide (other.handler = h)) = s.targets :=
        List.filter_eq_self.mpr fun other mem => by
          have elsewhere := List.find?_eq_none.mp absent other mem
          simpa using elsewhere
      rw [here, all, found]
    · rfl

theorem registered_removeTarget {h g : HandlerId} {id : ListenerId} {l : Listener} :
    (w.removeTarget t s h).2.Registered g id l ↔ w.Registered g id l ∧
      s.targets.find? (fun target => decide (target.handler = h)) ≠ some ⟨g, id⟩ := by
  rw [World.removeTarget]
  split
  · rename_i target chosen
    obtain ⟨handler, resetLink⟩ := target
    rw [chosen, ne_eq, Option.some.injEq, Target.mk.injEq, eq_comm (a := handler),
      eq_comm (a := resetLink)]
    exact registered_detach (w := w.modifyTranslator t _)
  · rename_i absent
    simp [absent]

theorem translator?_removeAllTargets (found : w.translator? t = some s) (u : TranslatorId) :
    (w.removeAllTargets t s).translator? u =
      if u = t then some { s with targets := [] } else w.translator? u := by
  rw [World.removeAllTargets, (sameNames_foldl_release s.targets _).translator?]
  exact Orderly.translator?_modifyTranslator_of_some found _ u

theorem registered_removeAllTargets {g : HandlerId} {id : ListenerId} {l : Listener} :
    (w.removeAllTargets t s).Registered g id l ↔ w.Registered g id l ∧ ⟨g, id⟩ ∉ s.targets :=
  registered_foldl_release (w := w.modifyTranslator t _) s.targets

theorem translator?_dropTranslator (found : w.translator? t = some s) (u : TranslatorId) :
    (w.dropTranslator t s).translator? u =
      if u = t then some { s with targets := [], live := false } else w.translator? u := by
  let bare := w.removeAllTargets t s
  let unlinked := (bare.detach s.source s.sourceLink).2
  have same : unlinked.translator? = bare.translator? :=
    (sameNames_detach bare s.source s.sourceLink).translator?
  have emptied : unlinked.translator? t = some { s with targets := [] } := by
    rw [same, translator?_removeAllTargets found, if_pos rfl]
  have marked := Orderly.translator?_modifyTranslator_of_some emptied
    (fun s => { s with live := false }) u
  rw [same, translator?_removeAllTargets found] at marked
  refine Eq.trans marked ?_
  split <;> rfl

theorem registered_dropTranslator {g : HandlerId} {id : ListenerId} {l : Listener} :
    (w.dropTranslator t s).Registered g id l ↔
      w.Registered g id l ∧ ⟨g, id⟩ ∉ s.targets ∧ ¬ (g = s.source ∧ id = s.sourceLink) := by
  rw [← and_assoc, ← registered_removeAllTargets (t := t)]
  exact registered_detach (w := w.removeAllTargets t s)

theorem translator?_addTarget (found : w.translator? t = some s) {h : HandlerId}
    (other : h ≠ s.source) (new : h ∉ s.targetHandlers) (u : TranslatorId) :
    (w.addTarget t s h).2.translator? u =
      if u = t then
        some { s with targets := s.targets ++ [⟨h, (w.attach h (.resetLink t)).1⟩] }
      else w.translator? u := by
  have same := (sameNames_attach w h (.resetLink t)).translator?
  rw [World.addTarget, if_neg other, if_neg new]
  rw [← same] at found ⊢
  exact Orderly.translator?_modifyTranslator_of_some (w := (w.attach h (.resetLink t)).2) found _ u

theorem translator?_addTranslator (w : World) (source : HandlerId) (u : TranslatorId) :
    (w.addTranslator source).2.translator? u =
      if u = (w.addTranslator source).1 then
        some ⟨source, (w.attach source (.sourceLink (w.addTranslator source).1)).1, [], none, true⟩
      else w.translator? u := by
  let t : TranslatorId := ⟨w.translators.next⟩
  let attached := w.attach source (.sourceLink t)
  have same : w.SameNames attached.2 := sameNames_attach w source (.sourceLink t)
  change (attached.2.translators.push _).get? u.number = _
  rw [same.translators, Store.get?_push]
  by_cases new : u = t
  · exact (if_pos (congrArg TranslatorId.number new)).trans (if_pos new).symm
  · exact (if_neg fun same => new (congrArg TranslatorId.mk same)).trans (if_neg new).symm

end Translators

/-- Live translators have all their links registered, and no source is a target. -/
structure Anchored (w : World) : Prop where
  links : ∀ t s, w.translator? t = some s → s.live = true → ∀ h id l, l.owner? = some t →
    s.Keeps h id l → w.Registered h id l
  apart : ∀ t s, w.translator? t = some s → s.source ∉ s.targetHandlers

section Registered

variable {w : World} {h g : HandlerId} {id other : ListenerId} {l m : Listener}

theorem Registered.unique (first : w.Registered h id l) (second : w.Registered h id m) : l = m :=
  Option.some.inj (first.symm.trans second)

theorem registered_of_find? (found : (w.registryOf h).find? l = some id) :
    w.Registered h id l := by
  have passed := List.find?_some found
  rw [decide_eq_true_eq] at passed
  exact passed

theorem Registered.attach (registered : w.Registered g id m) (sound : w.Sound) (h : HandlerId)
    (l : Listener) : (w.attach h l).2.Registered g id m := by
  simp only [World.attach]
  split
  · exact registered
  · rw [Registered, note_eq_record, registryOf_record, registryOf_setRegistry]
    split
    · rename_i here
      have new : (w.registryOf h).get? ((w.registryOf h).append l).1 = none := by
        obtain ⟨i, v, name, -, nobody, -⟩ :=
          Registry.occupy_spec (sound.registries h).vacant (sound.registries h).free_nodup l
        exact nobody _ (congrArg ListenerId.slot name)
      rw [(sound.registries h).get?_append, if_neg, ← here.1]
      · exact registered
      · rintro rfl
        rw [Registered, here.1, new] at registered
        cases registered
    · exact registered

theorem registered_attach_self (sound : w.Sound) (present : (w.handler? h).isSome = true)
    (l : Listener) : (w.attach h l).2.Registered h (w.attach h l).1 l := by
  simp only [World.attach]
  split
  · rename_i id found
    exact registered_of_find? found
  · rw [Registered, note_eq_record, registryOf_record, registryOf_setRegistry,
      if_pos ⟨rfl, present⟩, (sound.registries h).get?_append, if_pos rfl]

end Registered

namespace Anchored

variable {w w' : World} {t : TranslatorId} {s : TranslatorState}

theorem of_bare (translators : w.translators = ∅) : w.Anchored := by
  have absent : ∀ t s, w.translator? t ≠ some s := fun t s found => by
    rw [translator?, translators, Store.get?_empty] at found
    cases found
  exact ⟨fun t s found => absurd found (absent t s), fun t s found => absurd found (absent t s)⟩

theorem of_more (anchored : w.Anchored) (same : w'.translator? = w.translator?)
    (links : ∀ h id l t, l.owner? = some t → w.Registered h id l → w'.Registered h id l) :
    w'.Anchored where
  links t s found live h id l owner keeps :=
    links h id l t owner (anchored.links t s (same ▸ found) live h id l owner keeps)
  apart t s found := anchored.apart t s (same ▸ found)

theorem of_extends (anchored : w.Anchored) (extends' : w.Extends w')
    (same : w'.translators = w.translators) : w'.Anchored := by
  refine anchored.of_more ?_ fun h id l t _ registered => ?_
  · funext t
    rw [translator?, same, translator?]
  · rw [Registered, extends'.registries]
    exact registered

theorem of_layout (anchored : w.Anchored) (same : w'.layout = w.layout) : w'.Anchored :=
  anchored.of_extends (.of_layout same) (congrArg Layout.translators same)

/-- One translator changes, or is new, and has its links; all others keep theirs. -/
theorem revise (anchored : w.Anchored)
    (translators : ∀ u, w'.translator? u = if u = t then some s else w.translator? u)
    (others : ∀ h id l u, u ≠ t → l.owner? = some u → w.Registered h id l → w'.Registered h id l)
    (own : s.live = true → ∀ h id l, l.owner? = some t → s.Keeps h id l → w'.Registered h id l)
    (apart : s.source ∉ s.targetHandlers) : w'.Anchored := by
  refine ⟨?_, ?_⟩
  · intro u s' found live h id l owner keeps
    rw [translators] at found
    split at found
    · rename_i here
      cases found
      exact own live h id l (here ▸ owner) keeps
    · rename_i elsewhere
      exact others h id l u elsewhere owner (anchored.links u s' found live h id l owner keeps)
  · intro u s' found
    rw [translators] at found
    split at found
    · cases found
      exact apart
    · exact anchored.apart u s' found

theorem setMapper (anchored : w.Anchored) (t : TranslatorId) (m : Option MapperId) :
    (w.setMapper t m).Anchored := by
  cases found : w.translator? t with
  | none =>
      refine anchored.of_more ?_ fun _ _ _ _ _ => id
      funext u
      rw [World.setMapper, translator?_modifyTranslator]
      split
      · rename_i here
        rw [here, found, Option.map_none]
      · rfl
  | some s =>
      refine anchored.revise (Orderly.translator?_modifyTranslator_of_some found _)
        (fun _ _ _ _ _ _ => id) ?_ (anchored.apart t s found)
      intro live h id l owner keeps
      exact anchored.links t s found live h id l owner (by cases l <;> exact keeps)

theorem attach (anchored : w.Anchored) (sound : w.Sound) (h : HandlerId) (l : Listener) :
    (w.attach h l).2.Anchored :=
  anchored.of_more (sameNames_attach w h l).translator? fun _ _ _ _ _ registered =>
    registered.attach sound h l

theorem detachView (anchored : w.Anchored) (h : HandlerId) (name : String) :
    (w.detachListener h (.view name)).2.Anchored := by
  rw [World.detachListener]
  split
  · rename_i id found
    have view : w.Registered h id (.view name) := registered_of_find? found
    refine anchored.of_more (sameNames_detach w h id).translator?
      fun g other l t owner registered => registered_detach.mpr ⟨registered, ?_⟩
    rintro ⟨rfl, rfl⟩
    cases registered.unique view
    cases owner
  · exact anchored

section Translators

variable (found : w.translator? t = some s)

include found

/-- The links on other targets and those of other translators stay when a target goes. -/
theorem removeTarget (anchored : w.Anchored) (live : s.live = true) (h : HandlerId) :
    (w.removeTarget t s h).2.Anchored := by
  have released : ∀ {g id}, s.targets.find? (fun o => decide (o.handler = h)) = some ⟨g, id⟩ →
      g = h ∧ w.Registered g id (.resetLink t) := fun {g id} chosen =>
    ⟨by simpa using List.find?_some chosen,
      anchored.links t s found live _ _ (.resetLink t) rfl (List.mem_of_find?_eq_some chosen)⟩
  refine anchored.revise (translator?_removeTarget found h)
    (fun g id l u other owner registered => registered_removeTarget.mpr ⟨registered, ?_⟩)
    (fun _ g id l owner keeps => ?_) ?_
  · intro chosen
    cases registered.unique (released chosen).2
    cases owner
    exact other rfl
  · have before : s.Keeps g id l := by
      cases l with
      | resetLink u => exact (List.mem_filter.mp keeps).1
      | _ => exact keeps
    have registered := anchored.links t s found live g id l owner before
    refine registered_removeTarget.mpr ⟨registered, fun chosen => ?_⟩
    obtain ⟨rfl, link⟩ := released chosen
    cases registered.unique link
    simpa using (List.mem_filter.mp keeps).2
  · intro source
    obtain ⟨other, mem, same⟩ := List.mem_map.mp source
    exact anchored.apart t s found (List.mem_map.mpr ⟨other, (List.mem_filter.mp mem).1, same⟩)

theorem removeAllTargets (anchored : w.Anchored) (live : s.live = true) :
    (w.removeAllTargets t s).Anchored := by
  have stays : ∀ g id l, l ≠ .resetLink t → w.Registered g id l →
      (w.removeAllTargets t s).Registered g id l := by
    intro g id l other registered
    refine registered_removeAllTargets.mpr ⟨registered, fun kept => ?_⟩
    exact other (registered.unique (anchored.links t s found live g id (.resetLink t) rfl kept))
  refine anchored.revise (translator?_removeAllTargets found)
    (fun g id l u other owner registered => stays g id l ?_ registered)
    (fun _ g id l owner keeps => ?_) List.not_mem_nil
  · rintro rfl
    cases owner
    exact other rfl
  · cases l with
    | view name => cases keeps
    | resetLink u => cases keeps
    | sourceLink u =>
        exact stays g id _ (by simp) (anchored.links t s found live g id _ owner keeps)

theorem dropTranslator (anchored : w.Anchored) (live : s.live = true) :
    (w.dropTranslator t s).Anchored := by
  refine anchored.revise (translator?_dropTranslator found)
    (fun g id l u other owner registered => ?_) nofun List.not_mem_nil
  have foreign : ∀ {m}, m.owner? = some t → ¬ w.Registered g id m := fun {m} own here => by
    cases registered.unique here
    exact other (Option.some.inj (owner.symm.trans own))
  refine registered_dropTranslator.mpr ⟨registered, fun kept => ?_, ?_⟩
  · exact foreign rfl (anchored.links t s found live g id (.resetLink t) rfl kept)
  · rintro ⟨rfl, rfl⟩
    exact foreign rfl (anchored.links t s found live _ _ (.sourceLink t) rfl ⟨rfl, rfl⟩)

/-- A handler becomes a target together with a reset link on it. -/
theorem addTarget (anchored : w.Anchored) (sound : w.Sound) {h : HandlerId}
    (present : (w.handler? h).isSome = true) (live : s.live = true) :
    (w.addTarget t s h).2.Anchored := by
  by_cases source : h = s.source
  · rw [World.addTarget, if_pos source]
    exact anchored
  by_cases old : h ∈ s.targetHandlers
  · rw [World.addTarget, if_neg source, if_pos old]
    exact anchored
  have registered : ∀ {g id l}, (w.attach h (.resetLink t)).2.Registered g id l →
      (w.addTarget t s h).2.Registered g id l := fun {g id l} there => by
    rw [World.addTarget, if_neg source, if_neg old]
    exact there
  refine anchored.revise (translator?_addTarget found source old)
    (fun g id l u _ _ there => registered (there.attach sound h _))
    (fun _ g id l owner keeps => registered ?_) ?_
  · have before : ∀ {l}, l.owner? = some t → s.Keeps g id l →
        (w.attach h (.resetLink t)).2.Registered g id l := fun owner keeps =>
      (anchored.links t s found live g id _ owner keeps).attach sound h _
    cases l with
    | view name => cases keeps
    | sourceLink u => exact before owner keeps
    | resetLink u =>
        cases owner
        obtain mem | new := List.mem_append.mp keeps
        · exact before rfl mem
        · cases List.mem_singleton.mp new
          exact registered_attach_self sound present _
  · rw [TranslatorState.targetHandlers, List.map_append, List.mem_append, not_or]
    exact ⟨anchored.apart t s found, by simpa using Ne.symm source⟩

end Translators

theorem addTranslator (anchored : w.Anchored) (sound : w.Sound) {source : HandlerId}
    (present : (w.handler? source).isSome = true) : (w.addTranslator source).2.Anchored := by
  refine anchored.revise (translator?_addTranslator w source)
    (fun g id l u _ _ registered => registered.attach sound source (.sourceLink _))
    (fun _ g id l owner keeps => ?_) List.not_mem_nil
  cases l with
  | view name => cases keeps
  | resetLink u => cases keeps
  | sourceLink u =>
      cases owner
      obtain ⟨rfl, rfl⟩ := keeps
      exact registered_attach_self sound present _

theorem introduce (anchored : w.Anchored) (sound : w.Sound) (name : String) {source : HandlerId}
    (present : (w.handler? source).isSome = true) : (w.introduce name source).Anchored :=
  (anchored.addTranslator sound present).of_extends (.bind _ name _) rfl

theorem addMapperOf (anchored : w.Anchored) (spec : MapperSpec Op) :
    (w.addMapperOf spec).2.Anchored :=
  anchored.of_extends (.addMapperOf w spec) rfl

section Operations

variable (anchored : w.Anchored) (sound : w.Sound) (orderly : w.Orderly)

include anchored sound orderly

/-- Actions keep a world anchored, except for those that take listeners away without naming
them. -/
theorem of_effect {a : Action Op} (spares : (Op.act a).severs = false) (h : w.Effect a w') :
    w'.Anchored := by
  have live : ∀ {name t s}, w.translatorNamed? name = some t → w.translator? t = some s →
      s.live = true := fun named found =>
    orderly.live found (Orderly.mem_names_of_translatorNamed? named) rfl
  cases h with
  | nothing => exact anchored
  | createHandler =>
      exact (anchored.of_extends (Extends.addHandler w _) rfl).of_extends (.bind _ _ _) rfl
  | dropHandler => exact anchored.of_extends (.forget w _) rfl
  | createListener => exact anchored.of_extends (Extends.addView w _ _) rfl
  | addListener => exact anchored.attach sound _ _
  | removeListener => exact anchored.detachView _ _
  | removeListenerId => cases spares
  | removeAllListeners => cases spares
  | createTranslator _ _ present => exact anchored.introduce sound _ present
  | createMapped _ _ present =>
      exact ((anchored.introduce sound _ present).addMapperOf _).setMapper _ _
  | addTarget named found _ present =>
      exact anchored.addTarget found sound present (live named found)
  | removeTarget named found => exact anchored.removeTarget found (live named found) _
  | removeAllTargets named found => exact anchored.removeAllTargets found (live named found)

theorem of_alters {op : Op} (spares : op.severs = false) (h : w.Alters op w') : w'.Anchored := by
  cases h with
  | still same => exact anchored.of_layout same
  | act effect => exact anchored.of_effect sound orderly spares effect
  | mapper same => exact (anchored.addMapperOf _).of_layout same
  | dropTranslator named found =>
      have live := orderly.live found (Orderly.mem_names_of_translatorNamed? named) rfl
      exact (anchored.dropTranslator found live).of_extends (.forget _ _) rfl

end Operations

end Anchored

end World

namespace Config

/-- One move of a session in which only operations of some kind are performed. -/
inductive NextBy (allowed : Op → Prop) : Config → Config → Prop where
  | step {c d} : c.step = some d →
      (∀ f stack op, c = running c.world (f :: stack) → f.due? = some op → allowed op) →
      NextBy allowed c d
  | perform {c} (op : Op) : c.AtRest → allowed op → NextBy allowed c (perform op c.world [])

/-- A session that began in the empty world and performed only operations of some kind, those
of scripts and of lazy input included, has come to a configuration. -/
def ReachedBy (allowed : Op → Prop) : Config → Prop :=
  Relation.ReflTransGen (NextBy allowed) ⟨∅, [], none⟩

variable {allowed : Op → Prop} {c d : Config}

theorem NextBy.next (h : NextBy allowed c d) : Next c d := by
  cases h with
  | step h _ => exact .step h
  | perform op rest _ => exact .perform op rest

theorem ReachedBy.reached (h : ReachedBy allowed c) : Reached c := by
  induction h with
  | refl => exact .refl trivial
  | tail _ next ih => exact .tail ih next.next trivial

theorem reachedBy_built (actions : List (Action Op)) (all : ∀ a ∈ actions, allowed (.act a)) :
    ∃ reply, ReachedBy allowed ⟨World.built actions, [], reply⟩ := by
  induction actions using List.reverseRecOn with
  | nil => exact ⟨none, .refl⟩
  | append_singleton actions a ih =>
      obtain ⟨reply, before⟩ := ih fun b mem => all b (List.mem_append_left _ mem)
      have built : World.built (actions ++ [a]) = ((World.built actions).execute a).2 :=
        List.foldl_concat _ _ _ _
      rw [built]
      exact ⟨_, before.tail (.perform (.act a) (atRest_iff.mpr rfl) (all a (by simp)))⟩

/-- A move that takes listeners away by name only keeps a world anchored. -/
theorem NextBy.anchored (h : NextBy (fun op => op.severs = false) c d) (sound : c.world.Sound)
    (orderly : c.world.Orderly) (anchored : c.world.Anchored) : d.world.Anchored := by
  cases h with
  | perform op _ spares => exact anchored.of_alters sound orderly spares (alters_perform _ _ op)
  | step h spares =>
      obtain same | ⟨t, m, n, replaced⟩ | ⟨f, stack, op, performs, due, rfl⟩ := step_layout h
      · exact anchored.of_layout same
      · exact replaced ▸ (anchored.setMapper t m).of_layout rfl
      · exact anchored.of_alters sound orderly (spares f stack op performs due)
          (alters_perform _ _ op)

/-- Whatever is reached by taking listeners away by name only is anchored. -/
theorem ReachedBy.anchored (h : ReachedBy (fun op => op.severs = false) c) : c.world.Anchored := by
  induction h with
  | refl => exact .of_bare rfl
  | tail before next ih =>
      have reached := ReachedBy.reached before
      exact next.anchored reached.sound reached.orderly ih

end Config

end HighlightSync
