import HighlightSync.Machine.Start

/-!
# What actions and operations do

An action names handlers, translators and views. If one of them is not there, or a name is in
use already, nothing happens; else the world changes in one of a few ways (`World.Effect`), and
whoever was named is there. An operation is an action, or it begins a call or a query, or drops
a translator, unless it is refused (`Config.Begins`).

What an action or an operation keeps is therefore shown by going through the constructors of
these two relations, and not through the functions that carry them out.
-/

namespace HighlightSync

namespace World

/-- A new translator on a source, under a name. -/
def introduce (w : World) (name : String) (source : HandlerId) : World :=
  (w.addTranslator source).2.bind name (.translator (w.addTranslator source).1)

/-- What an action does to a world, if it is not refused and does not only ask. -/
inductive Effect (w : World) : Action Op → World → Prop where
  | nothing (a) : w.Effect a w
  | createHandler {name settings} (new : w.isTaken name = false)
      (sound : settings.fault? = none) :
      w.Effect (.createHandler name settings)
        ((w.addHandler settings).2.bind name (.handler (w.addHandler settings).1))
  | dropHandler {name h} (named : w.handlerNamed? name = some h) :
      w.Effect (.dropHandler name) (w.forget name)
  | createListener {name spec} (new : w.view? name = none) :
      w.Effect (.createListener name spec) (w.addView name (.ofSpec spec))
  | addListener {name l h} (named : w.handlerNamed? name = some h)
      (present : (w.handler? h).isSome = true) (known : (w.view? l).isSome = true) :
      w.Effect (.addListener name l) (w.attach h (.view l)).2
  | removeListener {name l h} (named : w.handlerNamed? name = some h)
      (known : (w.view? l).isSome = true) :
      w.Effect (.removeListener name l) (w.detachListener h (.view l)).2
  | removeListenerId {name id h} (named : w.handlerNamed? name = some h) :
      w.Effect (.removeListenerId name (some id)) (w.detach h id).2
  | removeAllListeners {name h} (named : w.handlerNamed? name = some h)
      (present : (w.handler? h).isSome = true) :
      w.Effect (.removeAllListeners name) (w.detachAll h)
  | createTranslator {name source h} (new : w.isTaken name = false)
      (named : w.handlerNamed? source = some h) (present : (w.handler? h).isSome = true) :
      w.Effect (.createTranslator name source none) (w.introduce name h)
  | createMapped {name source spec h} (new : w.isTaken name = false)
      (named : w.handlerNamed? source = some h) (present : (w.handler? h).isSome = true) :
      w.Effect (.createTranslator name source (some spec))
        (((w.introduce name h).addMapperOf spec).2.setMapper (w.addTranslator h).1
          (some ((w.introduce name h).addMapperOf spec).1))
  | addTarget {name target t s h} (named : w.translatorNamed? name = some t)
      (found : w.translator? t = some s) (handler : w.handlerNamed? target = some h)
      (present : (w.handler? h).isSome = true) :
      w.Effect (.addTarget name target) (w.addTarget t s h).2
  | removeTarget {name target t s h} (named : w.translatorNamed? name = some t)
      (found : w.translator? t = some s) (handler : w.handlerNamed? target = some h) :
      w.Effect (.removeTarget name target) (w.removeTarget t s h).2
  | removeAllTargets {name t s} (named : w.translatorNamed? name = some t)
      (found : w.translator? t = some s) :
      w.Effect (.removeAllTargets name) (w.removeAllTargets t s)

section Naming

variable {P : World → Prop} {w : World} {name : String}

/-- What holds of a world, and of every world that going on with a handler of it leads to,
holds after going on with a handler by its name. -/
theorem onHandler_keeps {f : HandlerId → HandlerState → Reply × World} (before : P w)
    (after : ∀ h, w.handlerNamed? name = some h → (w.handler? h).isSome = true →
      ∀ s, P (f h s).2) : P (w.onHandler name f).2 := by
  rw [onHandler]
  split
  · exact before
  · rename_i h named
    split
    · exact before
    · rename_i s found
      exact after h named (by rw [found]; rfl) s

theorem onTranslator_keeps {f : TranslatorId → TranslatorState → Reply × World} (before : P w)
    (after : ∀ t s, w.translatorNamed? name = some t → w.translator? t = some s → P (f t s).2) :
    P (w.onTranslator name f).2 := by
  rw [onTranslator]
  split
  · exact before
  · rename_i t named
    split
    · exact before
    · rename_i s found
      exact after t s named found

theorem onView_keeps {f : Listener → Reply × World} (before : P w)
    (after : (w.view? name).isSome = true → P (f (.view name)).2) :
    P (w.onView name f).2 := by
  rw [onView]
  split
  · exact before
  · rename_i v found
    exact after (by rw [found]; rfl)

end Naming

/-- To carry out an action is to do what it does. -/
theorem effect_execute (w : World) (a : Action Op) : w.Effect a (w.execute a).2 := by
  have nothing : w.Effect a w := .nothing a
  cases a with
  | createHandler name settings =>
      simp only [execute]
      split
      · exact nothing
      · rename_i new
        split
        · exact nothing
        · rename_i sound
          exact .createHandler (by simpa using new) sound
  | dropHandler name => exact onHandler_keeps nothing fun _ named _ _ => .dropHandler named
  | createListener name spec =>
      simp only [execute]
      split
      · exact nothing
      · rename_i new
        exact .createListener (by simpa using new)
  | addListener name l =>
      exact onHandler_keeps nothing fun _ named present _ => onView_keeps nothing fun known =>
        .addListener named present known
  | removeListener name l =>
      exact onHandler_keeps nothing fun _ named _ _ => onView_keeps nothing fun known =>
        .removeListener named known
  | removeListenerId name id =>
      refine onHandler_keeps nothing fun h named _ _ => ?_
      cases id with
      | none => exact nothing
      | some id => exact .removeListenerId named
  | removeAllListeners name =>
      exact onHandler_keeps nothing fun _ named present _ => .removeAllListeners named present
  | createTranslator name source spec =>
      simp only [execute]
      split
      · exact nothing
      · rename_i new
        refine onHandler_keeps nothing fun h named present _ => ?_
        cases spec with
        | none => exact .createTranslator (by simpa using new) named present
        | some spec => exact .createMapped (by simpa using new) named present
  | addTarget name target =>
      refine onTranslator_keeps nothing fun t s named found =>
        onHandler_keeps nothing fun h handler present _ => ?_
      have added : w.Effect (.addTarget name target) (w.addTarget t s h).2 :=
        .addTarget named found handler present
      split <;> simp_all
  | removeTarget name target =>
      exact onTranslator_keeps nothing fun _ _ named found =>
        onHandler_keeps nothing fun _ handler _ _ => .removeTarget named found handler
  | removeAllTargets name =>
      exact onTranslator_keeps nothing fun _ _ named found => .removeAllTargets named found
  | inspectHandler name => exact onHandler_keeps nothing fun _ _ _ _ => nothing
  | contains name k => exact onHandler_keeps nothing fun _ _ _ _ => nothing
  | keys name => exact onHandler_keeps nothing fun _ _ _ _ => nothing
  | inspectTranslator name => exact onTranslator_keeps nothing fun _ _ _ _ => nothing
  | depth => exact nothing
  | threadDepth => exact nothing
  | unknown word => exact nothing

end World

namespace Config

/-- The handler that an operation addresses with a call, if it makes one. -/
def addressee? (w : World) : Op → Option HandlerId
  | .move _ name _ | .reset name => w.handlerNamed? name
  | .swapMapper name _ =>
      (w.translatorNamed? name).bind fun t => (w.translator? t).map TranslatorState.source
  | _ => none

/-- How an operation begins. It is refused if it addresses nobody that is there, or drops a
translator while it waits for another mapper. -/
inductive Begins (w : World) (stack : List Frame) : Op → Config → Prop where
  | refused {op} (nobody : addressee? w op = none) (r) :
      Begins w stack op (answered w stack (.refused r))
  | act {a v} (effect : w.Effect a v) (r) : Begins w stack (.act a) (answered v stack r)
  | move {d name feed h} (named : w.handlerNamed? name = some h) :
      Begins w stack (.move d name feed) (openMove d h feed w stack)
  | reset {name h} (named : w.handlerNamed? name = some h) :
      Begins w stack (.reset name) (openReset h w stack)
  | isHighlighted {name feed h} (named : w.handlerNamed? name = some h) :
      Begins w stack (.isHighlighted name feed)
        (running w (.reading h .query feed.filter feed.pulls [] :: stack))
  | clearMapper {name t s} (named : w.translatorNamed? name = some t)
      (found : w.translator? t = some s) :
      Begins w stack (.swapMapper name none) (openReset s.source w (.swap t none :: stack))
  | setMapper {name spec t s} (named : w.translatorNamed? name = some t)
      (found : w.translator? t = some s) :
      Begins w stack (.swapMapper name (some spec))
        (openReset s.source (w.addMapperOf spec).2
          (.swap t (some (w.addMapperOf spec).1) :: stack))
  | dropTranslator {name t s} (named : w.translatorNamed? name = some t)
      (found : w.translator? t = some s) (idle : stack.any (Frame.swapsMapperOf t) = false) :
      Begins w stack (.dropTranslator name)
        (answered ((w.dropTranslator t s).forget name) stack .done)

theorem begins_perform (op : Op) (w : World) (stack : List Frame) :
    Begins w stack op (perform op w stack) := by
  cases op with
  | act a => exact .act (w.effect_execute a) _
  | move d name feed =>
      simp only [perform, onHandler]
      split
      · rename_i nobody
        exact .refused (show addressee? w (.move d name feed) = none from nobody) _
      · rename_i h named
        exact .move named
  | reset name =>
      simp only [perform, onHandler]
      split
      · rename_i nobody
        exact .refused (show addressee? w (.reset name) = none from nobody) _
      · rename_i h named
        exact .reset named
  | isHighlighted name feed =>
      simp only [perform, onHandler]
      split
      · exact .refused rfl _
      · rename_i h named
        exact .isHighlighted named
  | swapMapper name spec =>
      simp only [perform, onTranslator]
      split
      · rename_i nobody
        exact .refused (by simp only [addressee?, nobody, Option.bind_none]) _
      · rename_i t named
        split
        · rename_i absent
          exact .refused (by simp only [addressee?, named, absent, Option.bind_some,
            Option.map_none]) _
        · rename_i s found
          cases spec with
          | none => exact .clearMapper named found
          | some spec => exact .setMapper named found
  | dropTranslator name =>
      simp only [perform, onTranslator]
      split
      · exact .refused rfl _
      · rename_i t named
        split
        · exact .refused rfl _
        · rename_i s found
          split
          · exact .refused rfl _
          · rename_i idle
            exact .dropTranslator named found (by simpa using idle)

end Config

end HighlightSync
