import HighlightSync.Proofs.Guarded
import HighlightSync.Proofs.Roll

/-!
# Rearranging registries

All that wiring does to registries it does by requests, and it warns of nothing
(`World.Rearranges`). So at every moment each handler has the registry that a row of requests makes
of the one it had before, and this keeps a roll of who is registered (`Config.rolls_of_sound`). The
four actions that manage listeners are one request each, on the registry of the handler they name
and on no other, whether they are performed from outside or by scripts and lazy input.
-/

namespace HighlightSync

/-- The note, if it is a warning. -/
def Record.warning? : Record → Option Note
  | .note n => if n.level = .warn then some n else none
  | _ => none

namespace World

/-- All warnings so far, in order. -/
def warnings (w : World) : List Note := w.journal.toList.filterMap Record.warning?

theorem warnings_record (w : World) (r : Record) :
    (w.record r).warnings = w.warnings ++ r.warning?.toList := by
  simp only [warnings, toList_journal_record, List.filterMap_append, List.filterMap_cons,
    List.filterMap_nil]
  cases r.warning? <;> rfl

theorem warnings_record_of_quiet (w : World) {r : Record} (quiet : r.warning? = none) :
    (w.record r).warnings = w.warnings := by
  rw [warnings_record, quiet, Option.toList_none, List.append_nil]

/-- The registries of a world come from those of another by requests of some kind. -/
def Requested (may : Registry.Request Listener → Bool) (w v : World) : Prop :=
  ∀ h, ∃ requests, (∀ request ∈ requests, may request = true) ∧
    v.registryOf h = ((w.registryOf h).performAll requests).2

theorem Requested.of_eq {may : Registry.Request Listener → Bool} {w v : World}
    (same : v.registryOf = w.registryOf) : w.Requested may v :=
  fun _ => ⟨[], by simp, by rw [same]; rfl⟩

/-- A world comes from another by requests of some kind to registries, without a warning. -/
structure Rearranges (may : Registry.Request Listener → Bool) (w v : World) : Prop where
  warnings : v.warnings = w.warnings
  requested : w.Requested may v

end World

theorem Registry.performAll_append {α : Type u} [DecidableEq α] (r : Registry α)
    (first second : List (Request α)) :
    (r.performAll (first ++ second)).2 = ((r.performAll first).2.performAll second).2 := by
  induction first generalizing r with
  | nil => rfl
  | cons request first ih => exact ih _

/-- The request that an action makes if it manages listeners, and the handler it names. -/
def Action.request? : Action Op → Option (String × Registry.Request Listener)
  | .addListener name l => some (name, .add (.view l))
  | .removeListener name l => some (name, .remove (.view l))
  | .removeListenerId name (some id) => some (name, .removeId id)
  | .removeAllListeners name => some (name, .clear)
  | _ => none

/-- The requests that an action may make. -/
def Action.mayRequest : Action Op → Registry.Request Listener → Bool
  | .addListener _ l, .add l' => decide (l' = .view l)
  | .removeListener _ l, .remove l' => decide (l' = .view l)
  | .removeListenerId _ id, .removeId id' => decide (id = some id')
  | .removeAllListeners _, .clear => true
  | .createTranslator _ _ _, .add (.sourceLink _) => true
  | .addTarget _ _, .add (.resetLink _) => true
  | .removeTarget _ _, .removeId _ | .removeAllTargets _, .removeId _ => true
  | _, _ => false

/-- The requests that an operation may begin with. -/
def Op.mayRequest : Op → Registry.Request Listener → Bool
  | .act a, request => a.mayRequest request
  | .dropTranslator _, .removeId _ => true
  | _, _ => false

namespace World

namespace Rearranges

variable {may : Registry.Request Listener → Bool} {w v u : World}

theorem of_same (registries : v.registryOf = w.registryOf) (warnings : v.warnings = w.warnings) :
    w.Rearranges may v where
  warnings := warnings
  requested := .of_eq registries

theorem refl (w : World) : w.Rearranges may w := .of_same rfl rfl

theorem trans (first : w.Rearranges may v) (second : v.Rearranges may u) :
    w.Rearranges may u where
  warnings := second.warnings.trans first.warnings
  requested h := by
    obtain ⟨requests, all, before⟩ := first.requested h
    obtain ⟨more, all', after⟩ := second.requested h
    refine ⟨requests ++ more, fun request mem => ?_, ?_⟩
    · exact (List.mem_append.mp mem).elim (all request) (all' request)
    · rw [after, before, Registry.performAll_append]

theorem noted (rearranges : w.Rearranges may v) (n : Note)
    (quiet : (Record.note n).warning? = none) :
    w.Rearranges may (v.note n) :=
  rearranges.trans (.of_same rfl (warnings_record_of_quiet v quiet))

theorem congr (rearranges : w.Rearranges may v) (handlers : u.handlers = v.handlers)
    (journal : u.journal = v.journal) : w.Rearranges may u := by
  refine rearranges.trans (.of_same ?_ ?_)
  · funext h
    rw [registryOf, registryOf, handler?, handler?, handlers]
  · rw [World.warnings, World.warnings, journal]

theorem request (w : World) (h : HandlerId) (request : Registry.Request Listener)
    (allowed : may request = true) :
    w.Rearranges may (w.setRegistry h ((w.registryOf h).perform request).2) where
  warnings := rfl
  requested g := by
    rw [registryOf_setRegistry]
    split
    · rename_i same
      exact ⟨[request], by simpa using allowed, by rw [same.1]; rfl⟩
    · exact ⟨[], by simp, rfl⟩

theorem attach (w : World) (h : HandlerId) {l : Listener} (allowed : may (.add l) = true) :
    w.Rearranges may (w.attach h l).2 := by
  cases found : (w.registryOf h).find? l with
  | some id =>
      simp only [World.attach, found]
      exact .refl w
  | none =>
      have requested := request w h _ allowed
      simp only [Registry.perform, Registry.register, found] at requested
      simp only [World.attach, found]
      exact requested.noted (.listenerAdded h _) rfl

theorem detach (w : World) (h : HandlerId) {id : ListenerId} (allowed : may (.removeId id) = true) :
    w.Rearranges may (w.detach h id).2 := by
  rw [World.detach]
  split
  · exact (request w h _ allowed).noted (.listenerRemoved h _) rfl
  · exact .refl w

theorem detachListener (w : World) (h : HandlerId) {l : Listener}
    (allowed : may (.remove l) = true) : w.Rearranges may (w.detachListener h l).2 := by
  cases found : (w.registryOf h).find? l with
  | none =>
      simp only [World.detachListener, found]
      exact .refl w
  | some id =>
      have requested := request w h _ allowed
      simp only [Registry.perform, found, Option.elim_some, Registry.performRemoveId] at requested
      simp only [World.detachListener, found, World.detach]
      split
      · exact requested.noted (.listenerRemoved h _) rfl
      · exact .refl w

theorem modifyTranslator (w : World) (t : TranslatorId) (f : TranslatorState → TranslatorState) :
    w.Rearranges may (w.modifyTranslator t f) :=
  .of_same rfl rfl

theorem addTranslator (w : World) (source : HandlerId)
    (allowed : ∀ t, may (.add (.sourceLink t)) = true) :
    w.Rearranges may (w.addTranslator source).2 :=
  ((attach w source (allowed ⟨w.translators.next⟩)).noted (.translatorAttached source) rfl).congr
    rfl rfl

theorem introduce (w : World) (name : String) (source : HandlerId)
    (allowed : ∀ t, may (.add (.sourceLink t)) = true) :
    w.Rearranges may (w.introduce name source) :=
  (addTranslator w source allowed).congr rfl rfl

theorem addTarget (w : World) (t : TranslatorId) (s : TranslatorState) (h : HandlerId)
    (allowed : may (.add (.resetLink t)) = true) : w.Rearranges may (w.addTarget t s h).2 := by
  rw [World.addTarget]
  split
  · exact .refl w
  · split
    · exact .refl w
    · exact ((attach w h allowed).noted (.targetAdded s.source h) rfl).trans
        (modifyTranslator _ t _)

section Release

variable (allowed : ∀ id, may (.removeId id) = true)

include allowed

theorem release (w : World) (target : Target) : w.Rearranges may (w.release target) :=
  (detach w _ (allowed _)).noted (.targetRemoved target.handler) rfl

theorem foldl_release (targets : List Target) (w : World) :
    w.Rearranges may (targets.foldl World.release w) := by
  induction targets generalizing w with
  | nil => exact .refl w
  | cons target targets ih => exact (release allowed w target).trans (ih _)

theorem removeTarget (w : World) (t : TranslatorId) (s : TranslatorState) (h : HandlerId) :
    w.Rearranges may (w.removeTarget t s h).2 := by
  rw [World.removeTarget]
  split
  · exact (modifyTranslator w t _).trans (release allowed _ _)
  · exact .refl w

theorem removeAllTargets (w : World) (t : TranslatorId) (s : TranslatorState) :
    w.Rearranges may (w.removeAllTargets t s) :=
  (modifyTranslator w t _).trans (foldl_release allowed s.targets _)

theorem dropTranslator (w : World) (t : TranslatorId) (s : TranslatorState) :
    w.Rearranges may (w.dropTranslator t s) :=
  (((removeAllTargets allowed w t s).trans (detach _ _ (allowed _))).noted
    (.translatorDetached s.source) rfl).trans (modifyTranslator _ t _)

end Release

end Rearranges

theorem Effect.rearranges {w v : World} {a : Action Op} (h : w.Effect a v) :
    w.Rearranges a.mayRequest v := by
  cases h with
  | nothing => exact .refl w
  | createHandler => exact .of_same (Extends.addHandler w _).registries rfl
  | dropHandler => exact .of_same rfl rfl
  | createListener => exact .of_same rfl rfl
  | addListener => exact .attach w _ (decide_eq_true rfl)
  | removeListener => exact .detachListener w _ (decide_eq_true rfl)
  | removeListenerId => exact .detach w _ (decide_eq_true rfl)
  | removeAllListeners => exact .request w _ .clear rfl
  | createTranslator => exact .introduce w _ _ fun _ => rfl
  | @createMapped name _ _ h => exact (Rearranges.introduce w name h fun _ => rfl).congr rfl rfl
  | addTarget => exact .addTarget w _ _ _ rfl
  | removeTarget => exact .removeTarget (fun _ => rfl) w _ _ _
  | removeAllTargets => exact .removeAllTargets (fun _ => rfl) w _ _

end World

namespace Registry.Outcome

/-- The reply that tells the outcome of a request. -/
def reply : Outcome → Reply
  | .id listener => .registered listener
  | .found b => .truth b
  | .done => .done

end Registry.Outcome

namespace World

/-- The roll of those who are registered on a handler. -/
def rollOf (w : World) (h : HandlerId) : Roll Listener := (w.registryOf h).roll

/-- Where registries come from others by requests, the rolls have served these requests. -/
theorem Requested.serves_all {may : Registry.Request Listener → Bool} {w v : World}
    (requested : w.Requested may v) (h : HandlerId) (sound : (w.registryOf h).Sound) :
    ∃ requests outcomes, (∀ request ∈ requests, may request = true) ∧
      (w.rollOf h).ServesAll requests outcomes (v.rollOf h) := by
  obtain ⟨requests, all, after⟩ := requested h
  refine ⟨requests, ((w.registryOf h).performAll requests).1, all, ?_⟩
  rw [rollOf, rollOf, after]
  exact (sound.serves_all requests).2

/-- The views that a request is about exist. -/
def Knows (w : World) : Registry.Request Listener → Prop
  | .add (.view l) | .remove (.view l) => (w.view? l).isSome = true
  | _ => True

/-- A request has been made to the registry of one handler, and nothing to the others. -/
structure Grants (w : World) (h : HandlerId) (request : Registry.Request Listener)
    (outcome : Registry.Outcome) (v : World) : Prop where
  outcome : outcome = ((w.registryOf h).perform request).1
  here : v.registryOf h = ((w.registryOf h).perform request).2
  elsewhere : ∀ g, g ≠ h → v.registryOf g = w.registryOf g

namespace Grants

variable {w : World} {h : HandlerId}

theorem setRegistry {v : World} (present : (w.handler? h).isSome = true)
    (request : Registry.Request Listener)
    (same : v.registryOf = (w.setRegistry h ((w.registryOf h).perform request).2).registryOf) :
    w.Grants h request ((w.registryOf h).perform request).1 v where
  outcome := rfl
  here := by rw [same, registryOf_setRegistry, if_pos ⟨rfl, present⟩]
  elsewhere g other := by rw [same, registryOf_setRegistry, if_neg fun both => other both.1]

theorem idle {request : Registry.Request Listener} {outcome : Registry.Outcome}
    (same : (w.registryOf h).perform request = (outcome, w.registryOf h)) :
    w.Grants h request outcome w where
  outcome := by rw [same]
  here := by rw [same]
  elsewhere _ _ := rfl

variable (present : (w.handler? h).isSome = true)

include present

theorem attach (l : Listener) : w.Grants h (.add l) (.id (w.attach h l).1) (w.attach h l).2 := by
  cases found : (w.registryOf h).find? l with
  | some id =>
      simp only [World.attach, found]
      exact idle (by simp only [Registry.perform, Registry.register, found])
  | none =>
      have granted := setRegistry (v := (w.attach h l).2) present (.add l) (by
        simp only [World.attach, Registry.perform, Registry.register, found]
        rfl)
      simpa only [World.attach, Registry.perform, Registry.register, found] using granted

theorem detach (id : ListenerId) :
    w.Grants h (.removeId id) (.found (w.detach h id).1) (w.detach h id).2 := by
  cases found : (w.registryOf h).get? id with
  | none =>
      simp only [World.detach, found]
      exact idle (by simp [Registry.perform, Registry.performRemoveId, found,
        Registry.remove_of_get?_eq_none])
  | some l =>
      have granted := setRegistry (v := (w.detach h id).2) present (.removeId id) (by
        simp only [World.detach, found]
        rfl)
      simpa [World.detach, Registry.perform, Registry.performRemoveId, found] using granted

theorem detachListener (l : Listener) :
    w.Grants h (.remove l) (.found (w.detachListener h l).1) (w.detachListener h l).2 := by
  rw [World.detachListener]
  cases found : (w.registryOf h).find? l with
  | none => exact idle (by simp only [Registry.perform, found, Option.elim_none])
  | some id =>
      obtain ⟨outcome, here, elsewhere⟩ := detach present id
      have same : (w.registryOf h).perform (.remove l) =
          (w.registryOf h).perform (.removeId id) := by
        simp only [Registry.perform, found, Option.elim_some]
      exact ⟨same ▸ outcome, same ▸ here, elsewhere⟩

/-- An action that makes a request is answered with its outcome. -/
theorem execute {a : Action Op} {name : String} {request : Registry.Request Listener}
    (makes : a.request? = some (name, request)) (named : w.handlerNamed? name = some h)
    (known : w.Knows request) :
    ∃ outcome, (w.execute a).1 = outcome.reply ∧ w.Grants h request outcome (w.execute a).2 := by
  obtain ⟨s, found⟩ := Option.isSome_iff_exists.mp present
  have onHandler : ∀ f : HandlerId → HandlerState → Reply × World, w.onHandler name f = f h s :=
    fun f => by simp only [World.onHandler, named, found]
  have onView : ∀ {l} (f : Listener → Reply × World), (w.view? l).isSome = true →
      w.onView l f = f (.view l) := fun f known => by
    obtain ⟨v, known⟩ := Option.isSome_iff_exists.mp known
    simp only [World.onView, known]
  cases a with
  | addListener _ l =>
      cases makes
      rw [World.execute, onHandler, onView _ known]
      exact ⟨_, rfl, attach present (.view l)⟩
  | removeListener _ l =>
      cases makes
      rw [World.execute, onHandler, onView _ known]
      exact ⟨_, rfl, detachListener present (.view l)⟩
  | removeListenerId _ id =>
      cases id with
      | none => cases makes
      | some id =>
          cases makes
          rw [World.execute, onHandler]
          exact ⟨_, rfl, detach present id⟩
  | removeAllListeners _ =>
      cases makes
      rw [World.execute, onHandler]
      exact ⟨_, rfl, setRegistry present .clear rfl⟩
  | _ => cases makes

end Grants

theorem Alters.requested {w v : World} {op : Op} (h : w.Alters op v) :
    w.Requested op.mayRequest v := by
  cases h with
  | still same => exact .of_eq (Extends.of_layout same).registries
  | act effect => exact effect.rearranges.requested
  | mapper same => exact .of_eq ((Extends.addMapperOf w _).trans (.of_layout same)).registries
  | dropTranslator =>
      exact ((Rearranges.dropTranslator (fun _ => rfl) w _ _).congr rfl rfl).requested

end World

namespace Config

/-- In every sound world, and so in all that a session comes to, each handler keeps a roll of who is
registered, and its registry answers and changes as the roll does. A move that performs no operation
leaves all registries as they are; one that does makes no requests but those of the operation. Each
of the four actions that manage listeners, performed from outside or while others are at work, is
one request to the registry of the handler it names: its reply is the outcome, and no other registry
changes. -/
theorem rolls_of_sound {c : Config} (sound : c.world.Sound) (admissible : c.world.Admissible) :
    (∀ h, (c.world.registryOf h).Keeps (c.world.rollOf h)) ∧
    (∀ d, Next c d → d.world.registryOf = c.world.registryOf ∨
      ∃ op, (c.AtRest ∨ c.due? = some op) ∧ d = perform op c.world c.stack ∧
        ∀ h, ∃ requests outcomes, (∀ request ∈ requests, op.mayRequest request = true) ∧
          (c.world.rollOf h).ServesAll requests outcomes (d.world.rollOf h)) ∧
    ∀ a name request h, a.request? = some (name, request) →
      c.world.handlerNamed? name = some h → c.world.Knows request → ∃ outcome v,
        perform (.act a) c.world c.stack = answered v c.stack outcome.reply ∧
        (c.world.rollOf h).Serves request outcome (v.rollOf h) ∧
        ∀ g, g ≠ h → v.registryOf g = c.world.registryOf g := by
  have sound := sound.registries
  have performed : ∀ op stack h, ∃ requests outcomes,
      (∀ request ∈ requests, op.mayRequest request = true) ∧ (c.world.rollOf h).ServesAll requests
        outcomes ((perform op c.world stack).world.rollOf h) :=
    fun op stack h => (alters_perform c.world stack op).requested.serves_all h (sound h)
  refine ⟨fun h => (sound h).keeps, fun d next => ?_,
    fun a name request h makes named known => ?_⟩
  · cases next with
    | perform op rest =>
        rw [atRest_iff.mp rest]
        exact .inr ⟨op, .inl rest, rfl, performed op []⟩
    | step move =>
        obtain kept | ⟨f, stack, op, is, due, rfl⟩ := step_extends move
        · exact .inl kept.registries
        · refine .inr ⟨op, .inr ?_, ?_, performed op _⟩
          · rw [is]
            exact due
          · rw [is]
            rfl
  · have present := admissible.present named
    obtain ⟨outcome, replied, granted⟩ := World.Grants.execute present makes named known
    refine ⟨outcome, (c.world.execute a).2, ?_, ?_, granted.elsewhere⟩
    · rw [← replied]
      rfl
    · rw [World.rollOf, World.rollOf, granted.here, granted.outcome]
      exact ((sound h).serves request).2

/-- A handler on which somebody took the place of another, and is listed last nevertheless. A view
takes a listener away and registers it again while it is told. -/
def recycling : List (Action Op) :=
  [.createHandler "h" .plain, .createListener "a" onlooker, .createListener "b" onlooker,
    .createListener "c" onlooker, .addListener "h" "a", .addListener "h" "b",
    .removeListener "h" "a", .addListener "h" "c",
    .createListener "v" { onlooker with
      script := fun _ => some [.act (.removeListener "h" "b"), .act (.addListener "h" "b")]
      times := 1 },
    .addListener "h" "v"]

/-- Whether a script is about to take a view off a handler. -/
def isRemoving (name l : String) (c : Config) : Bool :=
  match c.stack, c.reply with
  | .script (.act (.removeListener g k) :: _) _ :: _, none => decide (g = name ∧ k = l)
  | _, _ => false

theorem step_of_isRemoving {name l : String} {c : Config} (h : isRemoving name l c = true) :
    c.step = some (perform (.act (.removeListener name l)) c.world c.stack) := by
  rw [isRemoving] at h
  split at h
  · rename_i g k ops first below top reply
    obtain ⟨w, stack, reply'⟩ := c
    cases top
    cases reply
    obtain ⟨rfl, rfl⟩ := of_decide_eq_true h
    rfl
  · cases h

/-- The handler keeps the roll while a view is told, and the view is served by it. -/
theorem rolls_of_sound_recycling :
    ∃ c outcome v, Reached c ∧ c.stack.length = 4 ∧
      c.world.rollOf ⟨1⟩ =
        [(⟨2, 1⟩, .view "b"), (⟨1, 3⟩, .view "c"), (⟨3, 1⟩, .view "v")] ∧
      (c.world.registryOf ⟨1⟩).Keeps (c.world.rollOf ⟨1⟩) ∧
      c.step = some (answered v c.stack outcome.reply) ∧
      (c.world.rollOf ⟨1⟩).Serves (.remove (.view "b")) outcome (v.rollOf ⟨1⟩) := by
  obtain ⟨reply, built⟩ := reached_built recycling
  have runs : (follow (fun _ => true) 7
      (perform (.move .highlight "h" ⟨none, [.key (.int 1)]⟩) (.built recycling) [])).any
      (fun c => isRemoving "h" "b" c && decide (c.world.rollOf ⟨1⟩ =
          [(⟨2, 1⟩, .view "b"), (⟨1, 3⟩, .view "c"), (⟨3, 1⟩, .view "v")]) &&
        decide (c.world.handlerNamed? "h" = some ⟨1⟩) && (c.world.view? "b").isSome &&
        decide (c.stack.length = 4)) = true := by
    decide +kernel
  obtain ⟨c, followed, passes⟩ := (Option.any_eq_true _ _).mp runs
  simp only [Bool.and_eq_true, decide_eq_true_eq] at passes
  obtain ⟨⟨⟨⟨removing, roll⟩, named⟩, known⟩, high⟩ := passes
  have reached := Reached.steps (.tail built (.perform _ (atRest_iff.mpr rfl)) trivial)
    (steps_of_follow followed)
  obtain ⟨keeps, -, served⟩ :=
    rolls_of_sound reached.sound reached.accounted.admissible
  obtain ⟨outcome, v, performs, serves, -⟩ :=
    served (.removeListener "h" "b") "h" (.remove (.view "b")) ⟨1⟩ rfl named known
  exact ⟨c, outcome, v, reached, high, roll, keeps ⟨1⟩,
    (step_of_isRemoving removing).trans (congrArg some performs), serves⟩

end Config

end HighlightSync
