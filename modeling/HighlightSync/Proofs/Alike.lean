import HighlightSync.Proofs.Likeness

/-!
# What is done to worlds that are alike

In worlds that are alike the same names stand for the same handlers and translators, and all that
the machine does to a world directly keeps worlds alike: what it writes down, the keys it changes,
what it counts. What concerns registries depends on the likeness. A likeness is lawful if wiring
keeps worlds alike (`Likeness.Lawful`); then every action that is answered at once does, and is
answered alike (`World.Alike.execute`).
-/

namespace HighlightSync

namespace Store.Alike

variable {α : Type u} {R : α → α → Prop} {s s' : Store α}

theorem empty : (∅ : Store α).Alike R ∅ :=
  ⟨rfl, fun n => (get?_empty (α := α) n).symm ▸ .none⟩

theorem next (h : s.Alike R s') : s'.next = s.next := congrArg (· + 1) h.size

theorem push (h : s.Alike R s') {a a' : α} (r : R a a') : (s.push a).Alike R (s'.push a') where
  size := by rw [size_push, size_push, h.size]
  get n := by
    rw [get?_push, get?_push, h.next]
    split
    · exact .some r
    · exact h.get n

theorem modify (h : s.Alike R s') {n : Nat} {f f' : α → α}
    (r : ∀ a a', s.get? n = some a → s'.get? n = some a' → R a a' → R (f a) (f' a')) :
    (s.modify n f).Alike R (s'.modify n f') where
  size := by rw [size_modify, size_modify, h.size]
  get m := by
    rw [get?_modify, get?_modify]
    split
    · rename_i here
      subst here
      exact rel_map _ _ (h.get m) r
    · exact h.get m

theorem modify_left (h : s.Alike R s') {n : Nat} {f : α → α}
    (r : ∀ a a', s.get? n = some a → s'.get? n = some a' → R a a' → R (f a) a') :
    (s.modify n f).Alike R s' where
  size := by rw [size_modify, h.size]
  get m := by
    rw [get?_modify]
    split
    · rename_i here
      subst here
      simpa using rel_map f id (h.get m) r
    · exact h.get m

theorem modify_right (h : s.Alike R s') {n : Nat} {f' : α → α}
    (r : ∀ a a', s.get? n = some a → s'.get? n = some a' → R a a' → R a (f' a')) :
    s.Alike R (s'.modify n f') where
  size := by rw [size_modify, h.size]
  get m := by
    rw [get?_modify]
    split
    · rename_i here
      subst here
      simpa using rel_map id f' (h.get m) r
    · exact h.get m

/-- Whether some value passes a test does not differ if no two values that are alike do. -/
theorem any_eq (h : s.Alike R s') {p p' : α → Bool} (same : ∀ a a', R a a' → p' a' = p a) :
    s'.items.any p' = s.items.any p := by
  have all : ∀ (t : Store α) (q : α → Bool),
      t.items.any q = true ↔ ∃ n, (t.get? n).any q = true := by
    intro t q
    rw [Array.any_eq_true']
    constructor
    · rintro ⟨a, mem, holds⟩
      obtain ⟨i, found⟩ := Array.getElem?_of_mem mem
      exact ⟨i + 1, by simpa [get?, found] using holds⟩
    · rintro ⟨n, holds⟩
      obtain ⟨a, found, holds⟩ := (Option.any_eq_true _ _).mp holds
      exact ⟨a, mem_of_get? found, holds⟩
  have each : ∀ n, (s'.get? n).any p' = (s.get? n).any p := fun n => by
    obtain ⟨found, found'⟩ | ⟨a, a', found, found', r⟩ := rel_cases (h.get n)
    · rw [found, found']
      rfl
    · rw [found, found', Option.any_some, Option.any_some, same a a' r]
  rw [Bool.eq_iff_iff, all, all]
  simp only [each]

end Store.Alike

theorem Target.Alike.handlers {L : Likeness} {targets targets' : List Target}
    (same : List.Forall₂ (Target.Alike L) targets targets') :
    targets'.map Target.handler = targets.map Target.handler := by
  induction same with
  | nil => rfl
  | cons first _ ih => rw [List.map_cons, List.map_cons, first.handler, ih]

theorem Target.Alike.find? {L : Likeness} {targets targets' : List Target}
    (same : List.Forall₂ (Target.Alike L) targets targets') (h : HandlerId) :
    Option.Rel (Target.Alike L) (targets.find? fun a => decide (a.handler = h))
      (targets'.find? fun a => decide (a.handler = h)) := by
  induction same with
  | nil => exact .none
  | cons first _ ih =>
      rw [List.find?_cons, List.find?_cons, first.handler]
      split
      · exact .some first
      · exact ih

theorem TranslatorState.Alike.targetHandlers {L : Likeness} {s s' : TranslatorState}
    (same : s.Alike L s') : s'.targetHandlers = s.targetHandlers :=
  Target.Alike.handlers same.targets

namespace World

/-- The callbacks of those that both sessions have, in order: who was told of what, and how many
calls were open. -/
def calls (L : Likeness) (w : World) : List (Listener × Event × Nat) :=
  w.journal.toList.filterMap fun
    | .callback l e depth _ => if L.shares l then some (l, e, depth) else none
    | _ => none

namespace Alike

variable {L : Likeness} {w w' : World} {name : String} {h : HandlerId} {t : TranslatorId}
  {m : MapperId}

theorem of_empty : (∅ : World).Alike L ∅ :=
  ⟨.empty, .empty, .empty, fun _ => .none, rfl, rfl, .nil⟩

section Looks

variable (alike : w.Alike L w')

include alike

theorem handler? (h : HandlerId) :
    Option.Rel (HandlerState.Alike L) (w.handler? h) (w'.handler? h) := alike.handlers.get _

theorem translator? (t : TranslatorId) :
    Option.Rel (TranslatorState.Alike L) (w.translator? t) (w'.translator? t) :=
  alike.translators.get _

theorem mapper? (m : MapperId) :
    Option.Rel (MapperState.Alike L) (w.mapper? m) (w'.mapper? m) := alike.mappers.get _

theorem keysOf : w'.keysOf = w.keysOf := by
  funext h
  rw [World.keysOf, World.keysOf]
  obtain ⟨found, found'⟩ | ⟨s, s', found, found', same⟩ := rel_cases (alike.handler? h)
  · rw [found, found']
  · rw [found, found']
    exact same.keys

theorem registryOf (new : L.registry ∅ ∅) (h : HandlerId) :
    L.registry (w.registryOf h) (w'.registryOf h) := by
  rw [World.registryOf, World.registryOf]
  obtain ⟨found, found'⟩ | ⟨s, s', found, found', same⟩ := rel_cases (alike.handler? h)
  · rw [found, found']
    exact new
  · rw [found, found']
    exact same.registry

theorem targetsOf (t : TranslatorId) :
    (w'.translator? t).elim [] TranslatorState.targetHandlers =
      (w.translator? t).elim [] TranslatorState.targetHandlers := by
  obtain ⟨found, found'⟩ | ⟨s, s', found, found', same⟩ := rel_cases (alike.translator? t)
  · rw [found, found']
  · rw [found, found']
    exact same.targetHandlers

theorem source (t : TranslatorId) :
    (w'.translator? t).elim ⟨0⟩ TranslatorState.source =
      (w.translator? t).elim ⟨0⟩ TranslatorState.source := by
  obtain ⟨found, found'⟩ | ⟨s, s', found, found', same⟩ := rel_cases (alike.translator? t)
  · rw [found, found']
  · rw [found, found']
    exact same.source

theorem handlerNamed? : w'.handlerNamed? = w.handlerNamed? := by
  funext name
  rw [World.handlerNamed?, World.handlerNamed?, alike.names]

theorem translatorNamed? : w'.translatorNamed? = w.translatorNamed? := by
  funext name
  rw [World.translatorNamed?, World.translatorNamed?, alike.names]

theorem isTaken : w'.isTaken = w.isTaken := by
  funext name
  rw [World.isTaken, World.isTaken, alike.names]

theorem faultOf : w'.faultOf = w.faultOf := by
  funext f
  cases f with
  | given f => rfl
  | selfTarget name => rw [World.faultOf, World.faultOf, alike.handlerNamed?]

theorem namesHandler : w'.namesHandler = w.namesHandler := by
  funext h
  rw [World.namesHandler, World.namesHandler, alike.names]

theorem linksHandler : w'.linksHandler = w.linksHandler := by
  funext h
  refine alike.translators.any_eq fun s s' same => ?_
  have targets : ∀ r : TranslatorState, (r.targets.any fun target => decide (target.handler = h)) =
      decide (h ∈ r.targetHandlers) := fun r => by
    rw [Bool.eq_iff_iff, List.any_eq_true, decide_eq_true_eq, TranslatorState.targetHandlers,
      List.mem_map]
    simp
  rw [targets, targets, same.live, same.source, same.targetHandlers]

theorem calls : w'.calls L = w.calls L := by
  refine (alike.journal.filterMap_eq ?_ ?_).symm
  · rintro r r' (_ | _ | _) <;> rfl
  · intro r aside
    cases r with
    | callback l e depth heeded => exact if_neg (by simpa [Record.IsAside] using aside)
    | _ => rfl

end Looks

section Changes

variable (alike : w.Alike L w')

include alike

theorem record {r r' : Record} (same : r.Alike L r') : (w.record r).Alike L (w'.record r') :=
  { alike with
    journal := by
      rw [toList_journal_record, toList_journal_record]
      exact alike.journal.concat same }

theorem record_left {r : Record} (aside : r.IsAside L) : (w.record r).Alike L w' :=
  { alike with
    journal := by
      rw [toList_journal_record]
      exact alike.journal.concat_left aside }

theorem record_right {r : Record} (aside : r.IsAside L) : w.Alike L (w'.record r) :=
  { alike with
    journal := by
      rw [toList_journal_record]
      exact alike.journal.concat_right aside }

theorem note (n : Note) : (w.note n).Alike L (w'.note n) := alike.record (.same _ rfl)

theorem deepen (n : Nat) : World.Alike L { w with depth := n } { w' with depth := n } :=
  { alike with depth := rfl }

theorem change (h : HandlerId) (c : Change) : (w.change h c).Alike L (w'.change h c) :=
  { alike with
    handlers := alike.handlers.modify fun _ _ _ _ same =>
      ⟨same.settings, congrArg c.apply same.keys, same.registry⟩ }

theorem setRegistry {r r' : Registry Listener} (registries : L.registry r r') :
    (w.setRegistry h r).Alike L (w'.setRegistry h r') :=
  { alike with
    handlers := alike.handlers.modify fun _ _ _ _ same => ⟨same.settings, same.keys, registries⟩ }

theorem setRegistry_left {r : Registry Listener}
    (registries : ∀ s', w'.handler? h = some s' → L.registry r s'.registry) :
    (w.setRegistry h r).Alike L w' :=
  { alike with
    handlers := alike.handlers.modify_left fun _ s' _ found' same =>
      ⟨same.settings, same.keys, registries s' found'⟩ }

theorem setRegistry_right {r' : Registry Listener}
    (registries : ∀ s, w.handler? h = some s → L.registry s.registry r') :
    w.Alike L (w'.setRegistry h r') :=
  { alike with
    handlers := alike.handlers.modify_right fun s _ found _ same =>
      ⟨same.settings, same.keys, registries s found⟩ }

theorem modifyTranslator {f f' : TranslatorState → TranslatorState}
    (same : ∀ s s', s.Alike L s' → (f s).Alike L (f' s')) :
    (w.modifyTranslator t f).Alike L (w'.modifyTranslator t f') :=
  { alike with translators := alike.translators.modify fun s s' _ _ => same s s' }

theorem pushTranslator {s s' : TranslatorState} (same : s.Alike L s') :
    World.Alike L { w with translators := w.translators.push s }
      { w' with translators := w'.translators.push s' } :=
  { alike with translators := alike.translators.push same }

theorem setMapper (t : TranslatorId) (m : Option MapperId) :
    (w.setMapper t m).Alike L (w'.setMapper t m) :=
  alike.modifyTranslator fun _ _ same => { same with mapper := rfl }

theorem asked (m : MapperId) :
    (w.modifyMapper m fun s => { s with asked := s.asked + 1 }).Alike L
      (w'.modifyMapper m fun s => { s with asked := s.asked + 1 }) :=
  { alike with
    mappers := alike.mappers.modify fun _ _ _ _ same =>
      { same with asked := congrArg (· + 1) same.asked } }

theorem addMapper {s s' : MapperState} (same : s.Alike L s') :
    (w'.addMapper s').1 = (w.addMapper s).1 ∧ (w.addMapper s).2.Alike L (w'.addMapper s').2 :=
  ⟨congrArg MapperId.mk alike.mappers.next, { alike with mappers := alike.mappers.push same }⟩

theorem addHandler {s s' : Settings} (settings : L.settings s s') (new : L.registry ∅ ∅) :
    (w'.addHandler s').1 = (w.addHandler s).1 ∧
      (w.addHandler s).2.Alike L (w'.addHandler s').2 :=
  ⟨congrArg HandlerId.mk alike.handlers.next,
    { alike with handlers := alike.handlers.push ⟨settings, rfl, new⟩ }⟩

theorem bind (name : String) (s : Subject) : (w.bind name s).Alike L (w'.bind name s) :=
  { alike with names := congrArg (· ++ [(name, s)]) alike.names }

theorem forget (name : String) : (w.forget name).Alike L (w'.forget name) :=
  { alike with names := congrArg (List.filter fun n : String × Subject => n.1 ≠ name) alike.names }

theorem modifyView {f : ViewState → ViewState}
    (counts : ∀ v v' : ViewState, v'.ran = v.ran → v'.told = v.told →
      (f v').ran = (f v).ran ∧ (f v').told = (f v).told)
    (behavior : ∀ v, (f v).behavior = v.behavior) (name : String) :
    (w.modifyView name f).Alike L (w'.modifyView name f) :=
  { alike with
    views := fun other => by
      rw [view?_modifyView, view?_modifyView]
      split
      · refine rel_map _ _ (alike.views other) fun v v' _ _ same => ⟨?_, fun shared => ?_⟩
        · rw [behavior, behavior]
          exact same.passive
        · obtain ⟨behave, ran, told⟩ := same.shared shared
          rw [behavior, behavior]
          exact ⟨behave, counts v v' ran told⟩
      · exact alike.views other }

theorem modifyView_left {f : ViewState → ViewState} (behavior : ∀ v, (f v).behavior = v.behavior)
    (aside : L.aside name = true) : (w.modifyView name f).Alike L w' :=
  { alike with
    views := fun other => by
      rw [view?_modifyView]
      split
      · rename_i here
        subst here
        simpa using rel_map f id (alike.views other) fun v v' _ _ same =>
          ⟨by rw [behavior]; exact same.passive, fun shared => by simp [aside] at shared⟩
      · exact alike.views other }

theorem modifyView_right {f' : ViewState → ViewState}
    (behavior : ∀ v, (f' v).behavior = v.behavior) (aside : L.aside name = true) :
    w.Alike L (w'.modifyView name f') :=
  { alike with
    views := fun other => by
      rw [view?_modifyView]
      split
      · rename_i here
        subst here
        simpa using rel_map id f' (alike.views other) fun v v' _ _ same =>
          ⟨by rw [behavior]; exact same.passive, fun shared => by simp [aside] at shared⟩
      · exact alike.views other }

theorem addView {b b' : Behavior} (same : ViewState.Alike L name ⟨b, 0, 0⟩ ⟨b', 0, 0⟩) :
    (w.addView name b).Alike L (w'.addView name b') :=
  { alike with
    views := fun other => by
      have added : ∀ (v : World) (b : Behavior), (v.addView name b).view? other =
          (v.view? other).or (if other = name then some ⟨b, 0, 0⟩ else none) := fun v b => by
        rw [World.view?, World.addView, List.lookup_append]
        by_cases here : other = name
        · simp [World.view?, here]
        · simp [World.view?, here, List.lookup_cons, beq_eq_false_iff_ne.mpr here]
      rw [added, added]
      obtain ⟨found, found'⟩ | ⟨v, v', found, found', before⟩ := rel_cases (alike.views other)
      · rw [found, found', Option.none_or, Option.none_or]
        split
        · rename_i here
          subst here
          exact .some same
        · exact .none
      · rw [found, found']
        exact .some before }

end Changes

end Alike

end World

/-- What has happened to a world is noticed by nobody who looks at it from a world that is alike. -/
structure World.Unnoticed (L : Likeness) (w v : World) : Prop where
  left : ∀ {u : World}, w.Alike L u → v.Alike L u
  right : ∀ {u : World}, u.Alike L w → u.Alike L v

namespace World.Unnoticed

variable {L : Likeness} {w v u : World}

theorem refl (w : World) : w.Unnoticed L w := ⟨id, id⟩

theorem trans (h : w.Unnoticed L v) (g : v.Unnoticed L u) : w.Unnoticed L u :=
  ⟨fun alike => g.left (h.left alike), fun alike => g.right (h.right alike)⟩

theorem record (w : World) {r : Record} (aside : r.IsAside L) : w.Unnoticed L (w.record r) :=
  ⟨fun alike => alike.record_left aside, fun alike => alike.record_right aside⟩

theorem modifyView (w : World) {f : ViewState → ViewState} (same : ∀ v, (f v).behavior = v.behavior)
    {name : String} (aside : L.aside name = true) : w.Unnoticed L (w.modifyView name f) :=
  ⟨fun alike => alike.modifyView_left same aside, fun alike => alike.modifyView_right same aside⟩

end World.Unnoticed

theorem World.removeTarget_fst (w : World) (t : TranslatorId) (s : TranslatorState)
    (h : HandlerId) : (w.removeTarget t s h).1 = decide (h ∈ s.targetHandlers) := by
  rw [World.removeTarget]
  split
  · rename_i target chosen
    have here : target.handler = h := by simpa using List.find?_some chosen
    exact (decide_eq_true (List.mem_map.mpr ⟨target, List.mem_of_find?_eq_some chosen, here⟩)).symm
  · rename_i absent
    refine (decide_eq_false fun mem => ?_).symm
    obtain ⟨target, mem, here⟩ := List.mem_map.mp mem
    exact List.find?_eq_none.mp absent target mem (by simpa using here)

theorem MapperState.asked_ofSpec (spec spec' : MapperSpec Op) :
    (MapperState.ofSpec spec').asked = (MapperState.ofSpec spec).asked := by
  cases spec <;> cases spec' <;> rfl

theorem ListenerSpec.Alike.behavior {L : Likeness} {spec spec' : ListenerSpec Op}
    (same : ListenerSpec.Alike (Script.Alike L) spec spec') :
    (Behavior.ofSpec spec).Alike L (.ofSpec spec') := by
  cases same with
  | mk deaf times propagate fault scripts =>
      simp only [Behavior.ofSpec]
      split
      · exact ⟨rfl, rfl, rfl, fun _ _ => .none⟩
      · refine ⟨rfl, rfl, rfl, fun n e => ?_⟩
        change Option.Rel _ (if n < times then _ else _) (if n < times then _ else _)
        split
        · exact scripts e.change.kind
        · exact .none

/-- A likeness is lawful for worlds of some kind and operations of some kind: these operations keep
worlds of the kind, wiring keeps worlds alike, and differences of settings and answers do not
show. -/
structure Likeness.Lawful (L : Likeness) (fit : World → Prop) (allowed : Op → Prop) : Prop where
  fit_layout : ∀ {w v : World}, v.layout = w.layout → fit w → fit v
  fit_setMapper : ∀ {w : World} t m, fit w → fit (w.setMapper t m)
  fit_perform : ∀ {w : World} op stack, fit w → allowed op →
    fit (Config.perform op w stack).world
  allowed_iff : ∀ {op op'}, op.Alike L op' → (allowed op ↔ allowed op')
  allowed_aside : ∀ {op}, op.IsAside L → allowed op
  fault : ∀ {s s'}, L.settings s s' → s'.fault? = s.fault?
  refuses : ∀ {s s'} (depth : Nat), L.settings s s' →
    s'.refuses? depth = s.refuses? depth ∨ (L.lenient ∧ (s.refuses? depth).isSome = true)
  answers : ∀ {a a'}, L.answer a a' → (∃ message, a = .error message ∧ a' = .error message) ∨
    ∃ fine fine', a = .ok fine ∧ a' = .ok fine' ∧ ∀ k, (∃ s, fine = some s ∧ k ∈ s) ↔
      ∃ s, fine' = some s ∧ k ∈ s
  unasked : L.answer (.ok none) (.ok none)
  listeners : ∀ {r r'}, L.registry r r' →
    Woven Eq (fun l => L.shares l = false) r.snapshot r'.snapshot
  counts : ∀ {w w' : World} {h}, fit w → fit w' → L.registry (w.registryOf h) (w'.registryOf h) →
    L.count (w.registryOf h).size (w'.registryOf h).size
  unregistered : L.registry ∅ ∅
  attach : ∀ {w w' : World} {h} (l : Listener), fit w → fit w' → w.Alike L w' →
    (w.handler? h).isSome = true →
      L.id (w.attach h l).1 (w'.attach h l).1 ∧ (w.attach h l).2.Alike L (w'.attach h l).2
  attach_aside : ∀ {w : World} {h name}, fit w → L.aside name = true →
    w.Unnoticed L (w.attach h (.view name)).2
  detachListener : ∀ {w w' : World} h name, fit w → fit w' → w.Alike L w' →
    (L.aside name = false →
      (w'.detachListener h (.view name)).1 = (w.detachListener h (.view name)).1) ∧
    (w.detachListener h (.view name)).2.Alike L (w'.detachListener h (.view name)).2
  detach : ∀ {w w' : World} {name h id}, fit w → fit w' → w.Alike L w' →
    allowed (.act (.removeListenerId name (some id))) →
      (w'.detach h id).1 = (w.detach h id).1 ∧ (w.detach h id).2.Alike L (w'.detach h id).2
  detachAll : ∀ {w w' : World} {name h}, fit w → fit w' → w.Alike L w' →
    allowed (.act (.removeAllListeners name)) → (w.detachAll h).Alike L (w'.detachAll h)
  removeTarget : ∀ {w w' : World} {name t s s'} (h : HandlerId), fit w → fit w' → w.Alike L w' →
    w.translatorNamed? name = some t → w.translator? t = some s → w'.translator? t = some s' →
      (w.removeTarget t s h).2.Alike L (w'.removeTarget t s' h).2
  removeAllTargets : ∀ {w w' : World} {name t s s'}, fit w → fit w' → w.Alike L w' →
    w.translatorNamed? name = some t → w.translator? t = some s → w'.translator? t = some s' →
      (w.removeAllTargets t s).Alike L (w'.removeAllTargets t s')
  dropTranslator : ∀ {w w' : World} {name t s s'}, fit w → fit w' → w.Alike L w' →
    w.translatorNamed? name = some t → w.translator? t = some s → w'.translator? t = some s' →
      (w.dropTranslator t s).Alike L (w'.dropTranslator t s')

/-- An action is answered alike, in worlds that are alike afterwards. -/
def AnsweredAlike (L : Likeness) (op : Op) (x x' : Reply × World) : Prop :=
  x.1.Alike L (some op) x'.1 ∧ x.2.Alike L x'.2

namespace World.Alike

variable {L : Likeness} {w w' : World} {op : Op} {name : String}

section Named

variable (alike : w.Alike L w')

include alike

theorem answered (r : Reply) : AnsweredAlike L op (r, w) (r, w') := ⟨.same _ r, alike⟩

theorem onHandler {f f' : HandlerId → HandlerState → Reply × World}
    (go : ∀ h s s', w.handler? h = some s → w'.handler? h = some s' → s.Alike L s' →
      AnsweredAlike L op (f h s) (f' h s')) :
    AnsweredAlike L op (w.onHandler name f) (w'.onHandler name f') := by
  rw [World.onHandler, World.onHandler, alike.handlerNamed?]
  split
  · exact alike.answered _
  · rename_i h _
    obtain ⟨found, found'⟩ | ⟨s, s', found, found', same⟩ := rel_cases (alike.handler? h)
    · rw [found, found']
      exact alike.answered _
    · rw [found, found']
      exact go h s s' found found' same

theorem onTranslator {f f' : TranslatorId → TranslatorState → Reply × World}
    (go : ∀ t s s', w.translatorNamed? name = some t → w.translator? t = some s →
      w'.translator? t = some s' → s.Alike L s' → AnsweredAlike L op (f t s) (f' t s')) :
    AnsweredAlike L op (w.onTranslator name f) (w'.onTranslator name f') := by
  rw [World.onTranslator, World.onTranslator, alike.translatorNamed?]
  split
  · exact alike.answered _
  · rename_i t named
    obtain ⟨found, found'⟩ | ⟨s, s', found, found', same⟩ := rel_cases (alike.translator? t)
    · rw [found, found']
      exact alike.answered _
    · rw [found, found']
      exact go t s s' named found found' same

theorem onView {f f' : Listener → Reply × World}
    (go : AnsweredAlike L op (f (.view name)) (f' (.view name))) :
    AnsweredAlike L op (w.onView name f) (w'.onView name f') := by
  rw [World.onView, World.onView]
  obtain ⟨found, found'⟩ | ⟨v, v', found, found', -⟩ := rel_cases (alike.views name)
  · rw [found, found']
    exact alike.answered _
  · rw [found, found']
    exact go

theorem createListener {spec spec' : ListenerSpec Op}
    (same : ViewState.Alike L name ⟨.ofSpec spec, 0, 0⟩ ⟨.ofSpec spec', 0, 0⟩) :
    AnsweredAlike L op (w.execute (.createListener name spec))
      (w'.execute (.createListener name spec')) := by
  simp only [World.execute]
  obtain ⟨found, found'⟩ | ⟨v, v', found, found', -⟩ := rel_cases (alike.views name)
  · rw [found, found']
    exact (alike.addView same).answered _
  · rw [found, found']
    exact alike.answered _

end Named

section Lawful

variable {fit : World → Prop} {allowed : Op → Prop} (lawful : L.Lawful fit allowed)
  (fits : fit w) (fits' : fit w') (alike : w.Alike L w')

include lawful fits fits' alike

omit fits fits' in
theorem listeners (h : HandlerId) :
    Woven Eq (fun l => L.shares l = false) (w.listeners h) (w'.listeners h) :=
  lawful.listeners (alike.registryOf lawful.unregistered h)

theorem addTranslator {h : HandlerId} (present : (w.handler? h).isSome = true) :
    (w'.addTranslator h).1 = (w.addTranslator h).1 ∧
      (w.addTranslator h).2.Alike L (w'.addTranslator h).2 := by
  have next := alike.translators.next
  obtain ⟨ids, attached⟩ :=
    lawful.attach (.sourceLink ⟨w.translators.next⟩) fits fits' alike present
  have new : TranslatorState.Alike L
      ⟨h, (w.attach h (.sourceLink ⟨w.translators.next⟩)).1, [], none, true⟩
      ⟨h, (w'.attach h (.sourceLink ⟨w.translators.next⟩)).1, [], none, true⟩ :=
    ⟨rfl, ids, .nil, rfl, rfl⟩
  refine ⟨congrArg TranslatorId.mk next, ?_⟩
  simp only [World.addTranslator, next]
  exact (attached.pushTranslator new).note _

theorem addTarget {t : TranslatorId} {s s' : TranslatorState} (same : s.Alike L s') {h : HandlerId}
    (present : (w.handler? h).isSome = true) :
    (w'.addTarget t s' h).1 = (w.addTarget t s h).1 ∧
      (w.addTarget t s h).2.Alike L (w'.addTarget t s' h).2 := by
  rw [World.addTarget, World.addTarget, same.source, same.targetHandlers]
  split
  · exact ⟨rfl, alike⟩
  · split
    · exact ⟨rfl, alike⟩
    · obtain ⟨ids, attached⟩ := lawful.attach (.resetLink t) fits fits' alike present
      refine ⟨rfl, (attached.note _).modifyTranslator fun s s' same => ?_⟩
      exact { same with targets := List.rel_append same.targets (.cons ⟨rfl, ids⟩ .nil) }

omit fits fits' in
theorem execute_createHandler (name : String) {settings settings' : Settings}
    (same : L.settings settings settings') :
    AnsweredAlike L (.act (.createHandler name settings)) (w.execute (.createHandler name settings))
      (w'.execute (.createHandler name settings')) := by
  simp only [World.execute, alike.isTaken, lawful.fault same]
  split
  · exact alike.answered _
  · split
    · exact alike.answered _
    · obtain ⟨new, added⟩ := alike.addHandler same lawful.unregistered
      rw [new]
      exact ⟨.created _ _ same, added.bind name _⟩

theorem execute_createTranslator (name source : String) {spec spec' : Option (MapperSpec Op)}
    (same : MapperSpec.Alike L (Script.Alike L) spec spec') :
    AnsweredAlike L (.act (.createTranslator name source spec))
      (w.execute (.createTranslator name source spec))
      (w'.execute (.createTranslator name source spec')) := by
  simp only [World.execute, alike.isTaken]
  split
  · exact alike.answered _
  · refine alike.onHandler fun h s s' found _ _ => ?_
    obtain ⟨new, added⟩ := addTranslator lawful fits fits' alike (h := h) (by rw [found]; rfl)
    have named := added.bind name (.translator (w.addTranslator h).1)
    rw [new]
    cases same with
    | none => exact named.answered _
    | some answers scripts origins =>
        obtain ⟨mapper, placed⟩ :=
          named.addMapper ⟨answers, scripts, origins, MapperState.asked_ofSpec _ _⟩
        simp only [World.addMapperOf, mapper]
        exact (placed.setMapper _ _).answered _

theorem execute_inspectHandler (name : String) :
    AnsweredAlike L (.act (.inspectHandler name)) (w.execute (.inspectHandler name))
      (w'.execute (.inspectHandler name)) := by
  refine alike.onHandler fun h s s' found found' same => ?_
  have counts := lawful.counts (h := h) fits fits' (alike.registryOf lawful.unregistered h)
  rw [World.registryOf, World.registryOf, found, found'] at counts
  refine ⟨?_, alike⟩
  rw [World.handlerInfo, World.handlerInfo, same.keys]
  exact .handler _ h _ same.settings counts

theorem execute_removeListener (name l : String) :
    AnsweredAlike L (.act (.removeListener name l)) (w.execute (.removeListener name l))
      (w'.execute (.removeListener name l)) := by
  refine alike.onHandler fun h s s' _ _ _ => alike.onView ?_
  obtain ⟨same, detached⟩ := lawful.detachListener h l fits fits' alike
  refine ⟨?_, detached⟩
  change Reply.Alike L _ (.truth (w.detachListener h _).1) (.truth (w'.detachListener h _).1)
  cases shared : L.aside l with
  | true => exact .removed name shared _ _
  | false =>
      rw [same shared]
      exact .same _ _

theorem execute_addTarget (name target : String) :
    AnsweredAlike L (.act (.addTarget name target)) (w.execute (.addTarget name target))
      (w'.execute (.addTarget name target)) := by
  refine alike.onTranslator fun t s s' _ _ _ same => alike.onHandler fun h r r' present _ _ => ?_
  obtain ⟨answer, added⟩ :=
    addTarget lawful fits fits' alike same (h := h) (t := t) (by rw [present]; rfl)
  generalize w.addTarget t s h = x at answer added ⊢
  generalize w'.addTarget t s' h = x' at answer added ⊢
  obtain ⟨a, v⟩ := x
  obtain ⟨a', v'⟩ := x'
  obtain rfl : a' = a := answer
  cases a' <;> exact added.answered _

theorem execute_removeTarget (name target : String) :
    AnsweredAlike L (.act (.removeTarget name target)) (w.execute (.removeTarget name target))
      (w'.execute (.removeTarget name target)) := by
  refine alike.onTranslator fun t s s' named found found' same => alike.onHandler
    fun h r r' _ _ _ => ?_
  refine ⟨?_, lawful.removeTarget h fits fits' alike named found found'⟩
  change Reply.Alike L _ (.truth (w.removeTarget t s h).1) (.truth (w'.removeTarget t s' h).1)
  rw [World.removeTarget_fst, World.removeTarget_fst, same.targetHandlers]
  exact .same _ _

/-- An action that bears neither settings nor specifications is answered alike. -/
theorem execute_bare {a : Action Op} (bare : a.isBare = true) (isAllowed : allowed (.act a)) :
    AnsweredAlike L (.act a) (w.execute a) (w'.execute a) := by
  cases a with
  | createHandler | createListener | createTranslator => cases bare
  | dropHandler name => exact alike.onHandler fun _ _ _ _ _ _ => (alike.forget name).answered _
  | inspectHandler name => exact execute_inspectHandler lawful fits fits' alike name
  | contains name k =>
      refine alike.onHandler fun h s s' _ _ same => ?_
      rw [same.keys]
      exact alike.answered _
  | keys name =>
      refine alike.onHandler fun h s s' _ _ same => ?_
      rw [same.keys]
      exact alike.answered _
  | depth =>
      simp only [World.execute, alike.depth]
      exact alike.answered _
  | addListener name l =>
      refine alike.onHandler fun h s s' found _ _ => alike.onView ?_
      obtain ⟨ids, attached⟩ :=
        lawful.attach (h := h) (.view l) fits fits' alike (by rw [found]; rfl)
      exact ⟨.registered _ ids, attached⟩
  | removeListener name l => exact execute_removeListener lawful fits fits' alike name l
  | removeListenerId name id =>
      refine alike.onHandler fun h s s' _ _ _ => ?_
      cases id with
      | none => exact alike.answered _
      | some id =>
          obtain ⟨same, detached⟩ := lawful.detach (h := h) fits fits' alike isAllowed
          simp only [same]
          exact detached.answered _
  | removeAllListeners name =>
      exact alike.onHandler fun h _ _ _ _ _ =>
        (lawful.detachAll (h := h) fits fits' alike isAllowed).answered _
  | addTarget name target => exact execute_addTarget lawful fits fits' alike name target
  | removeTarget name target => exact execute_removeTarget lawful fits fits' alike name target
  | removeAllTargets name =>
      exact alike.onTranslator fun t s s' named found found' _ =>
        (lawful.removeAllTargets fits fits' alike named found found').answered _
  | inspectTranslator name =>
      refine alike.onTranslator fun t s s' _ _ _ same => ?_
      rw [World.translatorInfo, World.translatorInfo, same.source, same.targetHandlers, same.mapper]
      exact alike.answered _
  | threadDepth | unknown => exact alike.answered _

/-- An action that is answered at once is answered alike. -/
theorem execute {a a' : Action Op} (actions : a.Alike L (Script.Alike L) a')
    (isAllowed : allowed (.act a)) : AnsweredAlike L (.act a) (w.execute a) (w'.execute a') := by
  cases actions with
  | createHandler name settings => exact execute_createHandler lawful alike name settings
  | createListener shared same =>
      exact alike.createListener
        ⟨fun aside => (Bool.false_ne_true (shared.symm.trans aside)).elim,
          fun _ => ⟨same.behavior, rfl, rfl⟩⟩
  | createAside aside passive passive' =>
      exact alike.createListener
        ⟨fun _ => ⟨passive, passive'⟩,
          fun shared => (Bool.false_ne_true (shared.symm.trans aside)).elim⟩
  | createTranslator name source same =>
      exact execute_createTranslator lawful fits fits' alike name source same
  | same a bare => exact execute_bare lawful fits fits' alike bare isAllowed

end Lawful

end World.Alike

end HighlightSync
