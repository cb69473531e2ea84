import HighlightSync.Proofs.Order
import HighlightSync.Proofs.Stages
import HighlightSync.Proofs.Wiring
import Mathlib.Data.List.Pairwise

/-!
# Bystanders

Views that do nothing but take notice are bystanders. Two sessions may differ in which of them are
registered, where and when (`bystanders`). Registrations of bystanders shift the identities of all
that are registered after them, so registries are the same only up to identities, and with
bystanders left out. As long as listeners are taken away by name only, each identity that a
translator keeps names its own link in both sessions, and so the likeness is lawful
(`lawful_bystanders`).

It follows that nobody else can tell (`agree_of_bystanders`): in both sessions handlers hold the
same keys and translators have the same targets at every turn, the same callbacks are made to all
others, and all operations are answered alike. Only whoever asks for a bystander to be taken away
learns whether it was there (`removal_tells`).
-/

namespace HighlightSync

namespace Registry.Sound

variable {α : Type u} {r : Registry α} {id other : ListenerId} {a : α}

theorem get?_injective (sound : r.Sound) (here : r.get? id = some a)
    (there : r.get? other = some a) : id = other := by
  by_contra different
  have apart := List.pairwise_filterMap.mp (sound.stored ▸ sound.nodup)
  have symmetric : Std.Symm fun i j => ∀ b, r.get? i = some b → ∀ c, r.get? j = some c → b ≠ c :=
    ⟨fun _ _ h b hb c hc e => h c hc b hb e.symm⟩
  have listed := fun {i} (found : r.get? i = some a) => (sound.listed i).mpr (found ▸ rfl)
  exact apart.forall (listed here) (listed there) different a here a there rfl

/-- Whoever is registered under an identity is the only one to go when that is removed. -/
theorem snapshot_remove [DecidableEq α] (sound : r.Sound) (found : r.get? id = some a) :
    (r.remove id).snapshot = r.snapshot.filter fun b => !decide (b = a) := by
  obtain ⟨sound', left⟩ := sound.remove id
  rw [eq_filter_of_sublist sound.nodup left]
  refine List.filter_congr fun b mem => ?_
  obtain ⟨i, here⟩ := sound.mem_snapshot_iff.mp mem
  rw [← decide_not, decide_eq_decide, sound'.mem_snapshot_iff]
  constructor
  · rintro ⟨j, there⟩ rfl
    rw [get?_remove] at there
    split at there
    · cases there
    · rename_i different
      exact different (sound.get?_injective there found)
  · intro different
    refine ⟨i, ?_⟩
    rw [get?_remove, if_neg]
    · exact here
    · rintro rfl
      exact different (Option.some.inj (here.symm.trans found))

end Registry.Sound

theorem passive_onlooker : (Behavior.ofSpec onlooker).Passive := fun n e => by
  cases e.change <;> exact ⟨by simp [Behavior.ofSpec, onlooker], rfl⟩

/-- Sessions may differ in which views of some names are registered, where and when. -/
def bystanders (names : String → Bool) : Likeness where
  aside := names
  settings := Eq
  lenient := False
  answer := Eq
  origin := Eq
  id _ _ := True
  count _ _ := True
  registry r r' := r'.snapshot.filter (·.isOther names) = r.snapshot.filter (·.isOther names)

/-- The world is sound, and links that are registered and translators that keep them agree. -/
structure World.Tidy (w : World) : Prop where
  sound : w.Sound
  orderly : w.Orderly
  anchored : w.Anchored

namespace World

variable {names : String → Bool} {w w' : World} {h : HandlerId} {l : Listener} {id id' : ListenerId}

theorem tidy_empty : (∅ : World).Tidy := ⟨.of_bare rfl rfl, .of_bare rfl rfl rfl, .of_bare rfl⟩

theorem Tidy.of_layout (tidy : w.Tidy) (same : w'.layout = w.layout) : w'.Tidy :=
  ⟨(Extends.of_layout same).sound tidy.sound, tidy.orderly.of_layout same,
    tidy.anchored.of_layout same⟩

theorem Tidy.setMapper (tidy : w.Tidy) (t : TranslatorId) (m : Option MapperId) :
    (w.setMapper t m).Tidy :=
  ⟨(Extends.setMapper w t m).sound tidy.sound, tidy.orderly.setMapper t m,
    tidy.anchored.setMapper t m⟩

theorem Tidy.perform (tidy : w.Tidy) {op : Op} (spares : op.severs = false) (stack : List Frame) :
    (Config.perform op w stack).world.Tidy := by
  have alters := Config.alters_perform w stack op
  exact ⟨(alters.rewires tidy.sound).1, tidy.orderly.of_alters tidy.sound alters,
    tidy.anchored.of_alters tidy.sound tidy.orderly spares alters⟩

theorem attach_of_mem (sound : w.Sound) (mem : l ∈ w.listeners h) : (w.attach h l).2 = w := by
  rw [attach]
  split
  · rfl
  · rename_i absent
    exact ((sound.registries h).find?_eq_none_iff.mp absent mem).elim

theorem attach_of_not_mem (sound : w.Sound) (new : l ∉ w.listeners h) :
    (w.attach h l).2 = (w.setRegistry h ((w.registryOf h).append l).2).note
      (.listenerAdded h ((w.registryOf h).append l).2.size) := by
  rw [attach, (sound.registries h).find?_eq_none_iff.mpr new]

theorem detach_of_registered (registered : w.Registered h id l) :
    w.detach h id = (true, (w.setRegistry h ((w.registryOf h).remove id)).note
      (.listenerRemoved h ((w.registryOf h).remove id).size)) := by
  rw [Registered] at registered
  rw [detach]
  simp only [registered]

theorem detachListener_of_mem (sound : w.Sound) (mem : l ∈ w.listeners h) :
    ∃ id, w.Registered h id l ∧ w.detachListener h l = w.detach h id := by
  rw [detachListener]
  split
  · rename_i id found
    exact ⟨id, registered_of_find? found, rfl⟩
  · rename_i absent
    exact ((sound.registries h).find?_eq_none_iff.mp absent mem).elim

theorem detachListener_of_not_mem (sound : w.Sound) (absent : l ∉ w.listeners h) :
    w.detachListener h l = (false, w) := by
  rw [detachListener, (sound.registries h).find?_eq_none_iff.mpr absent]

namespace Alike

section Registries

variable (alike : w.Alike (bystanders names) w')

include alike

theorem others (h : HandlerId) :
    (w'.listeners h).filter (·.isOther names) = (w.listeners h).filter (·.isOther names) :=
  alike.registryOf rfl h

theorem mem_listeners (other : l.isOther names = true) :
    l ∈ w'.listeners h ↔ l ∈ w.listeners h := by
  have same := congrArg (l ∈ ·) (alike.others h)
  simpa [other] using same

/-- Registries with the same listeners but for bystanders take the place of others, and it is noted
how many are registered now. -/
theorem setRegistry_note {r r' : Registry Listener} (sound : r.Sound) (sound' : r'.Sound)
    (same : r'.snapshot.filter (·.isOther names) = r.snapshot.filter (·.isOther names))
    {n : Nat → Note}
    (aside : ∀ k name, names name = true → Record.IsAside (bystanders names) (.note (n k))) :
    ((w.setRegistry h r).note (n r.size)).Alike (bystanders names)
      ((w'.setRegistry h r').note (n r'.size)) := by
  have replaced : (w.setRegistry h r).Alike (bystanders names) (w'.setRegistry h r') :=
    alike.setRegistry same
  by_cases some_name : ∃ name, names name = true
  · obtain ⟨name, named⟩ := some_name
    exact (replaced.record_left (aside _ name named)).record_right (aside _ name named)
  · have all : ∀ l : Listener, l.isOther names = true := fun l => by
      cases l with
      | view name => simpa [Listener.isOther] using fun named => some_name ⟨name, named⟩
      | _ => rfl
    rw [List.filter_eq_self.mpr fun l _ => all l, List.filter_eq_self.mpr fun l _ => all l] at same
    rw [sound.size_eq, sound'.size_eq, same]
    exact replaced.note _

theorem attach_other (sound : w.Sound) (sound' : w'.Sound) (other : l.isOther names = true) :
    (w.attach h l).2.Alike (bystanders names) (w'.attach h l).2 := by
  by_cases mem : l ∈ w.listeners h
  · rw [attach_of_mem sound mem, attach_of_mem sound' ((alike.mem_listeners other).mpr mem)]
    exact alike
  · have mem' : l ∉ w'.listeners h := fun there => mem ((alike.mem_listeners other).mp there)
    obtain ⟨grown, stored⟩ := (sound.registries h).append mem
    obtain ⟨grown', stored'⟩ := (sound'.registries h).append mem'
    rw [attach_of_not_mem sound mem, attach_of_not_mem sound' mem']
    refine alike.setRegistry_note grown grown' ?_ (n := .listenerAdded h)
      fun _ name named => ⟨name, named⟩
    rw [stored, stored', List.filter_append, List.filter_append]
    exact congrArg (· ++ _) (alike.others h)

theorem detach_other (sound : w.Sound) (sound' : w'.Sound) (registered : w.Registered h id l)
    (registered' : w'.Registered h id' l) :
    (w.detach h id).2.Alike (bystanders names) (w'.detach h id').2 := by
  rw [detach_of_registered registered, detach_of_registered registered']
  refine alike.setRegistry_note ((sound.registries h).remove id).1
    ((sound'.registries h).remove id').1 ?_ (n := .listenerRemoved h)
    fun _ name named => ⟨name, named⟩
  rw [(sound.registries h).snapshot_remove registered,
    (sound'.registries h).snapshot_remove registered',
    List.filter_comm _ _ (w.registryOf h).snapshot, List.filter_comm _ _ (w'.registryOf h).snapshot]
  exact congrArg (List.filter _) (alike.others h)

end Registries

end Alike

section Unnoticed

variable {name : String} (aside : names name = true)

include aside

omit aside in
theorem unnoticed_setRegistry {r : Registry Listener} {n : Note}
    (same : r.snapshot.filter (·.isOther names) = (w.listeners h).filter (·.isOther names))
    (noted : Record.IsAside (bystanders names) (.note n)) :
    w.Unnoticed (bystanders names) ((w.setRegistry h r).note n) where
  left alike := by
    refine (alike.setRegistry_left fun s' found => ?_).record_left noted
    have others := alike.others h
    rw [listeners, registryOf, found] at others
    exact others.trans same.symm
  right alike := by
    refine (alike.setRegistry_right fun s found => ?_).record_right noted
    have others := alike.others h
    rw [listeners, listeners, registryOf, registryOf, found] at others
    exact same.trans others

theorem unnoticed_attach (sound : w.Sound) :
    w.Unnoticed (bystanders names) (w.attach h (.view name)).2 := by
  by_cases mem : .view name ∈ w.listeners h
  · rw [attach_of_mem sound mem]
    exact .refl w
  · rw [attach_of_not_mem sound mem]
    refine unnoticed_setRegistry ?_ ⟨name, aside⟩
    rw [((sound.registries h).append mem).2, List.filter_append]
    simp [Listener.isOther, aside, listeners]

theorem unnoticed_detachListener (sound : w.Sound) :
    w.Unnoticed (bystanders names) (w.detachListener h (.view name)).2 := by
  by_cases mem : .view name ∈ w.listeners h
  · obtain ⟨id, registered, goes⟩ := detachListener_of_mem sound mem
    rw [goes, detach_of_registered registered]
    refine unnoticed_setRegistry ?_ ⟨name, aside⟩
    rw [(sound.registries h).snapshot_remove registered, List.filter_filter]
    refine List.filter_congr fun l _ => ?_
    by_cases here : l = .view name
    · simp [here, Listener.isOther, aside]
    · simp [here]
  · rw [detachListener_of_not_mem sound mem]
    exact .refl w

end Unnoticed

namespace Alike

variable (alike : w.Alike (bystanders names) w')

include alike

theorem detachListener_other (sound : w.Sound) (sound' : w'.Sound)
    (other : l.isOther names = true) :
    (w'.detachListener h l).1 = (w.detachListener h l).1 ∧
      (w.detachListener h l).2.Alike (bystanders names) (w'.detachListener h l).2 := by
  by_cases mem : l ∈ w.listeners h
  · obtain ⟨id, registered, goes⟩ := detachListener_of_mem sound mem
    obtain ⟨id', registered', goes'⟩ :=
      detachListener_of_mem sound' ((alike.mem_listeners other).mpr mem)
    rw [goes, goes']
    refine ⟨?_, alike.detach_other sound sound' registered registered'⟩
    rw [detach_of_registered registered, detach_of_registered registered']
  · have mem' : l ∉ w'.listeners h := fun there => mem ((alike.mem_listeners other).mp there)
    rw [detachListener_of_not_mem sound mem, detachListener_of_not_mem sound' mem']
    exact ⟨rfl, alike⟩

theorem release {t : TranslatorId} {a a' : Target} (sound : w.Sound) (sound' : w'.Sound)
    (same : a.Alike (bystanders names) a')
    (kept : w.Registered a.handler a.resetLink (.resetLink t))
    (kept' : w'.Registered a'.handler a'.resetLink (.resetLink t)) :
    (w.release a).Alike (bystanders names) (w'.release a') := by
  obtain ⟨handler, id⟩ := a
  obtain ⟨handler', id'⟩ := a'
  obtain rfl : handler' = handler := same.handler
  exact (alike.detach_other sound sound' kept kept').note _

/-- The links of a translator on distinct targets go in both. -/
theorem foldl_release {t : TranslatorId} {targets targets' : List Target}
    (same : List.Forall₂ (Target.Alike (bystanders names)) targets targets') (sound : w.Sound)
    (sound' : w'.Sound) (distinct : (targets.map Target.handler).Nodup)
    (kept : ∀ a ∈ targets, w.Registered a.handler a.resetLink (.resetLink t))
    (kept' : ∀ a ∈ targets', w'.Registered a.handler a.resetLink (.resetLink t)) :
    (targets.foldl World.release w).Alike (bystanders names) (targets'.foldl World.release w') := by
  induction same generalizing w w' with
  | nil => exact alike
  | @cons a a' targets targets' first rest ih =>
      -- The other targets are other handlers, so their links are not touched.
      obtain ⟨new, distinct⟩ := List.nodup_cons.mp distinct
      have new' : a'.handler ∉ targets'.map Target.handler := by
        rwa [first.handler, Target.Alike.handlers rest]
      refine ih (alike.release sound sound' first (kept a (by simp)) (kept' a' (by simp)))
        (shrinks_release w a sound).1 (shrinks_release w' a' sound').1 distinct
        (fun b mem => ?_) fun b mem => ?_
      · refine registered_detach.mpr ⟨kept b (by simp [mem]), fun same => new ?_⟩
        exact same.1 ▸ List.mem_map_of_mem mem
      · refine registered_detach.mpr ⟨kept' b (by simp [mem]), fun same => new' ?_⟩
        exact same.1 ▸ List.mem_map_of_mem mem

section Translators

variable {t : TranslatorId} {s s' : TranslatorState}

theorem modify_targets {f : List Target → List Target}
    (fewer : ∀ targets, (f targets).Sublist targets)
    (same : ∀ targets targets', List.Forall₂ (Target.Alike (bystanders names)) targets targets' →
      List.Forall₂ (Target.Alike (bystanders names)) (f targets) (f targets'))
    (sound : w.Sound) (sound' : w'.Sound) :
    (w.modifyTranslator t fun s => { s with targets := f s.targets }).Alike (bystanders names)
        (w'.modifyTranslator t fun s => { s with targets := f s.targets }) ∧
      (w.modifyTranslator t fun s => { s with targets := f s.targets }).Sound ∧
      (w'.modifyTranslator t fun s => { s with targets := f s.targets }).Sound := by
  have extends' : ∀ v : World,
      v.Extends (v.modifyTranslator t fun s => { s with targets := f s.targets }) := fun v =>
    .modifyTranslator v t fun s _ mem => .inl (((fewer s.targets).map _).subset mem)
  exact ⟨alike.modifyTranslator fun s s' before =>
    { before with targets := same _ _ before.targets },
    (extends' w).sound sound, (extends' w').sound sound'⟩

section Named

variable (tidy : w.Tidy) (tidy' : w'.Tidy) {name : String}
  (named : w.translatorNamed? name = some t)
  (found : w.translator? t = some s) (found' : w'.translator? t = some s')

include found found'

theorem alike_of_found : s.Alike (bystanders names) s' := by
  obtain ⟨absent, -⟩ | ⟨r, r', here, here', same⟩ := rel_cases (alike.translator? t)
  · cases absent.symm.trans found
  · cases here.symm.trans found
    cases here'.symm.trans found'
    exact same

include tidy tidy' named

theorem registered_of_keeps (owner : l.owner? = some t) :
    (∀ id, s.Keeps h id l → w.Registered h id l) ∧
      ∀ id, s'.Keeps h id l → w'.Registered h id l := by
  have live := tidy.orderly.live found (Orderly.mem_names_of_translatorNamed? named) rfl
  have named' : w'.translatorNamed? name = some t := by rw [alike.translatorNamed?, named]
  have live' := tidy'.orderly.live found' (Orderly.mem_names_of_translatorNamed? named') rfl
  exact ⟨fun id => tidy.anchored.links t s found live h id l owner,
    fun id => tidy'.anchored.links t s' found' live' h id l owner⟩

/-- A target goes in both, if it was there. -/
theorem removeTarget (h : HandlerId) :
    (w.removeTarget t s h).2.Alike (bystanders names) (w'.removeTarget t s' h).2 := by
  have same := alike.alike_of_found found found'
  rw [World.removeTarget, World.removeTarget]
  obtain ⟨none, none'⟩ | ⟨a, a', here, here', targets⟩ :=
    rel_cases (Target.Alike.find? same.targets h)
  · rw [none, none']
    exact alike
  · rw [here, here']
    obtain ⟨fewer, sound, sound'⟩ := alike.modify_targets (t := t)
      (f := List.filter fun other => !decide (other.handler = h)) (fun _ => List.filter_sublist)
      (fun _ _ all => List.rel_filter (fun _ _ same => by simp [same.handler]) all)
      tidy.sound tidy'.sound
    obtain ⟨kept, -⟩ := alike.registered_of_keeps tidy tidy' named found found'
      (h := a.handler) (l := .resetLink t) rfl
    obtain ⟨-, kept'⟩ := alike.registered_of_keeps tidy tidy' named found found'
      (h := a'.handler) (l := .resetLink t) rfl
    exact fewer.release sound sound' targets (kept _ (List.mem_of_find?_eq_some here))
      (kept' _ (List.mem_of_find?_eq_some here'))

theorem removeAllTargets :
    (w.removeAllTargets t s).Alike (bystanders names) (w'.removeAllTargets t s') := by
  have same := alike.alike_of_found found found'
  obtain ⟨fewer, sound, sound'⟩ := alike.modify_targets (t := t) (f := fun _ => [])
    (fun _ => List.nil_sublist _) (fun _ _ _ => .nil) tidy.sound tidy'.sound
  have kept := fun h => alike.registered_of_keeps tidy tidy' named found found'
    (h := h) (l := .resetLink t) rfl
  exact fewer.foldl_release same.targets sound sound' (tidy.orderly.distinct t s found)
    (fun a mem => (kept a.handler).1 _ mem) fun a mem => (kept a.handler).2 _ mem

/-- A translator is dropped in both. -/
theorem dropTranslator :
    (w.dropTranslator t s).Alike (bystanders names) (w'.dropTranslator t s') := by
  have same := alike.alike_of_found found found'
  have emptied := alike.removeAllTargets tidy tidy' named found found'
  obtain ⟨kept, -⟩ := alike.registered_of_keeps tidy tidy' named found found'
    (h := s.source) (l := .sourceLink t) rfl
  obtain ⟨-, kept'⟩ := alike.registered_of_keeps tidy tidy' named found found'
    (h := s'.source) (l := .sourceLink t) rfl
  -- The source is none of the targets, so its link is still there when they are gone.
  have left : (w.removeAllTargets t s).Registered s.source s.sourceLink (.sourceLink t) :=
    registered_removeAllTargets.mpr ⟨kept _ ⟨rfl, rfl⟩, fun mem =>
      tidy.anchored.apart t s found (List.mem_map_of_mem mem)⟩
  have left' : (w'.removeAllTargets t s').Registered s'.source s'.sourceLink (.sourceLink t) :=
    registered_removeAllTargets.mpr ⟨kept' _ ⟨rfl, rfl⟩, fun mem =>
      tidy'.anchored.apart t s' found' (List.mem_map_of_mem mem)⟩
  have gone := emptied.detach_other (shrinks_removeAllTargets w t s tidy.sound).1
    (shrinks_removeAllTargets w' t s' tidy'.sound).1 left (same.source ▸ left')
  simp only [World.dropTranslator, same.source]
  exact (gone.note _).modifyTranslator fun _ _ before => { before with live := rfl }

end Named

end Translators

end Alike

end World

/-- As long as listeners are taken away by name only, sessions that differ in bystanders keep in
step. -/
theorem lawful_bystanders (names : String → Bool) :
    (bystanders names).Lawful World.Tidy fun op => op.severs = false where
  fit_layout same tidy := tidy.of_layout same
  fit_setMapper t m tidy := tidy.setMapper t m
  fit_perform _ stack tidy spares := tidy.perform spares stack
  allowed_iff ops := by
    cases ops with
    | act actions => cases actions <;> rfl
    | _ => rfl
  allowed_aside {op} aside := by
    cases op with
    | act a => cases a <;> first | rfl | exact aside.elim
    | _ => exact aside.elim
  fault same := by cases same; rfl
  refuses depth same := by
    cases same
    exact .inl rfl
  answers {a a'} same := by
    cases same
    cases a with
    | error message => exact .inl ⟨message, rfl, rfl⟩
    | ok fine => exact .inr ⟨fine, fine, rfl, rfl, fun _ => .rfl⟩
  unasked := rfl
  listeners same := .of_filter same.symm
  counts _ _ _ := trivial
  unregistered := rfl
  attach {w w' h} l tidy tidy' alike _ := by
    refine ⟨trivial, ?_⟩
    cases other : l.isOther names with
    | true => exact alike.attach_other tidy.sound tidy'.sound other
    | false =>
        cases l with
        | view name =>
            have aside : names name = true := by simpa [Listener.isOther] using other
            exact (World.unnoticed_attach aside tidy'.sound).right
              ((World.unnoticed_attach aside tidy.sound).left alike)
        | _ => cases other
  attach_aside tidy aside := World.unnoticed_attach aside tidy.sound
  detachListener {w w'} h name tidy tidy' alike := by
    cases aside : names name with
    | false =>
        obtain ⟨same, gone⟩ := alike.detachListener_other (h := h) (l := .view name) tidy.sound
          tidy'.sound (by simp [Listener.isOther, aside])
        exact ⟨fun _ => same, gone⟩
    | true =>
        exact ⟨fun other => (Bool.false_ne_true (other.symm.trans aside)).elim,
          (World.unnoticed_detachListener aside tidy'.sound).right
            ((World.unnoticed_detachListener aside tidy.sound).left alike)⟩
  detach _ _ _ severs := nomatch severs
  detachAll _ _ _ severs := nomatch severs
  removeTarget h tidy tidy' alike named found found' :=
    alike.removeTarget tidy tidy' named found found' h
  removeAllTargets tidy tidy' alike named found found' :=
    alike.removeAllTargets tidy tidy' named found found'
  dropTranslator tidy tidy' alike named found found' :=
    alike.dropTranslator tidy tidy' named found found'

/-- Two worlds are the same but for bystanders: names, keys, targets, the callbacks of all others
with their events and the number of calls that were open, and all that was written down, the
answers to operations in scripts and lazy input among it. -/
structure World.AgreeBut (names : String → Bool) (w w' : World) : Prop where
  subjects : w'.names = w.names
  keys : w'.keysOf = w.keysOf
  targets : w'.targetsOf = w.targetsOf
  calls : w'.calls (bystanders names) = w.calls (bystanders names)
  journal : Woven (Record.Alike (bystanders names)) (Record.IsAside (bystanders names))
    w.journal.toList w'.journal.toList

/-- Two sessions have come equally far, and are the same but for bystanders: the operations that
are over, their replies and the worlds they left, and the world as it is now. -/
structure Stage.AgreeBut (names : String → Bool) (s s' : Stage) : Prop where
  past : Woven (fun a a' => a.op.Alike (bystanders names) a'.op ∧
    a.reply.Alike (bystanders names) (some a.op) a'.reply ∧ a.world.AgreeBut names a'.world)
    (fun a => a.op.IsAside (bystanders names)) s.past s'.past
  now : s.config.world.AgreeBut names s'.config.world

section AgreeBut

variable {names : String → Bool}

theorem World.Alike.agreeBut {w w' : World} (alike : w.Alike (bystanders names) w') :
    w.AgreeBut names w' :=
  ⟨alike.names, alike.keysOf, funext alike.targetsOf, alike.calls, alike.journal⟩

theorem Stage.Agree.agreeBut {s s' : Stage} (agree : s.Agree (bystanders names) s') :
    s.AgreeBut names s' :=
  ⟨agree.pasts.mono fun _ _ turn => ⟨turn.ops, turn.replies, turn.worlds.agreeBut⟩,
    agree.worlds.agreeBut⟩

end AgreeBut

namespace Turn

/-- What whoever took a listener away by name has learnt. -/
def found? (a : Turn) : Option Bool :=
  match a.op, a.reply with
  | .act (.removeListener _ _), .truth b => some b
  | _, _ => none

theorem found?_eq {L : Likeness} {a a' : Turn} (ops : a.op.Alike L a'.op)
    (replies : a.reply.Alike L none a'.reply) : found? a = found? a' := by
  obtain ⟨op, r, w⟩ := a
  obtain ⟨op', r', w'⟩ := a'
  cases ops with
  | @act a a' actions =>
      cases actions with
      | same => cases a <;> cases replies <;> rfl
      | _ => cases replies <;> rfl
  | _ => cases replies <;> rfl

theorem found?_of_isAside {L : Likeness} {a : Turn} (aside : a.op.IsAside L) : found? a = none := by
  obtain ⟨op, r, w⟩ := a
  cases op with
  | act a => cases a <;> first | rfl | exact aside.elim
  | _ => exact aside.elim

end Turn

namespace Stage

/-- Bystanders do not interfere. Two sessions in which listeners are taken away by name only, and
that differ in which bystanders are registered, when they begin as when they go on, agree in all
else at every moment, at any nesting: wherever one of them comes to, the other comes to a stage that
agrees, and where one ends, so does the other. -/
theorem agree_of_bystanders {names : String → Bool} {w w' : World} {ops ops' : List Op}
    (tidy : w.Tidy) (tidy' : w'.Tidy) (worlds : w.Alike (bystanders names) w')
    (same : Script.Alike (bystanders names) ops ops') :
    (∀ s, (startIn w ops).GoesBy (fun op => op.severs = false) s →
      ∃ s', Comes next? (startIn w' ops') s' ∧ s.AgreeBut names s' ∧
        (s.next? = none → s'.next? = none)) ∧
    (∀ s', (startIn w' ops').GoesBy (fun op => op.severs = false) s' →
      ∃ s, Comes next? (startIn w ops) s ∧ s.AgreeBut names s' ∧
        (s'.next? = none → s.next? = none)) := by
  have lawful := lawful_bystanders names
  refine ⟨fun s run => ?_, fun s' run => ?_⟩
  · obtain ⟨s', goes, agree, ends⟩ := exists_agree lawful id tidy tidy' worlds same run
    exact ⟨s', goes, agree.agreeBut, ends⟩
  · obtain ⟨s, goes, agree, ends⟩ := exists_agree_swap lawful id tidy tidy' worlds same run
    exact ⟨s, goes, agree.agreeBut, ends⟩

/-- A session with a view that moves a key on another handler, which is also a target. Guests may
come at the beginning, while the view is at it, and while keys are read. -/
def gathering (guests : List Op) : List Op :=
  [.act (.createHandler "h" .plain), .act (.createHandler "g" .plain),
    .act (.createListener "b" onlooker)] ++ guests ++
  [.act (.createListener "v" { onlooker with
      script := fun _ => some (guests ++ [.move .highlight "g" ⟨none, [.key (.int 2)]⟩])
      times := 2
      propagate := true }),
    .act (.addListener "h" "v"), .act (.createTranslator "t" "h" (some echo)),
    .act (.addTarget "t" "g"),
    .move .highlight "h" ⟨none, guests.map .act ++ [.key (.int 1)]⟩, .dropTranslator "t",
    .reset "h"]

/-- The view of one name is a bystander. -/
def oneBystander : Likeness := bystanders fun name => name == "b"

/-- Guests that are bystanders make no other difference to what is performed. -/
theorem alike_gathering {guests : List Op} (all : ∀ op ∈ guests, op.IsAside oneBystander) :
    Script.Alike oneBystander (gathering []) (gathering guests) := by
  have plain : ∀ a : Action Op, a.isBare = true → Op.Alike oneBystander (.act a) (.act a) :=
    fun a bare => .act (.same a bare)
  have more : ∀ {as bs : List Op}, Script.Alike oneBystander as bs →
      Script.Alike oneBystander as (guests ++ bs) :=
    fun rest => Woven.append (.asides_right all) rest
  have pulls : ∀ k, Pulls.Alike oneBystander [.key k] (guests.map .act ++ [.key k]) := fun k =>
    Woven.append (.asides_right fun p mem => by
      obtain ⟨op, guest, rfl⟩ := List.mem_map.mp mem
      exact all op guest) (.both (.key k) .nil)
  have moves : Script.Alike oneBystander [.move .highlight "g" ⟨none, [.key (.int 2)]⟩]
      (guests ++ [.move .highlight "g" ⟨none, [.key (.int 2)]⟩]) :=
    more (.both (.move _ _ _ (.both (.key _) .nil)) .nil)
  refine .both (.act (.createHandler _ rfl)) (.both (.act (.createHandler _ rfl))
    (.both (.act (.createAside rfl passive_onlooker passive_onlooker)) (more ?_)))
  refine .both (.act (.createListener rfl (.mk _ _ _ _ fun _ => .some moves))) ?_
  refine .both (plain _ rfl) (.both (.act (.createTranslator _ _ ?_)) (.both (plain _ rfl) ?_))
  · exact .some (fun _ _ => rfl) (fun _ _ => .nil) rfl
  · exact .both (.move _ _ _ (pulls _)) (.both (.dropTranslator _) (.both (.reset _) .nil))

/-- With guests or without, the session ends, and agrees in all else. -/
theorem agree_of_bystanders_gathering :
    let guests : List Op := [.act (.addListener "h" "b"), .act (.addListener "g" "b")]
    ∃ s s', (startIn ∅ (gathering [])).GoesBy (fun op => op.severs = false) s ∧ s.next? = none ∧
      Comes next? (startIn ∅ (gathering guests)) s' ∧ s'.next? = none ∧
      s.AgreeBut (fun name => name == "b") s' := by
  intro guests
  have ends : (go (fun op => op.severs = false) 64 (startIn ∅ (gathering []))).any
      (fun s => s.next?.isNone) = true := by decide +kernel
  obtain ⟨s, run, atEnd⟩ := (Option.any_eq_true _ _).mp ends
  have last : s.next? = none := by simpa using atEnd
  have same : Script.Alike oneBystander (gathering []) (gathering guests) :=
    alike_gathering fun op mem => by
      obtain rfl | rfl : op = _ ∨ op = _ := by simpa [guests] using mem
      all_goals rfl
  obtain ⟨s', goes, agree, done⟩ := (agree_of_bystanders World.tidy_empty World.tidy_empty
    .of_empty same).1 s (goesBy_of_go run)
  exact ⟨s, s', goesBy_of_go run, last, goes, done last, agree⟩

/-- A view goes that may have come. -/
def departing (guests : List Op) : List Op :=
  [.act (.createHandler "h" .plain), .act (.createListener "b" onlooker)] ++ guests ++
    [.act (.removeListener "h" "b")]

/-- Whoever asks for a bystander to be taken away learns whether it was there: the answers are not
the same whether it was registered or not, even if identities and numbers of listeners are left
aside. -/
theorem removal_tells :
    let guest : Op := .act (.addListener "h" "b")
    guest.IsAside oneBystander ∧
      Script.Alike oneBystander (departing []) (departing [guest]) ∧
      ∃ s s', (startIn ∅ (departing [])).GoesBy (fun op => op.severs = false) s ∧ s.next? = none ∧
        (startIn ∅ (departing [guest])).GoesBy (fun op => op.severs = false) s' ∧ s'.next? = none ∧
        ¬ Woven (fun a a' => a.op.Alike oneBystander a'.op ∧
          a.reply.Alike oneBystander none a'.reply) (fun a => a.op.IsAside oneBystander)
          s.past s'.past := by
  intro guest
  have runs : (go (fun op => op.severs = false) 6 (startIn ∅ (departing []))).any (fun s =>
      s.next?.isNone && decide (s.past.filterMap Turn.found? = [false])) = true := by decide +kernel
  have runs' : (go (fun op => op.severs = false) 8 (startIn ∅ (departing [guest]))).any (fun s =>
      s.next?.isNone && decide (s.past.filterMap Turn.found? = [true])) = true := by decide +kernel
  obtain ⟨s, run, passes⟩ := (Option.any_eq_true _ _).mp runs
  obtain ⟨s', run', passes'⟩ := (Option.any_eq_true _ _).mp runs'
  simp only [Bool.and_eq_true, Option.isNone_iff_eq_none, decide_eq_true_eq] at passes passes'
  refine ⟨rfl, ?_, s, s', goesBy_of_go run, passes.1, goesBy_of_go run', passes'.1, fun woven => ?_⟩
  · exact .both (.act (.createHandler _ rfl))
      (.both (.act (.createAside rfl passive_onlooker passive_onlooker))
        (.right rfl (.both (.act (.same _ rfl)) .nil)))
  · have same : s.past.filterMap Turn.found? = s'.past.filterMap Turn.found? :=
      woven.filterMap_eq (fun _ _ both => Turn.found?_eq both.1 both.2)
        fun _ => Turn.found?_of_isAside
    rw [passes.2, passes'.2] at same
    cases same

end Stage

end HighlightSync
