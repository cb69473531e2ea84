import HighlightSync.Proofs.Depth
import HighlightSync.Proofs.Stages

/-!
# Sessions with the same registrations

Two sessions are in unison if they differ in nothing that concerns registrations: nobody registers
views for itself, and the same listeners are registered under the same identities
(`Likeness.InUnison`). Then wiring does the same in both, and a likeness is lawful as soon as
differences of settings and answers do not show (`Likeness.InUnison.lawful`).

Such sessions may begin in any two worlds that are alike. Wherever one of them comes to, the other
comes to a stage that agrees (`Stage.exists_agree_of_calm`, `Stage.exists_agree_swap_of_calm`), if
the likeness is strict, or if nothing is refused in the first. What can be told of the two is the
same: registries and translators, callbacks, and what handlers and translators report.
-/

namespace HighlightSync

/-- The handler with other settings. -/
def HandlerState.resettle (f : Settings → Settings) (s : HandlerState) : HandlerState :=
  { s with settings := f s.settings }

/-- The reply with other settings, if it shows any. -/
def Reply.resettle (f : Settings → Settings) : Reply → Reply
  | .created h s => .created h (f s)
  | .handler info => .handler { info with settings := f info.settings }
  | r => r

@[simp] theorem Reply.resettle_id (r : Reply) : r.resettle id = r := by cases r <;> rfl

/-- In both sessions the same listeners are registered, under the same identities. -/
structure Likeness.InUnison (L : Likeness) : Prop where
  aside : ∀ name, L.aside name = false
  id : L.id = Eq
  count : L.count = Eq
  registry : L.registry = Eq

namespace Record

/-- The reply to an operation of a script or of lazy input. -/
def reply? : Record → Option Reply
  | .performed _ r => some r
  | _ => none

/-- Whether handlers and translators report it: a note, or the beginning or the end of a span. -/
def isReport : Record → Bool
  | .note _ | .enter _ | .exit _ => true
  | _ => false

/-- The callback that begins, with the number of calls that are open. -/
def callback? : Record → Option (Listener × Event × Nat)
  | .callback l e depth _ => some (l, e, depth)
  | _ => none

end Record

namespace World

/-- The replies to operations of scripts and of lazy input, in order. -/
def innerReplies (w : World) : List Reply := w.journal.toList.filterMap Record.reply?

/-- What handlers and translators have reported, in order. -/
def reports (w : World) : List Record := w.journal.toList.filter Record.isReport

/-- The callbacks in order: who was told of what, and how many calls were open. -/
def callbacks (w : World) : List (Listener × Event × Nat) :=
  w.journal.toList.filterMap Record.callback?

end World

/-- Two worlds are the same but for the settings of handlers: names, keys and listeners of handlers,
translators with the identities that they keep, open calls, callbacks, what was reported, and the
replies to operations of scripts and of lazy input. -/
structure World.AgreeUpTo (f : Settings → Settings) (w w' : World) : Prop where
  subjects : w'.names = w.names
  handlers : ∀ h, w'.handler? h = (w.handler? h).map (HandlerState.resettle f)
  translators : w'.translator? = w.translator?
  depth : w'.depth = w.depth
  callbacks : w'.callbacks = w.callbacks
  reports : w'.reports = w.reports
  replies : w'.innerReplies.map (Reply.resettle f) = w.innerReplies.map (Reply.resettle f)

/-- Two sessions have come equally far, and are the same but for the settings of handlers: the
replies to the operations that are over and the worlds they left, and the world as it is now. -/
structure Stage.AgreeUpTo (f : Settings → Settings) (s s' : Stage) : Prop where
  past : List.Forall₂ (fun a a' => a'.reply.resettle f = a.reply.resettle f ∧
    a.world.AgreeUpTo f a'.world) s.past s'.past
  now : s.config.world.AgreeUpTo f s'.config.world

theorem Stage.AgreeUpTo.replies_eq {s s' : Stage} (agree : s.AgreeUpTo id s') :
    s'.past.map Turn.reply = s.past.map Turn.reply := by
  refine List.forall₂_eq_eq_eq ▸ List.forall₂_map_left_iff.mpr (List.forall₂_map_right_iff.mpr ?_)
  exact agree.past.flip.imp fun _ _ both => by simpa using both.1

namespace Likeness.InUnison

variable {L : Likeness} (unison : L.InUnison)

include unison

theorem shares (l : Listener) : L.shares l = true := by
  cases l with
  | view name => simp [unison.aside]
  | _ => rfl

theorem not_isAside (op : Op) : ¬ op.IsAside L := by
  cases op with
  | act a => cases a <;> simp [Op.IsAside, unison.aside]
  | _ => exact nofun

theorem not_isAside_record (r : Record) : ¬ r.IsAside L := by
  cases r with
  | callback l e depth heeded => simp [Record.IsAside, unison.shares]
  | performed op r => exact unison.not_isAside op
  | note n => cases n <;> simp [Record.IsAside, unison.aside]
  | _ => exact fun aside => aside

end Likeness.InUnison

theorem Woven.forall₂ {α : Type u} {R : α → α → Prop} {P : α → Prop} {as bs : List α}
    (h : Woven R P as bs) (none : ∀ a, ¬ P a) : List.Forall₂ R as bs := by
  induction h with
  | nil => exact .nil
  | both r _ ih => exact .cons r ih
  | left p _ _ => exact (none _ p).elim
  | right p _ _ => exact (none _ p).elim

namespace World.Alike

variable {L : Likeness} {w w' : World} (unison : L.InUnison) (alike : w.Alike L w')

include unison alike

theorem registryOf_eq : w'.registryOf = w.registryOf := by
  funext h
  have same := alike.registryOf (unison.registry ▸ rfl) h
  rw [unison.registry] at same
  exact same.symm

/-- Translators are the same, with the identities that they keep. -/
theorem translator?_eq : w'.translator? = w.translator? := by
  funext t
  obtain ⟨found, found'⟩ | ⟨s, s', found, found', same⟩ := rel_cases (alike.translator? t)
  · rw [found, found']
  · have targets : s.targets = s'.targets :=
      List.forall₂_eq_eq_eq ▸ same.targets.imp fun a a' both => by
        obtain ⟨h, id⟩ := a
        obtain ⟨h', id'⟩ := a'
        obtain ⟨handler, link⟩ := both
        rw [unison.id] at link
        cases handler
        cases link
        rfl
    have link := same.sourceLink
    rw [unison.id] at link
    obtain ⟨source, sourceLink, all, mapper, live⟩ := s
    obtain ⟨source', sourceLink', all', mapper', live'⟩ := s'
    cases same.source
    cases link
    cases targets
    cases same.mapper
    cases same.live
    rw [found, found']

theorem callbacks_eq : w'.callbacks = w.callbacks := by
  refine (alike.journal.filterMap_eq ?_ fun r aside =>
    (unison.not_isAside_record r aside).elim).symm
  rintro r r' (_ | _ | _) <;> rfl

theorem reports_eq : w'.reports = w.reports := by
  rw [reports, reports, ← List.filterMap_eq_filter]
  refine (alike.journal.filterMap_eq ?_ fun r aside =>
    (unison.not_isAside_record r aside).elim).symm
  rintro r r' (_ | _ | _) <;> rfl

theorem innerReplies_eq {f : Settings → Settings}
    (same : ∀ op r r', Reply.Alike L op r r' → r'.resettle f = r.resettle f) :
    w'.innerReplies.map (Reply.resettle f) = w.innerReplies.map (Reply.resettle f) := by
  rw [innerReplies, innerReplies, List.map_filterMap, List.map_filterMap]
  refine (alike.journal.filterMap_eq ?_ fun r aside =>
    (unison.not_isAside_record r aside).elim).symm
  rintro r r' (⟨r, other⟩ | _ | ⟨-, replies⟩)
  · rfl
  · rfl
  · exact congrArg some (same _ _ _ replies).symm

/-- Worlds are the same but for settings if settings and replies are. -/
theorem agreeUpTo {f : Settings → Settings} (settings : ∀ s s', L.settings s s' → s' = f s)
    (same : ∀ op r r', Reply.Alike L op r r' → r'.resettle f = r.resettle f) :
    w.AgreeUpTo f w' where
  subjects := alike.names
  handlers h := by
    obtain ⟨found, found'⟩ | ⟨s, s', found, found', both⟩ := rel_cases (alike.handler? h)
    · rw [found, found']
      rfl
    · have registries := both.registry
      rw [unison.registry] at registries
      obtain ⟨set, keys, registry⟩ := s
      obtain ⟨set', keys', registry'⟩ := s'
      cases settings _ _ both.settings
      cases both.keys
      cases registries
      rw [found, found']
      rfl
  translators := alike.translator?_eq unison
  depth := alike.depth
  callbacks := alike.callbacks_eq unison
  reports := alike.reports_eq unison
  replies := alike.innerReplies_eq unison same

section Wiring

variable {h : HandlerId} {t : TranslatorId} {s : TranslatorState}

theorem attach_same (l : Listener) :
    (w'.attach h l).1 = (w.attach h l).1 ∧ (w.attach h l).2.Alike L (w'.attach h l).2 := by
  rw [World.attach, World.attach, alike.registryOf_eq unison]
  split
  · exact ⟨rfl, alike⟩
  · exact ⟨rfl, (alike.setRegistry (unison.registry ▸ rfl)).note _⟩

theorem detach_same (id : ListenerId) :
    (w'.detach h id).1 = (w.detach h id).1 ∧ (w.detach h id).2.Alike L (w'.detach h id).2 := by
  rw [World.detach, World.detach, alike.registryOf_eq unison]
  split
  · exact ⟨rfl, (alike.setRegistry (unison.registry ▸ rfl)).note _⟩
  · exact ⟨rfl, alike⟩

theorem detachListener_same (l : Listener) :
    (w'.detachListener h l).1 = (w.detachListener h l).1 ∧
      (w.detachListener h l).2.Alike L (w'.detachListener h l).2 := by
  rw [World.detachListener, World.detachListener, alike.registryOf_eq unison]
  split
  · exact alike.detach_same unison _
  · exact ⟨rfl, alike⟩

theorem release_same (target : Target) : (w.release target).Alike L (w'.release target) :=
  (alike.detach_same unison target.resetLink).2.note _

theorem foldl_release_same (targets : List Target) :
    (targets.foldl World.release w).Alike L (targets.foldl World.release w') := by
  induction targets generalizing w w' with
  | nil => exact alike
  | cons target _ ih => exact ih (alike.release_same unison target)

omit unison in
theorem setTargets {f : List Target → List Target}
    (same : ∀ targets targets', List.Forall₂ (Target.Alike L) targets targets' →
      List.Forall₂ (Target.Alike L) (f targets) (f targets')) :
    (w.modifyTranslator t fun s => { s with targets := f s.targets }).Alike L
      (w'.modifyTranslator t fun s => { s with targets := f s.targets }) :=
  alike.modifyTranslator fun _ _ before => { before with targets := same _ _ before.targets }

theorem removeTarget_same (g : HandlerId) :
    (w.removeTarget t s g).2.Alike L (w'.removeTarget t s g).2 := by
  rw [World.removeTarget, World.removeTarget]
  split
  · refine World.Alike.release_same unison (alike.setTargets fun _ _ all => ?_) _
    exact List.rel_filter (fun _ _ both => by simp [both.handler]) all
  · exact alike

theorem removeAllTargets_same :
    (w.removeAllTargets t s).Alike L (w'.removeAllTargets t s) :=
  World.Alike.foldl_release_same unison (alike.setTargets fun _ _ _ => .nil) s.targets

theorem dropTranslator_same :
    (w.dropTranslator t s).Alike L (w'.dropTranslator t s) :=
  (((alike.removeAllTargets_same unison).detach_same unison s.sourceLink).2.note _).modifyTranslator
    fun _ _ before => { before with live := rfl }

end Wiring

end World.Alike

theorem Stage.Agree.agreeUpTo {L : Likeness} (unison : L.InUnison) {f : Settings → Settings}
    (settings : ∀ s s', L.settings s s' → s' = f s)
    (same : ∀ op r r', Reply.Alike L op r r' → r'.resettle f = r.resettle f) {s s' : Stage}
    (agree : s.Agree L s') : s.AgreeUpTo f s' where
  past := (agree.pasts.forall₂ fun a => unison.not_isAside a.op).imp fun _ _ turns =>
    ⟨same _ _ _ turns.replies, turns.worlds.agreeUpTo unison settings same⟩
  now := agree.worlds.agreeUpTo unison settings same

/-- Sessions in unison keep in step if differences of settings and answers do not show. -/
theorem Likeness.InUnison.lawful {L : Likeness} (unison : L.InUnison)
    (fault : ∀ {s s'}, L.settings s s' → s'.fault? = s.fault?)
    (refuses : ∀ {s s'} (depth : Nat), L.settings s s' →
      s'.refuses? depth = s.refuses? depth ∨ (L.lenient ∧ (s.refuses? depth).isSome = true))
    (answers : ∀ {a a'}, L.answer a a' → (∃ message, a = .error message ∧ a' = .error message) ∨
      ∃ fine fine', a = .ok fine ∧ a' = .ok fine' ∧ ∀ k, (∃ s, fine = some s ∧ k ∈ s) ↔
        ∃ s, fine' = some s ∧ k ∈ s)
    (unasked : L.answer (.ok none) (.ok none)) :
    L.Lawful (fun _ => True) (fun _ => True) where
  fit_layout _ _ := trivial
  fit_setMapper _ _ _ := trivial
  fit_perform _ _ _ _ := trivial
  allowed_iff _ := .rfl
  allowed_aside _ := trivial
  fault := fault
  refuses := refuses
  answers := answers
  unasked := unasked
  listeners {r r'} same := by
    rw [unison.registry] at same
    cases same
    exact .refl_of _ fun _ _ => rfl
  counts _ _ same := by
    rw [unison.registry] at same
    rw [unison.count, same]
  unregistered := unison.registry ▸ rfl
  attach l _ _ alike _ := by
    obtain ⟨same, attached⟩ := alike.attach_same unison l
    exact ⟨by rw [unison.id, same], attached⟩
  attach_aside _ aside := (Bool.false_ne_true ((unison.aside _).symm.trans aside)).elim
  detachListener h name _ _ alike :=
    have both := alike.detachListener_same unison (.view name)
    ⟨fun _ => both.1, both.2⟩
  detach _ _ alike _ := alike.detach_same unison _
  detachAll _ _ alike _ := alike.setRegistry (by rw [unison.registry]; rfl)
  removeTarget h _ _ alike _ found found' := by
    cases found.symm.trans ((alike.translator?_eq unison).symm ▸ found')
    exact alike.removeTarget_same unison h
  removeAllTargets _ _ alike _ found found' := by
    cases found.symm.trans ((alike.translator?_eq unison).symm ▸ found')
    exact alike.removeAllTargets_same unison
  dropTranslator _ _ alike _ found found' := by
    cases found.symm.trans ((alike.translator?_eq unison).symm ▸ found')
    exact alike.dropTranslator_same unison

theorem Advances.since {σ : Type u} {next : σ → Option σ} {R Q : σ → σ → Prop} {load : σ → Nat}
    {start s s' : σ} (h : Advances next R Q load s s') (before : Comes next start s) :
    Advances next (fun a b => R a b ∧ Comes next start a) Q load s s' := by
  cases h with
  | ends h h' => exact .ends h h'
  | left h alike less => exact .left h ⟨alike, before.trans (comes_of_alone h)⟩ less
  | right h' alike less => exact .right h' ⟨alike, before⟩ less
  | both h h' alike => exact .both h h' ⟨alike, before.tail h⟩

namespace Config

theorem Shift.journal {c d : Config} (shift : Shift c d) :
    c.world.journal.toList <+: d.world.journal.toList := by
  cases shift with
  | level level _ =>
      obtain ⟨more, grown, -⟩ := level.journal
      exact ⟨more, grown.symm⟩
  | @call kind h body v below level _ _ =>
      obtain ⟨more, grown, -⟩ := level.journal
      refine (grown ▸ List.prefix_append _ more : c.world.journal.toList <+: v.journal.toList).trans
        ?_
      rw [openCall]
      split <;> simp [answered, running, World.note_eq_record]
  | leave r _ => simp [answered]

end Config

/-- Whether a call was refused. -/
def Record.isRefusal : Record → Bool
  | .note (.cascadeRefused _ _ _) => true
  | _ => false

instance (c : Config) : Decidable c.HasRefused :=
  decidable_of_iff (c.world.journal.toList.any Record.isRefusal = true) <| by
    rw [List.any_eq_true]
    constructor
    · rintro ⟨r, mem, refusal⟩
      cases r with
      | note n =>
          cases n with
          | cascadeRefused h depth limit => exact ⟨h, depth, limit, mem⟩
          | _ => cases refusal
      | _ => cases refusal
    · rintro ⟨h, depth, limit, mem⟩
      exact ⟨_, mem, rfl⟩

namespace Stage

variable {s d e : Stage}

theorem journal_of_next? (next : s.next? = some d) :
    s.config.world.journal.toList <+: d.config.world.journal.toList := by
  obtain ⟨past, underway, todo, c⟩ := s
  rw [next?] at next
  split at next
  · cases next
  · cases next
    exact ((Config.begins_perform _ c.world []).shift none).journal
  · split at next
    · rename_i step
      cases next
      exact (Config.Next.step step).shift.journal
    · cases next
      exact List.prefix_refl _

theorem hasRefused_of_comes (run : Comes next? s d) (refused : s.config.HasRefused) :
    d.config.HasRefused := by
  induction run with
  | refl => exact refused
  | tail _ next ih =>
      obtain ⟨h, depth, limit, mem⟩ := ih
      exact ⟨h, depth, limit, (journal_of_next? next).subset mem⟩

theorem calm_of_comes (run : Comes next? s d) (calm : ¬ d.config.HasRefused) :
    Relation.ReflTransGen (fun s d => ¬ d.config.HasRefused ∧ s.next? = some d) s d := by
  induction run with
  | refl => exact .refl
  | tail _ next ih =>
      have before := fun refused => calm (hasRefused_of_comes (.single next) refused)
      exact .tail (ih before) ⟨calm, next⟩

theorem calm_of_ends (run : Comes next? s e) (ends : e.next? = none)
    (calm : ¬ e.config.HasRefused) (before : Comes next? s d) : ¬ d.config.HasRefused := by
  have unique : Relator.RightUnique fun s d : Stage => s.next? = some d :=
    fun _ _ _ first second => Option.some.inj (first.symm.trans second)
  obtain onward | back := Relation.ReflTransGen.total_of_right_unique unique before run
  · exact fun refused => calm (hasRefused_of_comes onward refused)
  · obtain same | ⟨f, next, -⟩ := Relation.ReflTransGen.cases_head back
    · exact same ▸ calm
    · cases ends.symm.trans next

/-- The next move is not to a stage at which something was refused, if that makes a difference. -/
def Patient (L : Likeness) (s : Stage) : Prop :=
  L.lenient → ∀ d, s.next? = some d → ¬ d.config.HasRefused

/-- Two stages are alike, and a session has really come to the second of them. -/
def Follows (L : Likeness) (start s' s : Stage) : Prop :=
  Alike L (fun _ => True) s s' ∧ Comes next? start s

section Calm

variable {L : Likeness} (lawful : L.Lawful (fun _ => True) (fun _ => True)) {w w' : World}
  (worlds : w.Alike L w') {ops ops' : List Op} (same : Script.Alike L ops ops')

include lawful worlds same

/-- Wherever the first of two sessions comes to, the second comes to a stage that agrees, unless
something was refused; where the first ends, so does the second. -/
theorem exists_agree_of_calm (run : Comes next? (startIn w ops) s)
    (calm : L.lenient → ¬ s.config.HasRefused) :
    ∃ s', Comes next? (startIn w' ops') s' ∧ s.Agree L s' ∧ (s.next? = none → s'.next? = none) := by
  have goes : ∀ a b, Alike L (fun _ => True) a b → a.Patient L →
      Advances next? (Alike L fun _ => True) (Agree L) load a b :=
    fun _ _ alike patient => advances lawful alike (.inl fun _ _ => trivial) patient
  have begins : Alike L (fun _ => True) (startIn w ops) (startIn w' ops') :=
    .idle .nil same worlds trivial trivial
  refine Advances.exists_agree goes (fun _ _ alike => alike.agree)
    (fun _ ends _ d next => by cases ends.symm.trans next) begins ?_
  by_cases lenient : L.lenient
  · refine Relation.ReflTransGen.mono (fun _ _ step => ⟨fun _ d next => ?_, step.2⟩) _ _
      (calm_of_comes run (calm lenient))
    cases step.2.symm.trans next
    exact step.1
  · exact Relation.ReflTransGen.mono (fun _ _ next => ⟨fun yes => (lenient yes).elim, next⟩) _ _ run

/-- Wherever the second of two sessions comes to, the first comes to a stage that agrees, unless
something is refused in it; where the second ends, so does the first. -/
theorem exists_agree_swap_of_calm
    (calm : L.lenient → ∀ s, Comes next? (startIn w ops) s → ¬ s.config.HasRefused)
    (run : Comes next? (startIn w' ops') s) :
    ∃ s', Comes next? (startIn w ops) s' ∧ s'.Agree L s ∧ (s.next? = none → s'.next? = none) := by
  have goes : ∀ a b, Follows L (startIn w ops) a b → True →
      Advances next? (Follows L (startIn w ops)) (fun a b => Agree L b a) load a b :=
    -- The first session has come to where it is, so what comes next in it is calm.
    fun _ _ both _ =>
      ((advances lawful both.1 (.inl fun _ _ => trivial) fun lenient d next =>
        calm lenient d (both.2.tail next)).since both.2).swap
  have begins : Alike L (fun _ => True) (startIn w ops) (startIn w' ops') :=
    .idle .nil same worlds trivial trivial
  exact Advances.exists_agree (Q := fun a b => Agree L b a) goes (fun _ _ both => both.1.agree)
    (fun _ _ => trivial) ⟨begins, .refl⟩
    (Relation.ReflTransGen.mono (fun _ _ next => ⟨trivial, next⟩) _ _ run)

end Calm

end Stage

end HighlightSync
