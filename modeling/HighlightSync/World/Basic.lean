import HighlightSync.Journal.Record
import HighlightSync.Registry.Basic
import HighlightSync.Store

/-!
# The world of a session

The world holds the handlers, translators, mappers and views that exist, the names that a
session knows handlers and translators by, the number of calls that are open in the
cascade under way, and the journal.

A handler keeps its settings, its highlighted keys and its registry. A translator keeps
its source, the identity of its link there, and its targets with the identity of the reset
link on each; it stays in the store when it is dropped, without targets and marked as such.
A mapper answers by the number of questions put to it before and by the key, so that it
may be any function of what it was asked, and runs a script at each question.
-/

namespace HighlightSync

/-- A handler: one domain's highlighted keys and who is told about their changes. -/
structure HandlerState where
  settings : Settings
  keys : KeySet
  registry : Registry Listener

/-- A target of a translator, with the identity of the reset link registered on it. -/
structure Target where
  handler : HandlerId
  resetLink : ListenerId
  deriving DecidableEq

/-- A translator from a source to targets. -/
structure TranslatorState where
  source : HandlerId
  sourceLink : ListenerId
  targets : List Target
  mapper : Option MapperId
  live : Bool

/-- A mapper with the number of questions that were put to it. -/
structure MapperState where
  answer : Nat → Key → Answer
  script : Nat → Key → List Op
  origin : MapperOrigin
  asked : Nat

/-- What a name stands for. -/
inductive Subject where
  | handler (h : HandlerId)
  | translator (t : TranslatorId)
  deriving DecidableEq

/-- All that exists in a session. -/
structure World where
  handlers : Store HandlerState
  translators : Store TranslatorState
  mappers : Store MapperState
  views : List (String × ViewState)
  names : List (String × Subject)
  depth : Nat
  journal : Array Record

/-- The target handlers of a translator, in order. -/
def TranslatorState.targetHandlers (t : TranslatorState) : List HandlerId :=
  t.targets.map Target.handler

/-- The mapper that a specification asks for. -/
def MapperState.ofSpec : MapperSpec Op → MapperState
  | .table t => ⟨fun _ k => t.answer k, fun _ _ => [], .table, 0⟩
  | .computed f label script times =>
      ⟨fun _ k => f.answer k, fun n _ => if n < times then script else [], .computed label, 0⟩

namespace World

/-- The world before anything was made. -/
def empty : World := ⟨∅, ∅, ∅, [], [], 0, #[]⟩

instance : EmptyCollection World := ⟨empty⟩

instance : Inhabited World := ⟨empty⟩

/-- The handler with an identity. -/
def handler? (w : World) (h : HandlerId) : Option HandlerState := w.handlers.get? h.number

/-- The translator with an identity, dropped or not. -/
def translator? (w : World) (t : TranslatorId) : Option TranslatorState :=
  w.translators.get? t.number

/-- The mapper with an identity. -/
def mapper? (w : World) (m : MapperId) : Option MapperState := w.mappers.get? m.number

/-- The view with a name. -/
def view? (w : World) (name : String) : Option ViewState := w.views.lookup name

/-- Change a handler. -/
def modifyHandler (w : World) (h : HandlerId) (f : HandlerState → HandlerState) : World :=
  { w with handlers := w.handlers.modify h.number f }

/-- Change a translator. -/
def modifyTranslator (w : World) (t : TranslatorId) (f : TranslatorState → TranslatorState) :
    World :=
  { w with translators := w.translators.modify t.number f }

/-- Change a mapper. -/
def modifyMapper (w : World) (m : MapperId) (f : MapperState → MapperState) : World :=
  { w with mappers := w.mappers.modify m.number f }

/-- Change the view with a name. -/
def modifyView (w : World) (name : String) (f : ViewState → ViewState) : World :=
  { w with views := w.views.map fun v => if v.1 = name then (v.1, f v.2) else v }

/-- Write an observation into the journal. -/
def record (w : World) (r : Record) : World := { w with journal := w.journal.push r }

/-- Write a note into the journal. -/
def note (w : World) (n : Note) : World := w.record (.note n)

/-- The highlighted keys of a handler. -/
def keysOf (w : World) (h : HandlerId) : KeySet := (w.handler? h).elim ∅ HandlerState.keys

/-- The registry of a handler. -/
def registryOf (w : World) (h : HandlerId) : Registry Listener :=
  (w.handler? h).elim ∅ HandlerState.registry

/-- The handler that goes by a name. -/
def handlerNamed? (w : World) (name : String) : Option HandlerId :=
  match w.names.lookup name with
  | some (.handler h) => some h
  | _ => none

/-- The translator that goes by a name. -/
def translatorNamed? (w : World) (name : String) : Option TranslatorId :=
  match w.names.lookup name with
  | some (.translator t) => some t
  | _ => none

/-- The fault that a specification speaks of; `none` if it names a handler that is not there. -/
def faultOf (w : World) : FaultSpec → Option Fault
  | .given f => some f
  | .selfTarget name => (w.handlerNamed? name).map .selfTarget

/-- Let a name stand for something. -/
def bind (w : World) (name : String) (s : Subject) : World :=
  { w with names := w.names ++ [(name, s)] }

/-- Forget a name. -/
def forget (w : World) (name : String) : World :=
  { w with names := w.names.filter fun n => n.1 ≠ name }

/-- Whether a live translator leads from the handler or to it. -/
def linksHandler (w : World) (h : HandlerId) : Bool :=
  w.translators.items.any fun t =>
    t.live && (decide (t.source = h) || t.targets.any fun target => decide (target.handler = h))

/-- Whether some name stands for the handler. -/
def namesHandler (w : World) (h : HandlerId) : Bool :=
  w.names.any fun n => decide (n.2 = .handler h)

@[simp] theorem handler?_record (w : World) (r : Record) : (w.record r).handler? = w.handler? := rfl

@[simp] theorem translator?_record (w : World) (r : Record) :
    (w.record r).translator? = w.translator? := rfl

@[simp] theorem mapper?_record (w : World) (r : Record) : (w.record r).mapper? = w.mapper? := rfl

@[simp] theorem view?_record (w : World) (r : Record) : (w.record r).view? = w.view? := rfl

@[simp] theorem keysOf_record (w : World) (r : Record) : (w.record r).keysOf = w.keysOf := rfl

@[simp] theorem registryOf_record (w : World) (r : Record) :
    (w.record r).registryOf = w.registryOf := rfl

@[simp] theorem depth_record (w : World) (r : Record) : (w.record r).depth = w.depth := rfl

@[simp] theorem names_record (w : World) (r : Record) : (w.record r).names = w.names := rfl

@[simp] theorem toList_journal_record (w : World) (r : Record) :
    (w.record r).journal.toList = w.journal.toList ++ [r] := by
  simp [record]

theorem note_eq_record (w : World) (n : Note) : w.note n = w.record (.note n) := rfl

theorem handler?_modifyHandler (w : World) (h g : HandlerId) (f : HandlerState → HandlerState) :
    (w.modifyHandler h f).handler? g = if g = h then (w.handler? g).map f else w.handler? g := by
  unfold handler? modifyHandler
  rw [Store.get?_modify]
  cases g
  cases h
  simp

theorem translator?_modifyTranslator (w : World) (t u : TranslatorId)
    (f : TranslatorState → TranslatorState) :
    (w.modifyTranslator t f).translator? u =
      if u = t then (w.translator? u).map f else w.translator? u := by
  unfold translator? modifyTranslator
  rw [Store.get?_modify]
  cases u
  cases t
  simp

theorem mapper?_modifyMapper (w : World) (m n : MapperId) (f : MapperState → MapperState) :
    (w.modifyMapper m f).mapper? n = if n = m then (w.mapper? n).map f else w.mapper? n := by
  unfold mapper? modifyMapper
  rw [Store.get?_modify]
  cases n
  cases m
  simp

/-- A change of one view is seen on that view alone. -/
theorem view?_modifyView (w : World) (name other : String) (f : ViewState → ViewState) :
    (w.modifyView name f).view? other =
      if other = name then (w.view? other).map f else w.view? other := by
  suffices h : ∀ vs : List (String × ViewState),
      (vs.map fun v => if v.1 = name then (v.1, f v.2) else v).lookup other =
        if other = name then (vs.lookup other).map f else vs.lookup other from h w.views
  intro vs
  induction vs with
  | nil => simp
  | cons v vs ih =>
      obtain ⟨n, s⟩ := v
      rw [List.map_cons, List.lookup_cons]
      by_cases hn : n = name
      · subst hn
        rw [if_pos rfl, List.lookup_cons, ih]
        by_cases ho : other = n
        · simp [ho]
        · simp [ho, beq_eq_false_iff_ne.mpr ho]
      · rw [if_neg hn, List.lookup_cons, ih]
        by_cases ho : other = n
        · subst ho
          simp [hn]
        · simp [beq_eq_false_iff_ne.mpr ho]

@[simp] theorem translator?_modifyHandler (w : World) (h : HandlerId)
    (f : HandlerState → HandlerState) : (w.modifyHandler h f).translator? = w.translator? := rfl

@[simp] theorem mapper?_modifyHandler (w : World) (h : HandlerId)
    (f : HandlerState → HandlerState) : (w.modifyHandler h f).mapper? = w.mapper? := rfl

@[simp] theorem handler?_modifyTranslator (w : World) (t : TranslatorId)
    (f : TranslatorState → TranslatorState) : (w.modifyTranslator t f).handler? = w.handler? := rfl

@[simp] theorem handler?_modifyMapper (w : World) (m : MapperId) (f : MapperState → MapperState) :
    (w.modifyMapper m f).handler? = w.handler? := rfl

end World

end HighlightSync
