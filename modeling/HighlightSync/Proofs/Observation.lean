import HighlightSync.Proofs.Actions

/-!
# What is observed of a world

For the theory of changes three things of a world matter: the keys of each handler, who was
told of what so far, and which events were announced so far. A handler announces an event
by a note in the step in which it changes, before it tells anybody.

`World.observed` holds the three together. All work on views, mappers, translators and
registries leaves it as it is: no key moves by an action that is answered at once, and no
listener is told of one (`Effect.observed`, `observed_dropTranslator`).
-/

namespace HighlightSync

/-- Who is told of what, if a callback begins. -/
def Record.told? : Record → Option (Listener × Event)
  | .callback l e _ _ => some (l, e)
  | _ => none

/-- The event that a note announces. -/
def Note.announced? : Note → Option Event
  | .moved h d keys => some ⟨h, .move d keys⟩
  | .cleared h _ => some ⟨h, .reset⟩
  | _ => none

/-- The event that a record announces. -/
def Record.announced? : Record → Option Event
  | .note n => n.announced?
  | _ => none

/-- The keys of all handlers, all callbacks and all announced events. -/
structure Observed where
  keys : HandlerId → KeySet
  heard : List (Listener × Event)
  announced : List Event

namespace World

/-- All callbacks so far, in order: who was told of what. -/
def heard (w : World) : List (Listener × Event) := w.journal.toList.filterMap Record.told?

/-- All events announced so far, in order. -/
def announced (w : World) : List Event := w.journal.toList.filterMap Record.announced?

/-- What is observed of a world. -/
def observed (w : World) : Observed := ⟨w.keysOf, w.heard, w.announced⟩

theorem heard_record (w : World) (r : Record) : (w.record r).heard = w.heard ++ r.told?.toList := by
  simp only [heard, toList_journal_record, List.filterMap_append, List.filterMap_cons,
    List.filterMap_nil]
  cases r.told? <;> rfl

theorem announced_record (w : World) (r : Record) :
    (w.record r).announced = w.announced ++ r.announced?.toList := by
  simp only [announced, toList_journal_record, List.filterMap_append, List.filterMap_cons,
    List.filterMap_nil]
  cases r.announced? <;> rfl

theorem observed_record (w : World) {r : Record} (told : r.told? = none)
    (announced : r.announced? = none) : (w.record r).observed = w.observed := by
  simp [observed, heard_record, announced_record, told, announced]

theorem observed_note (w : World) {n : Note} (h : n.announced? = none) :
    (w.note n).observed = w.observed :=
  observed_record w rfl h

theorem keysOf_modifyHandler_of_keys (w : World) (h : HandlerId) {f : HandlerState → HandlerState}
    (same : ∀ s, (f s).keys = s.keys) : (w.modifyHandler h f).keysOf = w.keysOf := by
  funext g
  simp only [keysOf, handler?_modifyHandler]
  split
  · cases w.handler? g with
    | none => rfl
    | some s => exact same s
  · rfl

@[simp] theorem observed_addHandler (w : World) (settings : Settings) :
    (w.addHandler settings).2.observed = w.observed := by
  have keys : (w.addHandler settings).2.keysOf = w.keysOf := by
    funext g
    simp only [keysOf, handler?, addHandler, Store.get?_push]
    split
    · rename_i new
      have absent : w.handlers.get? g.number = none := by
        rw [← Option.not_isSome_iff_eq_none, Store.get?_isSome_iff, new, Store.next]
        omega
      rw [absent]
      rfl
    · rfl
  simp only [observed, keys]
  rfl

@[simp] theorem observed_setRegistry (w : World) (h : HandlerId) (r : Registry Listener) :
    (w.setRegistry h r).observed = w.observed := by
  have keys : (w.setRegistry h r).keysOf = w.keysOf :=
    keysOf_modifyHandler_of_keys w h fun _ => rfl
  simp only [observed, keys]
  rfl

@[simp] theorem observed_attach (w : World) (h : HandlerId) (l : Listener) :
    (w.attach h l).2.observed = w.observed := by
  simp only [attach]
  split
  · rfl
  · exact (observed_note _ rfl).trans (observed_setRegistry w h _)

@[simp] theorem observed_detach (w : World) (h : HandlerId) (id : ListenerId) :
    (w.detach h id).2.observed = w.observed := by
  simp only [detach]
  split
  · exact (observed_note _ rfl).trans (observed_setRegistry w h _)
  · rfl

@[simp] theorem observed_detachListener (w : World) (h : HandlerId) (l : Listener) :
    (w.detachListener h l).2.observed = w.observed := by
  rw [detachListener]
  split
  · exact observed_detach w h _
  · rfl

@[simp] theorem observed_release (w : World) (target : Target) :
    (w.release target).observed = w.observed :=
  (observed_note _ rfl).trans (observed_detach w _ _)

@[simp] theorem observed_addTranslator (w : World) (source : HandlerId) :
    (w.addTranslator source).2.observed = w.observed := by
  simp only [addTranslator]
  exact (observed_note _ rfl).trans (observed_attach w source _)

@[simp] theorem observed_addTarget (w : World) (t : TranslatorId) (s : TranslatorState)
    (h : HandlerId) : (w.addTarget t s h).2.observed = w.observed := by
  rw [addTarget]
  split
  · rfl
  · split
    · rfl
    · exact (observed_note _ rfl).trans (observed_attach w h _)

@[simp] theorem observed_removeTarget (w : World) (t : TranslatorId) (s : TranslatorState)
    (h : HandlerId) : (w.removeTarget t s h).2.observed = w.observed := by
  rw [removeTarget]
  split
  · exact observed_release _ _
  · rfl

theorem observed_foldl_release (targets : List Target) (w : World) :
    (targets.foldl release w).observed = w.observed := by
  induction targets generalizing w with
  | nil => rfl
  | cons target targets ih => rw [List.foldl_cons, ih, observed_release]

@[simp] theorem observed_removeAllTargets (w : World) (t : TranslatorId) (s : TranslatorState) :
    (w.removeAllTargets t s).observed = w.observed :=
  observed_foldl_release s.targets _

/-- Dropping a translator moves no key and tells nobody. -/
@[simp] theorem observed_dropTranslator (w : World) (t : TranslatorId) (s : TranslatorState) :
    (w.dropTranslator t s).observed = w.observed :=
  ((observed_note _ rfl).trans (observed_detach _ _ _)).trans (observed_removeAllTargets w t s)

/-- An action moves no key and tells nobody. -/
theorem Effect.observed {w v : World} {a : Action Op} (h : w.Effect a v) :
    v.observed = w.observed := by
  cases h with
  | nothing => rfl
  | createHandler => exact observed_addHandler w _
  | dropHandler => rfl
  | createListener => rfl
  | addListener => exact observed_attach w _ _
  | removeListener => exact observed_detachListener w _ _
  | removeListenerId => exact observed_detach w _ _
  | removeAllListeners => exact observed_setRegistry w _ _
  | createTranslator => exact observed_addTranslator w _
  | createMapped => exact observed_addTranslator w _
  | addTarget => exact observed_addTarget w _ _ _
  | removeTarget => exact observed_removeTarget w _ _ _
  | removeAllTargets => exact observed_removeAllTargets w _ _

end World

end HighlightSync
