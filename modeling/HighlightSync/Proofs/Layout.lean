import HighlightSync.Proofs.Soundness

/-!
# Layouts

The layout of a world is all of it that stays as it is while a cascade runs: names and
translators, handlers apart from their keys, mappers apart from the number of questions put
to them, and how views behave. Operations change the layout; calls, callbacks and questions
change keys, counters, the depth and the journal alone.
-/

namespace HighlightSync

/-- What stays as it is while a cascade runs. -/
structure Layout where
  names : List (String × Subject)
  translators : Store TranslatorState
  handler : HandlerId → Option HandlerState
  mapper : MapperId → Option MapperState
  behavior : String → Option Behavior

namespace World

/-- The layout of a world: handlers are taken without keys and mappers without questions. -/
def layout (w : World) : Layout where
  names := w.names
  translators := w.translators
  handler h := (w.handler? h).map fun s => { s with keys := ∅ }
  mapper m := (w.mapper? m).map fun s => { s with asked := 0 }
  behavior name := (w.view? name).map ViewState.behavior

@[simp] theorem layout_record (w : World) (r : Record) : (w.record r).layout = w.layout := rfl

@[simp] theorem layout_note (w : World) (n : Note) : (w.note n).layout = w.layout := rfl

@[simp] theorem layout_depth (w : World) (n : Nat) : { w with depth := n }.layout = w.layout := rfl

theorem layout_modifyHandler (w : World) (h : HandlerId) (f : KeySet → KeySet) :
    (w.modifyHandler h fun s => { s with keys := f s.keys }).layout = w.layout := by
  suffices same : ∀ g, ((w.modifyHandler h fun s => { s with keys := f s.keys }).handler? g).map
      (fun s => { s with keys := ∅ }) = (w.handler? g).map fun s => { s with keys := ∅ } by
    simp only [layout, same]
    rfl
  intro g
  rw [handler?_modifyHandler]
  split
  · cases w.handler? g <;> rfl
  · rfl

theorem layout_modifyView (w : World) (name : String) {f : ViewState → ViewState}
    (same : ∀ v, (f v).behavior = v.behavior) : (w.modifyView name f).layout = w.layout := by
  suffices views : ∀ other, ((w.modifyView name f).view? other).map ViewState.behavior =
      (w.view? other).map ViewState.behavior by
    simp only [layout, views]
    rfl
  intro other
  rw [view?_modifyView]
  split
  · cases w.view? other with
    | none => rfl
    | some v => exact congrArg some (same v)
  · rfl

theorem layout_modifyMapper (w : World) (m : MapperId) (f : Nat → Nat) :
    (w.modifyMapper m fun s => { s with asked := f s.asked }).layout = w.layout := by
  suffices mappers : ∀ n, ((w.modifyMapper m fun s => { s with asked := f s.asked }).mapper? n).map
      (fun s => { s with asked := 0 }) = (w.mapper? n).map fun s => { s with asked := 0 } by
    simp only [layout, mappers]
    rfl
  intro n
  rw [mapper?_modifyMapper]
  split
  · cases w.mapper? n <;> rfl
  · rfl

section

variable {w v : World} (same : v.layout = w.layout)

include same

theorem translator?_of_layout : v.translator? = w.translator? := by
  funext t
  rw [translator?, show v.translators = w.translators from congrArg Layout.translators same]
  rfl

theorem handler?_isSome_of_layout (h : HandlerId) :
    (v.handler? h).isSome = (w.handler? h).isSome := by
  have handlers := congrArg Option.isSome (congrFun (congrArg Layout.handler same) h)
  simpa only [layout, Option.isSome_map] using handlers

theorem registryOf_of_layout : v.registryOf = w.registryOf := by
  have reads : ∀ u : World, ∀ h, u.registryOf h = (u.layout.handler h).elim ∅
      HandlerState.registry := by
    intro u h
    simp only [registryOf, layout]
    cases u.handler? h <;> rfl
  funext h
  rw [reads, reads, same]

theorem listeners_of_layout : v.listeners = w.listeners := by
  funext h
  rw [listeners, listeners, registryOf_of_layout same]

theorem view?_isSome_of_layout (name : String) :
    (v.view? name).isSome = (w.view? name).isSome := by
  have views := congrArg Option.isSome (congrFun (congrArg Layout.behavior same) name)
  simpa only [layout, Option.isSome_map] using views

theorem Extends.of_layout : w.Extends v where
  registries := registryOf_of_layout same
  views name h := (view?_isSome_of_layout same name).trans h
  handlers h hh := (handler?_isSome_of_layout same h).trans hh
  targets _ s hs _ hh := .inl ⟨s, translator?_of_layout same ▸ hs, hh⟩

end

end World

end HighlightSync
