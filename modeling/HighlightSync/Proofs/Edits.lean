import HighlightSync.Proofs.History

/-!
# Edits of a world

Whatever operations do to a world besides calls, they do by edits of a few kinds: a registry is
replaced, a handler, a view or a mapper is made, translators or names change, and the journal grows
(`World.Edits`). All actions are edits (`Effect.edits`), and an operation begins by edits after
which the layout stays as it is (`Alters.exists_edits`).

So what each kind of edit keeps is kept by every step. Handlers and views are made and never taken
away (`step_keeps`).
-/

namespace HighlightSync

namespace World

/-- One world comes from another by edits. -/
inductive Edits (w : World) : World → Prop where
  | refl : w.Edits w
  | registry {v : World} (h : HandlerId) (r : Registry Listener) :
      w.Edits v → w.Edits (v.setRegistry h r)
  | handler {v : World} (settings : Settings) : w.Edits v → w.Edits (v.addHandler settings).2
  | view {v : World} (name : String) (b : Behavior) : w.Edits v → w.Edits (v.addView name b)
  | mapper {v : World} (m : MapperState) : w.Edits v → w.Edits (v.addMapper m).2
  | translators {v : World} (ts : Store TranslatorState) :
      w.Edits v → w.Edits { v with translators := ts }
  | names {v : World} (ns : List (String × Subject)) : w.Edits v → w.Edits { v with names := ns }
  | record {v : World} (r : Record) : w.Edits v → w.Edits (v.record r)

namespace Edits

variable {w v : World}

theorem attach (edits : w.Edits v) (h : HandlerId) (l : Listener) :
    w.Edits (v.attach h l).2 := by
  simp only [World.attach]
  split
  · exact edits
  · exact .record _ (.registry h _ edits)

theorem detach (edits : w.Edits v) (h : HandlerId) (id : ListenerId) :
    w.Edits (v.detach h id).2 := by
  simp only [World.detach]
  split
  · exact .record _ (.registry h _ edits)
  · exact edits

theorem detachListener (edits : w.Edits v) (h : HandlerId) (l : Listener) :
    w.Edits (v.detachListener h l).2 := by
  rw [World.detachListener]
  split
  · exact edits.detach h _
  · exact edits

theorem foldl_release (edits : w.Edits v) (targets : List Target) :
    w.Edits (targets.foldl release v) := by
  induction targets generalizing v with
  | nil => exact edits
  | cons target targets ih => exact ih (.record _ (edits.detach target.handler target.resetLink))

theorem removeAllTargets (edits : w.Edits v) (t : TranslatorId) (s : TranslatorState) :
    w.Edits (v.removeAllTargets t s) :=
  foldl_release (.translators _ edits) s.targets

theorem dropTranslator (edits : w.Edits v) (t : TranslatorId) (s : TranslatorState) :
    w.Edits (v.dropTranslator t s) :=
  .translators _ (.record _ ((edits.removeAllTargets t s).detach s.source s.sourceLink))

theorem removeTarget (edits : w.Edits v) (t : TranslatorId) (s : TranslatorState) (h : HandlerId) :
    w.Edits (v.removeTarget t s h).2 := by
  rw [World.removeTarget]
  split
  · exact .record _ ((Edits.translators _ edits).detach _ _)
  · exact edits

theorem addTarget (edits : w.Edits v) (t : TranslatorId) (s : TranslatorState) (h : HandlerId) :
    w.Edits (v.addTarget t s h).2 := by
  rw [World.addTarget]
  split
  · exact edits
  · split
    · exact edits
    · exact .translators _ (.record _ (edits.attach h _))

theorem addTranslator (edits : w.Edits v) (source : HandlerId) :
    w.Edits (v.addTranslator source).2 :=
  .record _ (.translators _ (edits.attach source _))

theorem introduce (edits : w.Edits v) (name : String) (source : HandlerId) :
    w.Edits (v.introduce name source) :=
  .names _ (edits.addTranslator source)

end Edits

/-- An action is carried out by edits. -/
theorem Effect.edits {w v : World} {a : Action Op} (h : w.Effect a v) : w.Edits v := by
  have start : w.Edits w := .refl
  cases h with
  | nothing => exact start
  | createHandler => exact .names _ (.handler _ start)
  | dropHandler => exact .names _ start
  | createListener => exact .view _ _ start
  | addListener => exact start.attach _ _
  | removeListener => exact start.detachListener _ _
  | removeListenerId => exact start.detach _ _
  | removeAllListeners => exact .registry _ _ start
  | createTranslator => exact start.introduce _ _
  | createMapped => exact .translators _ (.mapper _ (start.introduce _ _))
  | addTarget => exact start.addTarget _ _ _
  | removeTarget => exact start.removeTarget _ _ _
  | removeAllTargets => exact start.removeAllTargets _ _

/-- An operation begins by edits, after which the layout stays as it is. -/
theorem Alters.exists_edits {w v : World} {op : Op} (h : w.Alters op v) :
    ∃ u, w.Edits u ∧ v.layout = u.layout := by
  cases h with
  | still same => exact ⟨w, .refl, same⟩
  | act effect => exact ⟨v, effect.edits, rfl⟩
  | mapper same => exact ⟨_, .mapper _ .refl, same⟩
  | dropTranslator => exact ⟨_, .names _ (Edits.dropTranslator .refl _ _), rfl⟩

/-- All handlers and all views are still there. -/
structure Keeps (w v : World) : Prop where
  handlers : ∀ h, (w.handler? h).isSome = true → (v.handler? h).isSome = true
  views : ∀ name, (w.view? name).isSome = true → (v.view? name).isSome = true

namespace Keeps

variable {w v u : World}

theorem trans (first : w.Keeps v) (second : v.Keeps u) : w.Keeps u :=
  ⟨fun h present => second.handlers h (first.handlers h present),
    fun name known => second.views name (first.views name known)⟩

theorem of_extends (extends' : w.Extends v) : w.Keeps v := ⟨extends'.handlers, extends'.views⟩

end Keeps

theorem Edits.keeps {w v : World} (edits : w.Edits v) : w.Keeps v := by
  induction edits with
  | refl => exact .of_extends (.refl w)
  | registry h r _ ih =>
      refine ih.trans ⟨fun g present => ?_, fun _ known => known⟩
      rw [handler?_setRegistry_isSome]
      exact present
  | handler settings _ ih => exact ih.trans (.of_extends (.addHandler _ settings))
  | view name b _ ih => exact ih.trans (.of_extends (.addView _ name b))
  | mapper _ _ ih | translators _ _ ih | names _ _ ih | record _ _ ih =>
      exact ⟨ih.handlers, ih.views⟩

end World

namespace Config

/-- No handler and no view is ever taken away. -/
theorem step_keeps {c d : Config} (h : c.step = some d) : c.world.Keeps d.world := by
  obtain extends' | ⟨f, stack, op, -, -, rfl⟩ := step_extends h
  · exact .of_extends extends'
  · obtain ⟨v, edits, same⟩ := (alters_perform c.world (f :: stack) op).exists_edits
    exact edits.keeps.trans (.of_extends (.of_layout same))

end Config

end HighlightSync
