import HighlightSync.Proofs.Frames

/-!
# Runs above frames

Some work that has begun on top of other frames goes on until nothing is left above them
(`Config.RunsAbove`). Its own steps are those in which its frame is the innermost one
(`Config.ownSteps`); in all other steps something goes on above it that it has set going, to any
depth, and that leaves its frame where it is.

So an invariant of the work is one of its own steps, if what goes on above keeps it
(`RunsAbove.keeps`).
-/

namespace HighlightSync.Config

/-- Steps lead from one configuration to another, each taken while something is left above some
frames. -/
inductive RunsAbove (below : List Frame) (c : Config) : List (Config × Config) → Config → Prop where
  | refl : RunsAbove below c [] c
  | tail {steps : List (Config × Config)} {d e : Config} : RunsAbove below c steps d →
      below.length < d.stack.length → d.step = some e → RunsAbove below c (steps ++ [(d, e)]) e

/-- The steps of the frame right above some others, as opposed to those that go on above it. -/
def ownSteps (below : List Frame) (steps : List (Config × Config)) : List (Config × Config) :=
  steps.filter fun s => decide (s.1.stack.length = below.length + 1)

/-- The frame right above some others does not go on by itself: there is something above it, or a
reply for it. -/
def Pends (below : List Frame) (c : Config) : Prop :=
  c.stack.length = below.length + 1 → c.reply.isSome = true

variable {below : List Frame} {c d : Config} {steps : List (Config × Config)} {f : Frame}

theorem pends_of_above {front : List Frame} (above : front ≠ [])
    (split : c.stack = front ++ f :: below) : Pends below c := by
  intro height
  have length := congrArg List.length split
  rw [height, List.length_append, List.length_cons] at length
  exact absurd (List.eq_nil_of_length_eq_zero (by omega)) above

theorem pends_of_pushed {pushed : List Frame} (split : c.stack = pushed ++ f :: below)
    (replied : pushed = [] → c.reply.isSome = true) : Pends below c := by
  by_cases above : pushed = []
  · exact fun _ => replied above
  · exact pends_of_above above split

theorem not_pends_iff (top : c.stack = f :: below) : ¬ Pends below c ↔ c.reply = none := by
  have height : c.stack.length = below.length + 1 := congrArg List.length top
  rw [Pends, Classical.not_imp, and_iff_right height, Bool.not_eq_true, Option.isSome_eq_false_iff,
    Option.isNone_iff_eq_none]

/-- Work has begun on top of some frames, or was over at once and has left its reply. -/
def Begun (below : List Frame) (c : Config) : Prop :=
  ∃ pushed, c.stack = pushed ++ below ∧ (pushed = [] → c.reply.isSome = true)

theorem Begun.pends (begun : Begun (f :: below) c) :
    ∃ pushed, c.stack = pushed ++ f :: below ∧ Pends below c := by
  obtain ⟨pushed, split, replied⟩ := begun
  exact ⟨pushed, split, pends_of_pushed split replied⟩

section Begun

variable (w : World) (stack : List Frame)

theorem begun_answered (r : Reply) : Begun stack (answered w stack r) := ⟨[], rfl, fun _ => rfl⟩

theorem begun_running (f : Frame) (more : List Frame) :
    Begun stack (running w (f :: more ++ stack)) :=
  ⟨f :: more, rfl, fun none => absurd none (List.cons_ne_nil f more)⟩

theorem begun_openCall (kind : ChangeKind) (h : HandlerId) (body : Frame) :
    Begun stack (openCall kind h body w stack) := by
  simp only [openCall]
  split
  · exact begun_answered _ stack _
  · exact begun_running _ stack body [.call kind h]

theorem begun_openReset_under (h : HandlerId) (f : Frame) :
    Begun stack (openReset h w (f :: stack)) := by
  obtain ⟨pushed, split, -⟩ := begun_openCall w (f :: stack) .reset h (.clearing h)
  refine ⟨pushed ++ [f], ?_, fun none => ?_⟩
  · rw [List.append_assoc]
    exact split
  · simp at none

theorem Begins.begun {op : Op} {d : Config} (h : Begins w stack op d) : Begun stack d := by
  cases h with
  | refused => exact begun_answered w stack _
  | act => exact begun_answered _ stack _
  | move => exact begun_openCall w stack _ _ _
  | reset => exact begun_openCall w stack _ _ _
  | isHighlighted => exact begun_running w stack _ []
  | clearMapper => exact begun_openReset_under w stack _ _
  | setMapper => exact begun_openReset_under _ stack _ _
  | dropTranslator => exact begun_answered _ stack _

end Begun

/-- What holds of the frame of some work holds of it to the end, if it is kept by the steps of that
frame and by all that goes on above. -/
theorem RunsAbove.keeps {P : List (Config × Config) → Frame → Config → Prop}
    {Q : List (Config × Config) → Config → Prop} (run : RunsAbove below c steps d)
    (top : c.stack = f :: below) (start : P [] f c)
    (nested : ∀ own g a b, P own g a → a.step = some b → Pends below a → Pends below b → P own g b)
    (owned : ∀ own g a b, P own g a → a.stack = g :: below → a.step = some b →
      (∃ pushed g', b.stack = pushed ++ g' :: below ∧ P (own ++ [(a, b)]) g' b) ∨
        b.stack = below ∧ Q (own ++ [(a, b)]) b) :
    (∃ front g, d.stack = front ++ g :: below ∧ P (ownSteps below steps) g d) ∨
      d.stack = below ∧ Q (ownSteps below steps) d := by
  induction run with
  | refl => exact .inl ⟨[], f, top, start⟩
  | @tail steps a b _ above move ih =>
      rw [ownSteps, List.filter_append]
      obtain ⟨front, g, split, holds⟩ | ⟨there, -⟩ := ih
      · cases front with
        | nil =>
            have height : a.stack.length = below.length + 1 := congrArg List.length split
            rw [List.filter_cons_of_pos (by simpa using height), List.filter_nil]
            exact owned _ g a b holds split move
        | cons k front =>
            have pends := pends_of_above (List.cons_ne_nil k front) split
            have higher : ¬ a.stack.length = below.length + 1 := by
              rw [split, List.length_append, List.length_cons, List.length_cons]
              omega
            rw [List.filter_cons_of_neg (by simpa using higher), List.filter_nil, List.append_nil]
            obtain ⟨front', split', replied⟩ := step_above move split
            exact .inl ⟨front', g, split', nested _ g a b holds move pends
              (pends_of_pushed split' replied)⟩
      · rw [there] at above
        omega

/-- Follow steps for as long as something is left above some frames. -/
def pursue (height : Nat) : Nat → List (Config × Config) → Config →
    Option (List (Config × Config) × Config)
  | 0, steps, c => some (steps, c)
  | n + 1, steps, c =>
      if height < c.stack.length then
        c.step.bind fun d => pursue height n (steps ++ [(c, d)]) d
      else some (steps, c)

theorem runsAbove_of_pursue {c₀ : Config} {n : Nat} {steps' : List (Config × Config)}
    (before : RunsAbove below c₀ steps c)
    (pursued : pursue below.length n steps c = some (steps', d)) : RunsAbove below c₀ steps' d := by
  induction n generalizing steps c with
  | zero =>
      cases pursued
      exact before
  | succ n ih =>
      rw [pursue] at pursued
      split at pursued
      · rename_i above
        obtain ⟨e, move, pursued⟩ := Option.bind_eq_some_iff.mp pursued
        exact ih (before.tail above move) pursued
      · cases pursued
        exact before

end HighlightSync.Config
