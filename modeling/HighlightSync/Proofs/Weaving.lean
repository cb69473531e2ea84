import Mathlib.Data.List.Basic
import Mathlib.Data.Option.Basic
import Mathlib.Logic.Relation

/-!
# Lists and runs that agree up to asides

Two lists are woven when they agree element by element, apart from asides: elements that either
of them may have in addition (`Woven`). Lists that have the same elements once the asides are left
out are woven, and what is made of elements other than asides is the same for woven lists.

Two machines go on alike when each takes a step, or one of them an aside by itself, and states
that were alike are alike again (`Advances`). During an aside the two still agree, and asides use
up a load, so that neither machine is held up for ever. Then whatever state one of them comes to,
the other comes to one that agrees (`Advances.exists_agree`).
-/

namespace HighlightSync

universe u v

theorem rel_cases {α : Type u} {β : Type v} {R : α → β → Prop} {o : Option α} {o' : Option β}
    (h : Option.Rel R o o') :
    (o = none ∧ o' = none) ∨ ∃ a b, o = some a ∧ o' = some b ∧ R a b := by
  cases h with
  | some r => exact .inr ⟨_, _, rfl, rfl, r⟩
  | none => exact .inl ⟨rfl, rfl⟩

theorem rel_map {α : Type u} {β : Type v} {R : α → β → Prop} {o : Option α} {o' : Option β}
    (f : α → α) (f' : β → β) (h : Option.Rel R o o')
    (r : ∀ a b, o = some a → o' = some b → R a b → R (f a) (f' b)) :
    Option.Rel R (o.map f) (o'.map f') := by
  obtain ⟨rfl, rfl⟩ | ⟨a, b, rfl, rfl, before⟩ := rel_cases h
  · exact .none
  · exact .some (r a b rfl rfl before)

/-- Two lists agree element by element, apart from asides on either side. -/
inductive Woven {α : Type u} (R : α → α → Prop) (P : α → Prop) : List α → List α → Prop where
  | nil : Woven R P [] []
  | both {a b : α} {as bs : List α} : R a b → Woven R P as bs → Woven R P (a :: as) (b :: bs)
  | left {a : α} {as bs : List α} : P a → Woven R P as bs → Woven R P (a :: as) bs
  | right {b : α} {as bs : List α} : P b → Woven R P as bs → Woven R P as (b :: bs)

namespace Woven

variable {α : Type u} {β : Type v} {R S : α → α → Prop} {P : α → Prop} {as bs more more' : List α}

theorem append (h : Woven R P as bs) (g : Woven R P more more') :
    Woven R P (as ++ more) (bs ++ more') := by
  induction h with
  | nil => exact g
  | both r _ ih => exact .both r ih
  | left p _ ih => exact .left p ih
  | right p _ ih => exact .right p ih

theorem asides_right (all : ∀ b ∈ bs, P b) : Woven R P [] bs := by
  induction bs with
  | nil => exact .nil
  | cons b bs ih => exact .right (all b (by simp)) (ih fun c mem => all c (by simp [mem]))

theorem concat {a b : α} (h : Woven R P as bs) (r : R a b) : Woven R P (as ++ [a]) (bs ++ [b]) :=
  h.append (.both r .nil)

theorem concat_left {a : α} (h : Woven R P as bs) (p : P a) : Woven R P (as ++ [a]) bs := by
  simpa using h.append (.left p .nil)

theorem concat_right {b : α} (h : Woven R P as bs) (p : P b) : Woven R P as (bs ++ [b]) := by
  simpa using h.append (.right p .nil)

theorem mono (h : Woven R P as bs) (weaker : ∀ a b, R a b → S a b) : Woven S P as bs := by
  induction h with
  | nil => exact .nil
  | both r _ ih => exact .both (weaker _ _ r) ih
  | left p _ ih => exact .left p ih
  | right p _ ih => exact .right p ih

theorem refl_of (as : List α) (all : ∀ a ∈ as, R a a) : Woven R P as as := by
  induction as with
  | nil => exact .nil
  | cons a as ih => exact .both (all a (by simp)) (ih fun b mem => all b (by simp [mem]))

theorem filterMap_eq {f : α → Option β} (h : Woven R P as bs) (same : ∀ a b, R a b → f a = f b)
    (nothing : ∀ a, P a → f a = none) : as.filterMap f = bs.filterMap f := by
  induction h with
  | nil => rfl
  | both r _ ih => rw [List.filterMap_cons, List.filterMap_cons, same _ _ r, ih]
  | left p _ ih => rw [List.filterMap_cons, nothing _ p, ih]
  | right p _ ih => rw [List.filterMap_cons, nothing _ p, ih]

theorem of_filter {p : α → Bool} (same : as.filter p = bs.filter p) :
    Woven Eq (fun a => p a = false) as bs := by
  induction as generalizing bs with
  | nil => exact asides_right fun b mem => by simpa using List.filter_eq_nil_iff.mp same.symm b mem
  | cons a as ih =>
      cases shown : p a with
      | false => exact .left shown (ih (by simpa [shown] using same))
      | true =>
          induction bs with
          | nil => simp [shown] at same
          | cons b bs ihb =>
              cases shown' : p b with
              | false => exact .right shown' (ihb (by simpa [shown'] using same))
              | true =>
                  simp only [List.filter_cons, shown, shown', if_true, List.cons.injEq] at same
                  exact .both same.1 (ih same.2)

end Woven

/-- One state comes from another by some steps. -/
def Comes {σ : Type u} (next : σ → Option σ) : σ → σ → Prop :=
  Relation.ReflTransGen fun s d => next s = some d

/-- One state comes from another by some steps, while another machine waits in a state that agrees
with each that is passed. -/
def ComesAlone {σ : Type u} (next : σ → Option σ) (Q : σ → σ → Prop) (waits : σ) : σ → σ → Prop :=
  Relation.ReflTransGen fun s d => next s = some d ∧ Q d waits

/-- How two states go on that are alike: both have come to an end, or one of them goes on by
itself, all the while agreeing with the other, and has less of a load then, or each takes a
step. -/
inductive Advances {σ : Type u} (next : σ → Option σ) (R Q : σ → σ → Prop) (load : σ → Nat)
    (s s' : σ) : Prop where
  | ends (h : next s = none) (h' : next s' = none)
  | left {d : σ} (h : Relation.TransGen (fun s d => next s = some d ∧ Q d s') s d) (alike : R d s')
      (less : load d < load s)
  | right {d' : σ} (h' : Relation.TransGen (fun s' d' => next s' = some d' ∧ Q s d') s' d')
      (alike : R s d') (less : load d' < load s')
  | both {d d' : σ} (h : next s = some d) (h' : next s' = some d') (alike : R d d')

namespace Advances

variable {σ : Type u} {next : σ → Option σ} {R Q : σ → σ → Prop} {load : σ → Nat}
  {s s' d start start' : σ}

theorem swap (h : Advances next R Q load s s') :
    Advances next (fun a b => R b a) (fun a b => Q b a) load s' s := by
  cases h with
  | ends h h' => exact .ends h' h
  | left h alike less => exact .right h alike less
  | right h' alike less => exact .left h' alike less
  | both h h' alike => exact .both h' h alike

theorem comes_of_alone {p : σ → σ → Prop}
    (h : Relation.TransGen (fun s d => next s = some d ∧ p s d) s d) : Comes next s d :=
  Relation.ReflTransGen.mono (fun _ _ step => step.1) _ _ h.to_reflTransGen

variable {fair : σ → Prop} (advances : ∀ s s', R s s' → fair s → Advances next R Q load s s')

include advances

/-- When one of two states that are alike takes a step, the other comes to a state that agrees, and
that is alike to one that the first is about to come to by itself. -/
theorem catch_up (weaker : ∀ s s', R s s' → Q s s') (alike : R s s') (isFair : fair s)
    (first : next s = some d) :
    ∃ e e', ComesAlone next Q e' d e ∧ Comes next s' e' ∧ R e e' ∧ Q d e' := by
  -- Asides on the other side come first, and there are only so many of them.
  induction load_eq : load s' using Nat.strongRecOn generalizing s' with
  | ind n ih =>
      cases advances s s' alike isFair with
      | ends h _ => cases first.symm.trans h
      | left h alike _ =>
          obtain ⟨e, ⟨hs, agree⟩, rest⟩ := Relation.TransGen.head'_iff.mp h
          cases first.symm.trans hs
          exact ⟨_, s', rest, .refl, alike, agree⟩
      | right h' alike less =>
          obtain ⟨e, e', goes, goes', alike, agree⟩ := ih _ (load_eq ▸ less) alike rfl
          exact ⟨e, e', goes, (comes_of_alone h').trans goes', alike, agree⟩
      | both h h' alike =>
          cases first.symm.trans h
          exact ⟨_, _, .refl, .single h', alike, weaker _ _ alike⟩

theorem exists_end (alike : R s s') (isFair : fair s) (ends : next s = none) :
    ∃ d', Comes next s' d' ∧ R s d' ∧ next d' = none := by
  induction load_eq : load s' using Nat.strongRecOn generalizing s' with
  | ind n ih =>
      cases advances s s' alike isFair with
      | ends _ h' => exact ⟨s', .refl, alike, h'⟩
      | left h _ _ =>
          obtain ⟨e, first, -⟩ := Relation.TransGen.head'_iff.mp h
          cases ends.symm.trans first.1
      | right h' alike less =>
          obtain ⟨d', goes, alike, done⟩ := ih _ (load_eq ▸ less) alike rfl
          exact ⟨d', (comes_of_alone h').trans goes, alike, done⟩
      | both h _ _ => cases ends.symm.trans h

/-- Of two machines that start alike, wherever one of them comes to, the other comes to a state that
agrees; and if that is an end, the other comes to an end. -/
theorem exists_agree (weaker : ∀ s s', R s s' → Q s s') (idle : ∀ s, next s = none → fair s)
    (alike : R start start')
    (run : Relation.ReflTransGen (fun s d => fair s ∧ next s = some d) start s) :
    ∃ d', Comes next start' d' ∧ Q s d' ∧ (next s = none → next d' = none) := by
  have soon : ∃ d d', ComesAlone next Q d' s d ∧ Comes next start' d' ∧ R d d' ∧ Q s d' := by
    induction run with
    | refl => exact ⟨start, start', .refl, .refl, alike, weaker _ _ alike⟩
    | tail _ step ih =>
        obtain ⟨d, d', goes, goes', alike, -⟩ := ih
        obtain ⟨isFair, first⟩ := step
        obtain same | ⟨e, ⟨hs, agree⟩, rest⟩ := Relation.ReflTransGen.cases_head goes
        · subst same
          obtain ⟨e, e', more, more', alike, agree⟩ := catch_up advances weaker alike isFair first
          exact ⟨e, e', more, goes'.trans more', alike, agree⟩
        · cases first.symm.trans hs
          exact ⟨d, d', rest, goes', alike, agree⟩
  obtain ⟨d, d', goes, goes', alike, agree⟩ := soon
  cases ends : next s with
  | some e => exact ⟨d', goes', agree, nofun⟩
  | none =>
      obtain same | ⟨e, step, -⟩ := Relation.ReflTransGen.cases_head goes
      · subst same
        obtain ⟨e', more, alike, done⟩ := exists_end advances alike (idle _ ends) ends
        exact ⟨e', goes'.trans more, weaker _ _ alike, fun _ => done⟩
      · cases ends.symm.trans step.1

end Advances

end HighlightSync
