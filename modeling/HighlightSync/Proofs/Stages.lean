import HighlightSync.Proofs.Lockstep
import HighlightSync.Session.Basic

/-!
# Sessions, moment by moment

A session performs operations one after the other. How far it has come is a stage: what came of
the operations that are over, the one under way, if any, the operations to come, and the
configuration. `Stage.next?` leads from each stage to the next one, so that every moment is seen,
also of an operation that does not end.

Two sessions that perform operations that are alike agree at every moment, if the likeness is
lawful: wherever one comes to, the other comes to a stage that agrees, and where one ends, the other
does (`Stage.exists_agree`, `Stage.exists_agree_swap`).
-/

namespace HighlightSync

/-- What came of an operation that is over. -/
structure Turn where
  op : Op
  reply : Reply
  world : World

/-- How far a session has come. -/
structure Stage where
  past : List Turn
  underway : Option Op
  todo : List Op
  config : Config

/-- Turns are alike. -/
structure Turn.Alike (L : Likeness) (a a' : Turn) : Prop where
  ops : a.op.Alike L a'.op
  replies : a.reply.Alike L (some a.op) a'.reply
  worlds : a.world.Alike L a'.world

/-- One session took the turn for itself. -/
def Turn.IsAside (L : Likeness) (a : Turn) : Prop := a.op.IsAside L

namespace Stage

open Config (perform)

/-- A session is about to perform operations, in a world. -/
def startIn (w : World) (ops : List Op) : Stage := ⟨[], none, ops, ⟨w, [], none⟩⟩

/-- The session goes on: it begins an operation, lets the one under way take a step, or notes what
came of it. -/
def next? (s : Stage) : Option Stage :=
  match s.underway, s.todo with
  | none, [] => none
  | none, op :: todo => some ⟨s.past, some op, todo, perform op s.config.world []⟩
  | some op, todo =>
      match s.config.step with
      | some d => some ⟨s.past, some op, todo, d⟩
      | none =>
          some ⟨s.past ++ [⟨op, s.config.reply.getD .done, s.config.world⟩], none, todo, s.config⟩

/-- The operation that is performed next, if one is. -/
def due? (s : Stage) : Option Op :=
  match s.underway with
  | none => s.todo.head?
  | some _ => s.config.due?

/-- What one session may have still to do for itself. -/
def load (s : Stage) : Nat := s.todo.length + s.config.load

/-- From one stage to another only operations of some kind are performed, those of scripts and of
lazy input included. -/
def GoesBy (allowed : Op → Prop) : Stage → Stage → Prop :=
  Relation.ReflTransGen fun s d => (∀ op, s.due? = some op → allowed op) ∧ s.next? = some d

/-- Go on for a number of moves, for as long as operations of some kind are performed. -/
def go (allowed : Op → Prop) [DecidablePred allowed] : Nat → Stage → Option Stage
  | 0, s => some s
  | n + 1, s =>
      if s.due?.all fun op => decide (allowed op) then s.next?.bind (go allowed n) else none

theorem goesBy_of_go {allowed : Op → Prop} [DecidablePred allowed] {n : Nat} {s d : Stage}
    (h : go allowed n s = some d) : s.GoesBy allowed d := by
  induction n generalizing s with
  | zero =>
      cases h
      exact .refl
  | succ n ih =>
      rw [go] at h
      split at h
      · rename_i passes
        obtain ⟨e, next, rest⟩ := Option.bind_eq_some_iff.mp h
        exact .head ⟨fun op due => by simpa [due] using passes, next⟩ (ih rest)
      · cases h

variable {past past' : List Turn} {todo todo' : List Op} {op op' : Op} {c c' d : Config}

theorem next?_of_step (h : c.step = some d) :
    next? ⟨past, some op, todo, c⟩ = some ⟨past, some op, todo, d⟩ := by
  rw [next?, h]

theorem next?_of_atRest (h : c.AtRest) :
    next? ⟨past, some op, todo, c⟩ =
      some ⟨past ++ [⟨op, c.reply.getD .done, c.world⟩], none, todo, c⟩ := by
  rw [next?, h]

/-- Two sessions have come equally far: the turns that are over are alike, and so are the worlds. -/
structure Agree (L : Likeness) (s s' : Stage) : Prop where
  pasts : Woven (Turn.Alike L) (Turn.IsAside L) s.past s'.past
  worlds : s.config.world.Alike L s'.config.world

/-- Stages are alike, in worlds of some kind. -/
inductive Alike (L : Likeness) (fit : World → Prop) : Stage → Stage → Prop where
  | idle {past past' : List Turn} (pasts : Woven (Turn.Alike L) (Turn.IsAside L) past past')
      {todo todo' : List Op} (todos : Script.Alike L todo todo') {c c' : Config}
      (worlds : c.world.Alike L c'.world) (fits : fit c.world) (fits' : fit c'.world) :
      Alike L fit ⟨past, none, todo, c⟩ ⟨past', none, todo', c'⟩
  | busy {past past' : List Turn} (pasts : Woven (Turn.Alike L) (Turn.IsAside L) past past')
      {op op' : Op} (ops : op.Alike L op') {todo todo' : List Op}
      (todos : Script.Alike L todo todo') {c c' : Config}
      (configs : Config.InStep L fit (some op) c c') :
      Alike L fit ⟨past, some op, todo, c⟩ ⟨past', some op', todo', c'⟩

variable {L : Likeness} {fit : World → Prop} {allowed : Op → Prop}

theorem Alike.agree {s s' : Stage} (alike : s.Alike L fit s') : s.Agree L s' := by
  cases alike with
  | idle pasts _ worlds => exact ⟨pasts, worlds⟩
  | busy pasts _ _ configs =>
      cases configs.alike with
      | running worlds => exact ⟨pasts, worlds⟩
      | answered worlds => exact ⟨pasts, worlds⟩

/-- How stages go on that are alike while an operation is under way. -/
theorem advances_busy (pasts : Woven (Turn.Alike L) (Turn.IsAside L) past past')
    (ops : op.Alike L op') (todos : Script.Alike L todo todo')
    (configs : Config.InStep L fit (some op) c c')
    (goes : Advances Config.step (Config.InStep L fit (some op)) (Config.WorldsAlike L) Config.load
      c c') :
    Advances next? (Alike L fit) (Agree L) load ⟨past, some op, todo, c⟩
      ⟨past', some op', todo', c'⟩ := by
  cases goes with
  | left h inStep less =>
      exact .left (Relation.TransGen.lift (fun d => Stage.mk past (some op) todo d)
          (fun _ _ step => ⟨next?_of_step step.1, ⟨pasts, step.2⟩⟩) _ _ h)
        (.busy pasts ops todos inStep) (Nat.add_lt_add_left less _)
  | right h' inStep less =>
      exact .right (Relation.TransGen.lift (fun d => Stage.mk past' (some op') todo' d)
          (fun _ _ step => ⟨next?_of_step step.1, ⟨pasts, step.2⟩⟩) _ _ h')
        (.busy pasts ops todos inStep) (Nat.add_lt_add_left less _)
  | both h h' inStep =>
      exact .both (next?_of_step h) (next?_of_step h') (.busy pasts ops todos inStep)
  | ends h h' =>
      refine .both (next?_of_atRest h) (next?_of_atRest h') ?_
      obtain ⟨alike, fits, fits'⟩ := configs
      cases alike with
      | running => cases h
      | @answered w w' worlds _ _ waiting r r' replies =>
          cases waiting with
          | nil =>
              have turns : Turn.Alike L ⟨op, r, w⟩ ⟨op', r', w'⟩ := ⟨ops, replies, worlds⟩
              exact .idle (pasts.concat turns) todos worlds fits fits'
          | cons => cases h

section Lawful

variable (lawful : L.Lawful fit allowed)

include lawful

theorem steps_aside (fits : fit c.world) (aside : op.IsAside L) (past : List Turn)
    (todo : List Op) :
    ∃ r v, c.world.Unnoticed L v ∧ fit v ∧
      next? ⟨past, none, op :: todo, c⟩ = some ⟨past, some op, todo, ⟨v, [], some r⟩⟩ ∧
      next? ⟨past, some op, todo, ⟨v, [], some r⟩⟩ =
        some ⟨past ++ [⟨op, r, v⟩], none, todo, ⟨v, [], some r⟩⟩ := by
  obtain ⟨v, r, performs, -, unnoticed, kept⟩ :=
    Config.unnoticed_of_isAside lawful fits aside []
  exact ⟨r, v, unnoticed, kept, congrArg (fun d => some (Stage.mk past (some op) todo d)) performs,
    next?_of_atRest rfl⟩

/-- How stages go on that are alike. -/
theorem advances {s s' : Stage} (alike : s.Alike L fit s')
    (fair : (∀ op, s.due? = some op → allowed op) ∨ ∀ op, s'.due? = some op → allowed op)
    (patient : L.lenient → ∀ d, s.next? = some d → ¬ d.config.HasRefused) :
    Advances next? (Alike L fit) (Agree L) load s s' := by
  cases alike with
  | busy pasts ops todos configs =>
      exact advances_busy pasts ops todos configs
        (Config.advances lawful configs fair fun lenient d h =>
          patient lenient _ (next?_of_step h))
  | idle pasts todos worlds fits fits' =>
      cases todos with
      | nil => exact .ends rfl rfl
      | both ops rest =>
          obtain ⟨isAllowed, isAllowed'⟩ :=
            Config.allowed_of lawful ops (fair.imp (fun all => all _ rfl) fun all => all _ rfl)
          obtain begun | ⟨lenient, refused⟩ :=
            Config.agree_perform lawful fits fits' worlds .nil ops isAllowed rfl
          · exact .both rfl rfl (.busy pasts ops rest
              ⟨begun, lawful.fit_perform _ [] fits isAllowed,
                lawful.fit_perform _ [] fits' isAllowed'⟩)
          · exact (patient lenient _ rfl refused).elim
      | @left op _ _ aside rest =>
          obtain ⟨r, v, unnoticed, kept, begins, ends⟩ := steps_aside lawful fits aside _ _
          have turn : Turn.IsAside L ⟨op, r, v⟩ := aside
          have after := unnoticed.left worlds
          exact .left
            (.head ⟨begins, ⟨pasts, after⟩⟩ (.single ⟨ends, ⟨pasts.concat_left turn, after⟩⟩))
            (.idle (pasts.concat_left turn) rest after kept fits')
            (Nat.lt_of_lt_of_le (Nat.lt_succ_self _) (Nat.le_add_right _ _))
      | @right op _ _ aside rest =>
          obtain ⟨r, v, unnoticed, kept, begins, ends⟩ := steps_aside lawful fits' aside _ _
          have turn : Turn.IsAside L ⟨op, r, v⟩ := aside
          have after := unnoticed.right worlds
          exact .right
            (.head ⟨begins, ⟨pasts, after⟩⟩ (.single ⟨ends, ⟨pasts.concat_right turn, after⟩⟩))
            (.idle (pasts.concat_right turn) rest after fits kept)
            (Nat.lt_of_lt_of_le (Nat.lt_succ_self _) (Nat.le_add_right _ _))

end Lawful

theorem due?_of_ends {s : Stage} (h : s.next? = none) : s.due? = none := by
  obtain ⟨past, underway, todo, c⟩ := s
  rw [next?] at h
  split at h
  · rename_i idle none_left
    cases idle
    cases none_left
    rfl
  · cases h
  · split at h <;> cases h

section Strict

variable (lawful : L.Lawful fit allowed) (strict : ¬ L.lenient) {w w' : World} (fits : fit w)
  (fits' : fit w') (worlds : w.Alike L w') {ops ops' : List Op} (same : Script.Alike L ops ops')
  {s : Stage}

include lawful strict fits fits' worlds same

/-- Wherever the first of two sessions comes to, the second comes to a stage that agrees; where the
first ends, so does the second. -/
theorem exists_agree (run : (startIn w ops).GoesBy allowed s) :
    ∃ s', Comes next? (startIn w' ops') s' ∧ s.Agree L s' ∧ (s.next? = none → s'.next? = none) :=
  Advances.exists_agree
    (fun _ _ alike fair => advances lawful alike (.inl fair) fun lenient => (strict lenient).elim)
    (fun _ _ alike => alike.agree)
    (fun _ ends op due => by cases (due?_of_ends ends).symm.trans due)
    (.idle .nil same worlds fits fits') run

/-- Wherever the second of two sessions comes to, the first comes to a stage that agrees; where the
second ends, so does the first. -/
theorem exists_agree_swap (run : (startIn w' ops').GoesBy allowed s) :
    ∃ s', Comes next? (startIn w ops) s' ∧ s'.Agree L s ∧ (s.next? = none → s'.next? = none) :=
  Advances.exists_agree (R := fun a b => Alike L fit b a) (Q := fun a b => Agree L b a)
    (fun _ _ alike fair =>
      (advances lawful alike (.inr fair) fun lenient => (strict lenient).elim).swap)
    (fun _ _ alike => alike.agree)
    (fun _ ends op due => by cases (due?_of_ends ends).symm.trans due)
    (.idle .nil same worlds fits fits') run

end Strict

end Stage

end HighlightSync
