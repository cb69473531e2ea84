import HighlightSync.Proofs.SideBySide
import HighlightSync.Proofs.History

/-!
# Runs that keep in step

What one of two sessions does for itself is soon over, and nobody notices: a view is registered,
or a view is told that does nothing (`Config.steps_sheds`). All else both do alike. So
configurations that are alike go on alike, if the likeness is lawful and the operations are of the
kind that it allows (`Config.advances`).
-/

namespace HighlightSync

namespace Config

/-- The operation that is performed in the next step, if one is. -/
def due? (c : Config) : Option Op :=
  match c.stack, c.reply with
  | f :: _, none => f.due?
  | _, _ => none

/-- What the innermost frame has still to do that one session may have for itself. -/
def load (c : Config) : Nat :=
  match c.stack with
  | .script ops _ :: _ => ops.length
  | .reading _ _ _ pulls _ :: _ => pulls.length
  | .fanOut _ pending _ :: _ => pending.length
  | _ => 0

section Steps

variable {L : Likeness} {fit : World → Prop} {allowed : Op → Prop} (lawful : L.Lawful fit allowed)

include lawful

theorem fit_step {c d : Config} (fits : fit c.world) (h : c.step = some d)
    (isAllowed : ∀ op, c.due? = some op → allowed op) : fit d.world := by
  obtain same | ⟨t, m, n, replaced⟩ | ⟨f, stack, op, performs, due, rfl⟩ := step_layout h
  · exact lawful.fit_layout same fits
  · rw [replaced]
    exact lawful.fit_layout (World.layout_note _ _) (lawful.fit_setMapper t m fits)
  · refine lawful.fit_perform _ _ fits (isAllowed op ?_)
    rw [performs]
    exact due

end Steps

end Config

namespace World.Unnoticed

variable {L : Likeness} {w : World}

theorem addListener {fit : World → Prop} {allowed : Op → Prop} (lawful : L.Lawful fit allowed)
    (fits : fit w) {h name : String} (aside : L.aside name = true) :
    w.Unnoticed L (w.execute (.addListener h name)).2 ∧
      (w.execute (.addListener h name)).1.fault? = none := by
  simp only [World.execute, World.onHandler]
  split
  · exact ⟨refl w, rfl⟩
  · split
    · exact ⟨refl w, rfl⟩
    · rw [World.onView]
      split
      · exact ⟨refl w, rfl⟩
      · exact ⟨lawful.attach_aside fits aside, rfl⟩

end World.Unnoticed

namespace Frame

/-- A frame is left with less to do, by what one session may have for itself. -/
inductive Sheds (L : Likeness) : Frame → Frame → Prop where
  | script {op : Op} (aside : op.IsAside L) (ops : List Op) (first : Option Fault) :
      Sheds L (.script (op :: ops) first) (.script ops first)
  | reading (h : HandlerId) (purpose : Purpose) (filter : Option Presence) {op : Op}
      (aside : op.IsAside L) (pulls : List (Pull Op)) (taken : List Key) :
      Sheds L (.reading h purpose filter (.act op :: pulls) taken)
        (.reading h purpose filter pulls taken)
  | fanOut (e : Event) {l : Listener} (aside : L.shares l = false) (pending : List Listener)
      (first : Option Fault) : Sheds L (.fanOut e (l :: pending) first) (.fanOut e pending first)

theorem Sheds.load {L : Likeness} {f g : Frame} (sheds : f.Sheds L g) (w v : World)
    (stack : List Frame) :
    (Config.running v (g :: stack)).load < (Config.running w (f :: stack)).load := by
  cases sheds <;> exact Nat.lt_succ_self _

end Frame

namespace Config

/-- A step that takes a world to one in which nothing is noticed. -/
def StepsAside (L : Likeness) (w : World) (c d : Config) : Prop :=
  c.step = some d ∧ w.Unnoticed L d.world

section Asides

variable {L : Likeness} {fit : World → Prop} {allowed : Op → Prop} (lawful : L.Lawful fit allowed)
  {w : World}

include lawful

/-- A view is told that is passive: it leaves a record, and counts. -/
theorem steps_aside_view (fits : fit w) {name : String} (aside : L.aside name = true)
    (passive : ∀ v, w.view? name = some v → v.behavior.Passive) (e : Event)
    (pending : List Listener) (first : Option Fault) (stack : List Frame) :
    ∃ v, Relation.TransGen (StepsAside L w)
        (running w (.fanOut e (.view name :: pending) first :: stack))
        (running v (.fanOut e pending first :: stack)) ∧ w.Unnoticed L v ∧ fit v := by
  let f : Frame := .fanOut e (.view name :: pending) first
  have goesOn : ∀ {v}, w.Unnoticed L v → StepsAside L w (answered v (f :: stack) .done)
      (running v (.fanOut e pending first :: stack)) := fun {v} unnoticed =>
    ⟨congrArg (fun first => some (running v (.fanOut e pending first :: stack))) Option.or_none,
      unnoticed⟩
  cases found : w.view? name with
  | none =>
      have told : tell (.view name) e w (f :: stack) = answered w (f :: stack) .done := by
        simp only [tell, tellView, found]
      exact ⟨w, .head ⟨congrArg some told, .refl w⟩ (.single (goesOn (.refl w))), .refl w, fits⟩
  | some state =>
      obtain ⟨nothing, well⟩ : (state.behavior.script state.ran e).getD [] = [] ∧ _ :=
        ⟨(passive state found state.ran e).1, (passive state found state.told e).2⟩
      let r : Record := .callback (.view name) e w.depth (!state.behavior.deaf)
      have noted : w.Unnoticed L (w.record r) :=
        .record w (by simpa [Record.IsAside, r] using aside)
      have counted : ∀ f : ViewState → ViewState, (∀ v, (f v).behavior = v.behavior) →
          w.Unnoticed L ((w.record r).modifyView name f) ∧
            fit ((w.record r).modifyView name f) := fun f same =>
        ⟨noted.trans (.modifyView _ same aside),
          lawful.fit_layout (World.layout_modifyView (w.record r) name same)
            (lawful.fit_layout (World.layout_record w r) fits)⟩
      cases script : state.behavior.script state.ran e with
      | none =>
          let v := (w.record r).modifyView name fun v => { v with told := v.told + 1 }
          have told : tell (.view name) e w (f :: stack) = answered v (f :: stack) .done := by
            simp only [tell, tellView, found, script, well]
            rfl
          obtain ⟨unnoticed, kept⟩ := counted (fun v => { v with told := v.told + 1 }) fun _ => rfl
          exact ⟨v, .head ⟨congrArg some told, unnoticed⟩ (.single (goesOn unnoticed)), unnoticed,
            kept⟩
      | some ops =>
          rw [script] at nothing
          obtain rfl : ops = [] := nothing
          let count (v : ViewState) : ViewState := { v with told := v.told + 1, ran := v.ran + 1 }
          let v := (w.record r).modifyView name count
          let back : Frame := .callback state.behavior.propagate none
          have told : tell (.view name) e w (f :: stack) =
              running v (.script [] none :: back :: f :: stack) := by
            simp only [tell, tellView, found, script, well]
            rfl
          have ended : resume back .done v (f :: stack) = answered v (f :: stack) .done := by
            rw [resume]
            cases state.behavior.propagate <;> rfl
          obtain ⟨unnoticed, kept⟩ := counted count fun _ => rfl
          have rest : Relation.TransGen (StepsAside L w)
              (running v (.script [] none :: back :: f :: stack))
              (running v (.fanOut e pending first :: stack)) :=
            .head ⟨rfl, unnoticed⟩ (.head ⟨congrArg some ended, unnoticed⟩
              (.single (goesOn unnoticed)))
          exact ⟨v, .head ⟨congrArg some told, unnoticed⟩ rest, unnoticed, kept⟩

theorem unnoticed_of_isAside (fits : fit w) {op : Op} (aside : op.IsAside L) (stack : List Frame) :
    ∃ v r, perform op w stack = answered v stack r ∧ r.fault? = none ∧ w.Unnoticed L v ∧ fit v := by
  cases op with
  | act a =>
      cases a with
      | addListener h name =>
          obtain ⟨unnoticed, well⟩ := World.Unnoticed.addListener lawful fits (h := h) aside
          exact ⟨_, _, rfl, well, unnoticed,
            lawful.fit_perform (.act (.addListener h name)) stack fits
              (lawful.allowed_aside aside)⟩
      | _ => exact aside.elim
  | _ => exact aside.elim

/-- What one session may have for itself is soon over, and is not noticed. -/
theorem steps_sheds (stack : List Frame) (fits : fit w)
    (passive : ∀ name v, L.aside name = true → w.view? name = some v → v.behavior.Passive)
    {f g : Frame} (sheds : f.Sheds L g) :
    ∃ v, Relation.TransGen (StepsAside L w) (running w (f :: stack)) (running v (g :: stack)) ∧
      w.Unnoticed L v ∧ fit v := by
  have noted : ∀ {v : World} {op : Op} (r : Reply), op.IsAside L → w.Unnoticed L v → fit v →
      w.Unnoticed L (v.record (.performed op r)) ∧ fit (v.record (.performed op r)) :=
    fun _ aside unnoticed kept =>
      ⟨unnoticed.trans (.record _ aside), lawful.fit_layout (World.layout_record _ _) kept⟩
  cases sheds with
  | script aside ops first =>
      obtain ⟨v, r, performs, well, unnoticed, kept⟩ := unnoticed_of_isAside lawful fits aside
        (.script (_ :: ops) first :: stack)
      obtain ⟨unnoticed', kept'⟩ := noted r aside unnoticed kept
      refine ⟨v.record (.performed _ r), .head ⟨congrArg some performs, unnoticed⟩
        (.single ⟨?_, unnoticed'⟩), unnoticed', kept'⟩
      rw [step_answered, resume, well, Option.or_none]
  | reading h purpose filter aside pulls taken =>
      obtain ⟨v, r, performs, -, unnoticed, kept⟩ := unnoticed_of_isAside lawful fits aside
        (.reading h purpose filter (.act _ :: pulls) taken :: stack)
      obtain ⟨unnoticed', kept'⟩ := noted r aside unnoticed kept
      exact ⟨_, .head ⟨congrArg some performs, unnoticed⟩ (.single ⟨rfl, unnoticed'⟩), unnoticed',
        kept'⟩
  | @fanOut e l aside pending first =>
      cases l with
      | view name =>
          have named : L.aside name = true := by simpa using aside
          exact steps_aside_view lawful fits named
            (fun v found => passive name v named found) e pending first stack
      | sourceLink t => cases aside
      | resetLink t => cases aside

end Asides

/-- Configurations are alike, and their worlds are of the kind. -/
structure InStep (L : Likeness) (fit : World → Prop) (outer : Option Op) (c c' : Config) :
    Prop where
  alike : c.Alike L outer c'
  fits : fit c.world
  fits' : fit c'.world

/-- The worlds of two configurations are alike. -/
def WorldsAlike (L : Likeness) (c c' : Config) : Prop := c.world.Alike L c'.world

section Advances

variable {L : Likeness} {fit : World → Prop} {allowed : Op → Prop} (lawful : L.Lawful fit allowed)
  {w w' : World} {f f' : Frame} {stack stack' : List Frame} {outer : Option Op}

include lawful

theorem advances_both
    (before : InStep L fit outer (running w (f :: stack)) (running w' (f' :: stack')))
    (patient : L.lenient → ¬ (advance f w stack).HasRefused)
    (agree : Agree L outer (advance f w stack) (advance f' w' stack'))
    (isAllowed : ∀ op, f.due? = some op → allowed op)
    (isAllowed' : ∀ op, f'.due? = some op → allowed op) :
    Advances step (InStep L fit outer) (WorldsAlike L) load (running w (f :: stack))
      (running w' (f' :: stack')) := by
  refine .both rfl rfl ⟨?_, fit_step lawful before.fits rfl isAllowed,
    fit_step lawful before.fits' rfl isAllowed'⟩
  obtain alike | ⟨lenient, refused⟩ := agree
  · exact alike
  · exact (patient lenient refused).elim

theorem advances_left (worlds : w.Alike L w') (fits : fit w) (fits' : fit w')
    (waiting : List.Forall₂ (Frame.Awaits L) stack stack') {g : Frame} (sheds : f.Sheds L g)
    (frames : g.Alike L f') :
    Advances step (InStep L fit outer) (WorldsAlike L) load (running w (f :: stack))
      (running w' (f' :: stack')) := by
  obtain ⟨v, goes, unnoticed, kept⟩ := steps_sheds lawful stack fits
    (fun _ _ aside => (worlds.passive aside).1) sheds
  have agree : Relation.TransGen (fun c d => step c = some d ∧
      WorldsAlike L d (running w' (f' :: stack'))) (running w (f :: stack))
      (running v (g :: stack)) :=
    Relation.TransGen.mono (fun _ _ aside => ⟨aside.1, aside.2.left worlds⟩) _ _ goes
  exact .left agree ⟨.running (unnoticed.left worlds) frames waiting, kept, fits'⟩
    (sheds.load w v stack)

theorem advances_right (worlds : w.Alike L w') (fits : fit w) (fits' : fit w')
    (waiting : List.Forall₂ (Frame.Awaits L) stack stack') {g : Frame} (sheds : f'.Sheds L g)
    (frames : f.Alike L g) :
    Advances step (InStep L fit outer) (WorldsAlike L) load (running w (f :: stack))
      (running w' (f' :: stack')) := by
  obtain ⟨v, goes, unnoticed, kept⟩ := steps_sheds lawful stack' fits'
    (fun _ _ aside => (worlds.passive aside).2) sheds
  have agree : Relation.TransGen (fun c d => step c = some d ∧
      WorldsAlike L (running w (f :: stack)) d) (running w' (f' :: stack'))
      (running v (g :: stack')) :=
    Relation.TransGen.mono (fun _ _ aside => ⟨aside.1, aside.2.right worlds⟩) _ _ goes
  exact .right agree ⟨.running (unnoticed.right worlds) frames waiting, fits, kept⟩
    (sheds.load w' v stack')

/-- The same is done in both sessions in which the innermost frames stand. -/
theorem agree_plain (worlds : w.Alike L w')
    (waiting : List.Forall₂ (Frame.Awaits L) stack stack') (plain : f.isPlain = true) :
    Agree L outer (advance f w stack) (advance f w' stack') := by
  have waits := List.Forall₂.cons (.same f plain) waiting
  cases f with
  | script | reading | fanOut | mapping => cases plain
  | clearing h => exact .inl (alike_clear lawful worlds waiting h)
  | call | callback | forward | swap => exact .inl (.answered worlds waits (.same _ _))
  | forwarding d keys targets pending first =>
      cases pending with
      | nil => exact .inl (.answered worlds waiting (.same _ _))
      | cons h pending =>
          exact agree_openMove lawful worlds waits d h none (.refl_of _ fun p mem => by
            obtain ⟨k, -, rfl⟩ := List.mem_map.mp mem
            exact .key k)
  | resetTargets t pending first =>
      cases pending with
      | nil => exact .inl (.answered worlds waiting (.same _ _))
      | cons h pending => exact agree_openReset lawful worlds waits h

theorem allowed_of {op op' : Op} (ops : op.Alike L op')
    (fair : allowed op ∨ allowed op') : allowed op ∧ allowed op' := by
  have same := lawful.allowed_iff ops
  tauto

section Running

variable (worlds : w.Alike L w') (waiting : List.Forall₂ (Frame.Awaits L) stack stack')
  (fits : fit w) (fits' : fit w') (patient : L.lenient → ¬ (advance f w stack).HasRefused)

include worlds waiting fits fits' patient

theorem advances_idle (frames : f.Alike L f') (idle : f.due? = none) (idle' : f'.due? = none)
    (agree : Agree L outer (advance f w stack) (advance f' w' stack')) :
    Advances step (InStep L fit outer) (WorldsAlike L) load (running w (f :: stack))
      (running w' (f' :: stack')) :=
  advances_both lawful ⟨.running worlds frames waiting, fits, fits'⟩ patient agree
    (fun op due => by cases idle.symm.trans due) fun op due => by cases idle'.symm.trans due

theorem advances_due (frames : f.Alike L f') (awaits : f.Awaits L f') {op op' : Op}
    (ops : op.Alike L op') (due : f.due? = some op) (due' : f'.due? = some op')
    (fair : (∀ op, f.due? = some op → allowed op) ∨ ∀ op, f'.due? = some op → allowed op) :
    Advances step (InStep L fit outer) (WorldsAlike L) load (running w (f :: stack))
      (running w' (f' :: stack')) := by
  obtain ⟨isAllowed, isAllowed'⟩ :=
    allowed_of lawful ops (fair.imp (fun all => all op due) fun all => all op' due')
  have agree : Agree L outer (advance f w stack) (advance f' w' stack') := by
    rw [advance_of_due w stack due, advance_of_due w' stack' due']
    exact agree_perform lawful fits fits' worlds (.cons awaits waiting) ops isAllowed due
  refine advances_both lawful ⟨.running worlds frames waiting, fits, fits'⟩ patient agree ?_ ?_
  · intro op found
    obtain rfl := Option.some.inj (due.symm.trans found)
    exact isAllowed
  · intro op found
    obtain rfl := Option.some.inj (due'.symm.trans found)
    exact isAllowed'

end Running

section Frames

variable (worlds : w.Alike L w') (waiting : List.Forall₂ (Frame.Awaits L) stack stack')
  (fits : fit w) (fits' : fit w')

include worlds waiting fits fits'

theorem advances_script {ops ops' : List Op} (alike : Script.Alike L ops ops')
    (first : Option Fault)
    (fair : (∀ op, (Frame.script ops first).due? = some op → allowed op) ∨
      ∀ op, (Frame.script ops' first).due? = some op → allowed op)
    (patient : L.lenient → ¬ (advance (.script ops first) w stack).HasRefused) :
    Advances step (InStep L fit outer) (WorldsAlike L) load
      (running w (.script ops first :: stack)) (running w' (.script ops' first :: stack')) := by
  have frames : (Frame.script ops first).Alike L (.script ops' first) := .script alike first
  cases alike with
  | nil =>
      exact advances_idle lawful worlds waiting fits fits' patient frames rfl rfl
        (.inl (.answered worlds waiting (.same _ _)))
  | both ops rest =>
      exact advances_due lawful worlds waiting fits fits' patient frames (.script ops rest first)
        ops rfl rfl fair
  | left aside rest =>
      exact advances_left lawful worlds fits fits' waiting (.script aside _ first)
        (.script rest first)
  | right aside rest =>
      exact advances_right lawful worlds fits fits' waiting (.script aside _ first)
        (.script rest first)

theorem advances_reading (h : HandlerId) (purpose : Purpose) (filter : Option Presence)
    {pulls pulls' : List (Pull Op)} (alike : Pulls.Alike L pulls pulls') (taken : List Key)
    (fair : (∀ op, (Frame.reading h purpose filter pulls taken).due? = some op → allowed op) ∨
      ∀ op, (Frame.reading h purpose filter pulls' taken).due? = some op → allowed op)
    (patient : L.lenient →
      ¬ (advance (.reading h purpose filter pulls taken) w stack).HasRefused) :
    Advances step (InStep L fit outer) (WorldsAlike L) load
      (running w (.reading h purpose filter pulls taken :: stack))
      (running w' (.reading h purpose filter pulls' taken :: stack')) := by
  have frames : (Frame.reading h purpose filter pulls taken).Alike L
      (.reading h purpose filter pulls' taken) := .reading h purpose filter alike taken
  cases alike with
  | nil =>
      exact advances_idle lawful worlds waiting fits fits' patient frames rfl rfl
        (.inl (alike_finishReading lawful worlds waiting h purpose taken))
  | both same rest =>
      cases same with
      | act ops =>
          exact advances_due lawful worlds waiting fits fits' patient frames
            (.reading h purpose filter ops rest taken) ops rfl rfl fair
      | key k =>
          refine advances_idle lawful worlds waiting fits fits' patient frames rfl rfl (.inl ?_)
          rw [advance, advance, worlds.keysOf, worlds.depth]
          exact .running (worlds.record (.same _ rfl)) (.reading h purpose filter rest _) waiting
  | @left pull _ _ aside rest =>
      cases pull with
      | act op =>
          exact advances_left lawful worlds fits fits' waiting
            (.reading h purpose filter aside _ taken) (.reading h purpose filter rest taken)
      | key k => exact aside.elim
  | @right pull _ _ aside rest =>
      cases pull with
      | act op =>
          exact advances_right lawful worlds fits fits' waiting
            (.reading h purpose filter aside _ taken) (.reading h purpose filter rest taken)
      | key k => exact aside.elim

theorem advances_fanOut (e : Event) {pending pending' : List Listener}
    (alike : Woven Eq (fun l => L.shares l = false) pending pending') (first : Option Fault)
    (patient : L.lenient → ¬ (advance (.fanOut e pending first) w stack).HasRefused) :
    Advances step (InStep L fit outer) (WorldsAlike L) load
      (running w (.fanOut e pending first :: stack))
      (running w' (.fanOut e pending' first :: stack')) := by
  have frames : (Frame.fanOut e pending first).Alike L (.fanOut e pending' first) :=
    .fanOut e alike first
  cases alike with
  | nil =>
      exact advances_idle lawful worlds waiting fits fits' patient frames rfl rfl
        (.inl (.answered worlds waiting (.same _ _)))
  | @both l l' _ _ same rest =>
      subst same
      cases shared : L.shares l with
      | true =>
          exact advances_idle lawful worlds waiting fits fits' patient frames rfl rfl
            (agree_tell lawful worlds (.cons (.fanOut e l rest first) waiting) shared e)
      | false =>
          -- Both tell a view that one of them may have for itself: one after the other.
          exact advances_left lawful worlds fits fits' waiting (.fanOut e shared _ first)
            (.fanOut e (.right shared rest) first)
  | left aside rest =>
      exact advances_left lawful worlds fits fits' waiting (.fanOut e aside _ first)
        (.fanOut e rest first)
  | right aside rest =>
      exact advances_right lawful worlds fits fits' waiting (.fanOut e aside _ first)
        (.fanOut e rest first)

theorem advances_mapping (t : TranslatorId) (d : Direction) (m : MapperId)
    (targets : List HandlerId) (keys : KeySet) (pending : List Key) {mapped mapped' : List KeySet}
    (same : KeySet.unionAll mapped' = KeySet.unionAll mapped) (held held' : Option Answer)
    (patient : L.lenient →
      ¬ (advance (.mapping t d m targets keys pending mapped held) w stack).HasRefused) :
    Advances step (InStep L fit outer) (WorldsAlike L) load
      (running w (.mapping t d m targets keys pending mapped held :: stack))
      (running w' (.mapping t d m targets keys pending mapped' held' :: stack')) := by
  refine advances_idle lawful worlds waiting fits fits' patient
    (.mapping t d m targets keys pending same held held') rfl rfl (.inl ?_)
  cases pending with
  | nil => exact alike_finishMapping worlds waiting d targets keys same
  | cons k pending =>
      obtain ⟨answers, scripts, asked⟩ := alike_ask lawful worlds m k
      exact .running asked (.script scripts none)
        (.cons (.mapping t d m targets keys k pending same answers) waiting)

/-- How frames go on that are alike. -/
theorem advances_running (frames : f.Alike L f')
    (fair : (∀ op, f.due? = some op → allowed op) ∨ ∀ op, f'.due? = some op → allowed op)
    (patient : L.lenient → ¬ (advance f w stack).HasRefused) :
    Advances step (InStep L fit outer) (WorldsAlike L) load (running w (f :: stack))
      (running w' (f' :: stack')) := by
  cases frames with
  | script alike first =>
      exact advances_script lawful worlds waiting fits fits' alike first fair patient
  | reading h purpose filter alike taken =>
      exact advances_reading lawful worlds waiting fits fits' h purpose filter alike taken fair
        patient
  | fanOut e alike first =>
      exact advances_fanOut lawful worlds waiting fits fits' e alike first patient
  | mapping t d m targets keys pending same held held' =>
      exact advances_mapping lawful worlds waiting fits fits' t d m targets keys pending same held
        held' patient
  | same f plain =>
      have free : f.due? = none := by cases f <;> first | rfl | cases plain
      exact advances_idle lawful worlds waiting fits fits' patient (.same f plain) free free
        (agree_plain lawful worlds waiting plain)

end Frames

/-- How configurations go on that are alike. -/
theorem advances {c c' : Config} (before : InStep L fit outer c c')
    (fair : (∀ op, c.due? = some op → allowed op) ∨ ∀ op, c'.due? = some op → allowed op)
    (patient : L.lenient → ∀ d, c.step = some d → ¬ d.HasRefused) :
    Advances step (InStep L fit outer) (WorldsAlike L) load c c' := by
  obtain ⟨alike, fits, fits'⟩ := before
  cases alike with
  | answered worlds waiting replies =>
      cases waiting with
      | nil => exact .ends rfl rfl
      | cons awaits waiting =>
          exact .both rfl rfl
            ⟨alike_resume lawful worlds waiting awaits replies,
              fit_step lawful fits rfl (fun _ due => by cases due),
              fit_step lawful fits' rfl (fun _ due => by cases due)⟩
  | running worlds frames waiting =>
      exact advances_running lawful worlds waiting fits fits' frames fair
        fun lenient => patient lenient _ rfl

end Advances

end Config

end HighlightSync
