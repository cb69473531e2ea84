import HighlightSync.Machine.Run
import HighlightSync.Proofs.Change
import HighlightSync.Proofs.Layout

/-!
# Delivery of events

Whom a configuration has yet to tell of what can be read off its stack: the frame that goes
on tells all its pending listeners, and a frame that waits all but the head, to which it is
attending. What a step does to these obligations, to the keys and to the history is one of
four things (`Delivers`, `step_delivers`): nothing; one obligation is met; one is passed
over, for a view that does not exist; or a handler announces a proper change to all of its
listeners, ahead of every older obligation.

This holds at any nesting, whatever listeners, mappers and lazy input do.
-/

namespace HighlightSync

namespace Frame

/-- The frame as it goes on once the thing at the head of its list is done. -/
def waiting : Frame → Frame
  | .fanOut e pending first => .fanOut e pending.tail first
  | .forwarding d keys targets pending first => .forwarding d keys targets pending.tail first
  | .resetTargets t pending first => .resetTargets t pending.tail first
  | f => f

/-- Whom the frame has yet to tell of what. -/
def tells : Frame → List (Listener × Event)
  | .fanOut e pending _ => pending.map fun l => (l, e)
  | _ => []

end Frame

namespace World

/-- The world after a change of a handler's keys. -/
def change (w : World) (h : HandlerId) (c : Change) : World :=
  w.modifyHandler h fun s => { s with keys := c.apply s.keys }

theorem keysOf_change {w : World} {h : HandlerId} (present : (w.handler? h).isSome = true)
    (c : Change) (g : HandlerId) :
    (w.change h c).keysOf g = if g = h then c.apply (w.keysOf h) else w.keysOf g := by
  simp only [keysOf, change, handler?_modifyHandler]
  by_cases e : g = h
  · subst e
    obtain ⟨s, hs⟩ := Option.isSome_iff_exists.mp present
    simp [hs]
  · simp [e]

theorem keysOf_change_of_ne {w : World} {h g : HandlerId} (c : Change) (other : g ≠ h) :
    (w.change h c).keysOf g = w.keysOf g := by
  simp [keysOf, change, handler?_modifyHandler, other]

theorem layout_change (w : World) (h : HandlerId) (c : Change) :
    (w.change h c).layout = w.layout :=
  w.layout_modifyHandler h c.apply

end World

namespace Config

/-- Whom waiting frames have yet to tell of what, the innermost first. -/
def owed (stack : List Frame) : List (Listener × Event) :=
  stack.flatMap fun f => f.waiting.tells

/-- Whom a configuration has yet to tell of what, in the order in which it will be done. -/
def tells (c : Config) : List (Listener × Event) :=
  match c.reply, c.stack with
  | none, f :: stack => f.tells ++ owed stack
  | _, stack => owed stack

@[simp] theorem owed_nil : owed [] = [] := rfl

@[simp] theorem owed_cons (f : Frame) (stack : List Frame) :
    owed (f :: stack) = f.waiting.tells ++ owed stack := rfl

@[simp] theorem tells_running (w : World) (f : Frame) (stack : List Frame) :
    (running w (f :: stack)).tells = f.tells ++ owed stack := rfl

@[simp] theorem tells_answered (w : World) (stack : List Frame) (r : Reply) :
    (answered w stack r).tells = owed stack := by
  cases stack <;> rfl

theorem exists_frame_of_mem_tells {c : Config} {t : Listener × Event} (h : t ∈ c.tells) :
    ∃ f ∈ c.stack, t ∈ f.tells ∨ t ∈ f.waiting.tells := by
  have waits : ∀ stack, t ∈ owed stack → ∃ f ∈ stack, t ∈ f.tells ∨ t ∈ f.waiting.tells := by
    intro stack ht
    obtain ⟨f, hf, ht⟩ := List.mem_flatMap.mp ht
    exact ⟨f, hf, .inr ht⟩
  obtain ⟨w, stack, reply⟩ := c
  cases reply with
  | some r => exact waits stack (by cases stack <;> exact h)
  | none =>
      cases stack with
      | nil => cases h
      | cons f stack =>
          obtain ht | ht := List.mem_append.mp h
          · exact ⟨f, List.mem_cons_self, .inl ht⟩
          · obtain ⟨g, hg, ht⟩ := waits stack ht
            exact ⟨g, List.mem_cons_of_mem f hg, ht⟩

/-- What one step may do to the obligations, the keys and the history. -/
inductive Delivers (c d : Config) : Prop where
  | silent (tells : d.tells = c.tells) (observed : d.world.observed = c.world.observed)
  | told (l : Listener) (e : Event) (tells : c.tells = (l, e) :: d.tells)
      (observed : d.world.observed =
        { c.world.observed with heard := c.world.heard ++ [(l, e)] })
  | skipped (name : String) (e : Event) (unknown : c.world.view? name = none)
      (tells : c.tells = (.view name, e) :: d.tells)
      (observed : d.world.observed = c.world.observed)
  | announced (h : HandlerId) (change : Change) (proper : change.Proper (c.world.keysOf h))
      (opened : d.reply = none ∧
        ∃ stack, d.stack = .fanOut ⟨h, change⟩ (c.world.listeners h) none :: stack)
      (tells : d.tells = (c.world.listeners h).map (·, ⟨h, change⟩) ++ c.tells)
      (observed : d.world.observed =
        ⟨(c.world.change h change).keysOf, c.world.heard,
          c.world.announced ++ [⟨h, change⟩]⟩)

/-- Nobody is told of anything and no key moves, from a world with waiting frames. -/
structure Still (w : World) (stack : List Frame) (c : Config) : Prop where
  tells : c.tells = owed stack
  observed : c.world.observed = w.observed

namespace Still

variable {w v : World} {stack stack' : List Frame}

theorem answered (r : Reply) (h : v.observed = w.observed) :
    Still w stack (answered v stack r) := ⟨tells_answered v stack r, h⟩

theorem running {f : Frame} (silent : f.tells = []) (h : v.observed = w.observed) :
    Still w stack (running v (f :: stack)) := ⟨by simp [silent], h⟩

theorem congr {c : Config} (h : Still v stack' c) (same : owed stack' = owed stack)
    (obs : v.observed = w.observed) : Still w stack c :=
  ⟨h.tells.trans same, h.observed.trans obs⟩

theorem under {c : Config} {f : Frame} (h : Still w (f :: stack) c)
    (silent : f.waiting.tells = []) : Still w stack c :=
  h.congr (by simp [silent]) rfl

end Still

section Starts

variable (w : World) (stack : List Frame)

theorem still_openCall (kind : ChangeKind) (h : HandlerId) {body : Frame}
    (silent : body.tells = []) : Still w stack (openCall kind h body w stack) := by
  have entered : (w.record (.enter (.call kind h))).observed = w.observed :=
    w.observed_record rfl rfl
  simp only [openCall]
  split
  · exact .answered _ (((World.observed_record _ rfl rfl).trans
      (World.observed_note _ rfl)).trans entered)
  · exact .under (.running silent entered) rfl

theorem still_openMove (d : Direction) (h : HandlerId) (feed : Feed Op) :
    Still w stack (openMove d h feed w stack) :=
  still_openCall w stack d.kind h rfl

theorem still_openReset (h : HandlerId) : Still w stack (openReset h w stack) :=
  still_openCall w stack .reset h rfl

theorem still_tellForward (t : TranslatorId) (s : TranslatorState) (d : Direction)
    (keys : KeySet) : Still w stack (tellForward t s d keys w stack) := by
  have entered : (w.record (.enter .forward)).observed = w.observed := w.observed_record rfl rfl
  simp only [tellForward]
  split
  · exact .under (.answered .done entered) rfl
  · exact .under (.answered .done entered) rfl
  · exact .under (.running rfl entered) rfl

theorem Begins.still {op : Op} {d : Config} (h : Begins w stack op d) : Still w stack d := by
  cases h with
  | refused => exact .answered _ rfl
  | act effect => exact .answered _ effect.observed
  | move => exact still_openMove w stack _ _ _
  | reset => exact still_openReset w stack _
  | isHighlighted => exact .running rfl rfl
  | clearMapper => exact (still_openReset w _ _).under rfl
  | @setMapper name spec =>
      exact ((still_openReset (w.addMapperOf spec).2 _ _).under rfl).congr rfl rfl
  | dropTranslator => exact .answered _ (w.observed_dropTranslator _ _)

/-- To tell a listener is to write the callback down and to begin work that tells nobody at
once, unless the listener is a view that does not exist. -/
theorem tell_cases (l : Listener) (e : Event) :
    (∃ depth heeded, Still (w.record (.callback l e depth heeded)) stack (tell l e w stack)) ∨
      ∃ name, l = .view name ∧ w.view? name = none ∧ Still w stack (tell l e w stack) := by
  cases l with
  | view name =>
      simp only [tell, tellView]
      split
      · rename_i unknown
        exact .inr ⟨name, rfl, unknown, .answered _ rfl⟩
      · rename_i v _
        refine .inl ⟨w.depth, !v.behavior.deaf, ?_⟩
        split
        · exact .answered _ rfl
        · exact .under (.running rfl rfl) rfl
  | sourceLink t =>
      refine .inl ⟨w.depth, true, ?_⟩
      simp only [tell]
      split
      · exact .answered _ rfl
      · split
        · cases e.change with
          | move d keys => exact still_tellForward _ _ _ _ _ _
          | reset => exact .running rfl rfl
        · exact .answered _ rfl
  | resetLink t =>
      refine .inl ⟨w.depth, true, ?_⟩
      simp only [tell]
      split
      · split
        · exact still_openReset _ _ _
        · exact .answered _ rfl
      · exact .answered _ rfl

end Starts

theorem Delivers.of_still {c d : Config} {w : World} {stack : List Frame}
    (h : Still w stack d) (tells : c.tells = owed stack)
    (observed : c.world.observed = w.observed) : Delivers c d :=
  .silent (h.tells.trans tells.symm) (h.observed.trans observed.symm)

theorem observed_announce {h : HandlerId} {change : Change} {n : Note}
    (announces : n.announced? = some ⟨h, change⟩) (w : World) (stack : List Frame) :
    (announce h change n w stack).world.observed =
      ⟨(w.change h change).keysOf, w.heard, w.announced ++ [⟨h, change⟩]⟩ := by
  have noted := World.announced_record (w.change h change) (.note n)
  have same := World.heard_record (w.change h change) (.note n)
  rw [show (Record.note n).announced? = some ⟨h, change⟩ from announces] at noted
  rw [show (Record.note n).told? = none from rfl, Option.toList_none, List.append_nil] at same
  change Observed.mk (w.change h change).keysOf ((w.change h change).record (.note n)).heard
    ((w.change h change).record (.note n)).announced = _
  rw [noted, same]
  rfl

theorem delivers_announce {c : Config} {w : World} {stack : List Frame} {h : HandlerId}
    {change : Change} {n : Note} (world : c.world = w) (tells : c.tells = owed stack)
    (announces : n.announced? = some ⟨h, change⟩) (proper : change.Proper (w.keysOf h)) :
    Delivers c (announce h change n w stack) := by
  subst world
  refine .announced h change proper ⟨rfl, stack, rfl⟩ ?_ (observed_announce announces _ _)
  rw [announce, tells_running, Frame.tells, tells]
  rfl

theorem delivers_finishReading {c : Config} {w : World} {stack : List Frame} (h : HandlerId)
    (purpose : Purpose) (taken : List Key) (world : c.world = w) (tells : c.tells = owed stack) :
    Delivers c (finishReading h purpose taken w stack) := by
  cases purpose with
  | query => exact .of_still (.answered _ rfl) tells (world ▸ rfl)
  | move d =>
      simp only [finishReading]
      split
      · exact .of_still (.answered _ (World.observed_note _ rfl)) tells (world ▸ rfl)
      · rename_i moves
        exact delivers_announce world tells rfl
          ⟨moves, fun k hk => (Direction.mem_effect.mp hk).2⟩

theorem delivers_clear {c : Config} {w : World} {stack : List Frame} (h : HandlerId)
    (world : c.world = w) (tells : c.tells = owed stack) : Delivers c (clear h w stack) := by
  simp only [clear]
  split
  · exact .of_still (.answered _ (World.observed_note _ rfl)) tells (world ▸ rfl)
  · rename_i nonempty
    exact delivers_announce world tells rfl nonempty

theorem delivers_tell {c : Config} {w : World} {stack : List Frame} {l : Listener} {e : Event}
    (world : c.world = w) (tells : c.tells = (l, e) :: owed stack) :
    Delivers c (tell l e w stack) := by
  subst world
  obtain ⟨depth, heeded, h⟩ | ⟨name, rfl, unknown, h⟩ := tell_cases c.world stack l e
  · refine .told l e (h.tells ▸ tells) (h.observed.trans ?_)
    rw [World.observed, World.heard_record, World.announced_record]
    simp [Record.told?, Record.announced?, World.observed]
  · exact .skipped name e unknown (h.tells ▸ tells) h.observed

theorem observed_ask (m : MapperId) (k : Key) (w : World) :
    (ask m k w).2.2.observed = w.observed := by
  rw [ask]
  split
  · rfl
  · exact w.observed_record rfl rfl

theorem delivers_advance (f : Frame) (w : World) (stack : List Frame) :
    Delivers (running w (f :: stack)) (advance f w stack) := by
  cases f with
  | script pending first =>
      cases pending with
      | nil => exact .of_still (.answered _ rfl) rfl rfl
      | cons op ops => exact .of_still ((begins_perform op w _).still.under rfl) rfl rfl
  | reading h purpose filter pulls taken =>
      cases pulls with
      | nil => exact delivers_finishReading h purpose taken rfl rfl
      | cons pull pulls =>
          cases pull with
          | act op => exact .of_still ((begins_perform op w _).still.under rfl) rfl rfl
          | key k => exact .of_still (.running rfl (w.observed_record rfl rfl)) rfl rfl
  | clearing h => exact delivers_clear h rfl rfl
  | fanOut e pending first =>
      cases pending with
      | nil => exact .of_still (.answered _ rfl) rfl rfl
      | cons l pending => exact delivers_tell rfl rfl
  | mapping t d m targets keys pending mapped held =>
      cases pending with
      | nil =>
          simp only [advance, finishMapping]
          split
          · exact .of_still (.answered _ (World.observed_note _ rfl)) rfl rfl
          · exact .of_still (.running rfl (World.observed_note _ rfl)) rfl rfl
      | cons k pending =>
          exact .of_still ((Still.running rfl (observed_ask m k w)).under rfl) rfl rfl
  | forwarding d keys targets pending first =>
      cases pending with
      | nil => exact .of_still (.answered _ rfl) rfl rfl
      | cons h pending => exact .of_still ((still_openMove w _ d h _).under rfl) rfl rfl
  | resetTargets t pending first =>
      cases pending with
      | nil => exact .of_still (.answered _ rfl) rfl rfl
      | cons h pending => exact .of_still ((still_openReset w _ h).under rfl) rfl rfl
  | call kind h => exact .of_still (.answered _ rfl) rfl rfl
  | callback propagate fault => exact .of_still (.answered _ rfl) rfl rfl
  | forward t => exact .of_still (.answered _ rfl) rfl rfl
  | swap t m => exact .of_still (.answered _ rfl) rfl rfl

theorem delivers_resume (f : Frame) (r : Reply) (w : World) (stack : List Frame) :
    Delivers (answered w (f :: stack) r) (resume f r w stack) := by
  cases f with
  | script pending first =>
      cases pending with
      | nil => exact .of_still (.answered _ rfl) rfl rfl
      | cons op ops => exact .of_still (.running rfl (w.observed_record rfl rfl)) rfl rfl
  | reading h purpose filter pulls taken =>
      cases pulls with
      | nil => exact .of_still (.running rfl rfl) rfl rfl
      | cons pull pulls =>
          cases pull with
          | act op => exact .of_still (.running rfl (w.observed_record rfl rfl)) rfl rfl
          | key k => exact .of_still (.running rfl rfl) rfl rfl
  | fanOut e pending first =>
      refine .silent rfl ?_
      simp only [resume, running]
      split
      · exact World.observed_note w rfl
      · rfl
  | mapping t d m targets keys pending mapped held =>
      cases pending with
      | nil => exact .of_still (.running rfl rfl) rfl rfl
      | cons k pending =>
          cases held with
          | none => exact .of_still (.running rfl rfl) rfl rfl
          | some answer =>
              simp only [resume, resumeMapping]
              split
              · exact .of_still (.answered _ (World.observed_note _ rfl)) rfl rfl
              · exact .of_still (.running rfl rfl) rfl rfl
              · exact .of_still (.running rfl rfl) rfl rfl
  | clearing h => exact .of_still (.running rfl rfl) rfl rfl
  | call kind h => exact .of_still (.answered _ (World.observed_record _ rfl rfl)) rfl rfl
  | callback propagate fault => exact .of_still (.answered _ rfl) rfl rfl
  | forward t => exact .of_still (.answered _ (World.observed_record _ rfl rfl)) rfl rfl
  | forwarding d keys targets pending first => exact .of_still (.running rfl rfl) rfl rfl
  | resetTargets t pending first => exact .of_still (.running rfl rfl) rfl rfl
  | swap t m => exact .of_still (.answered _ (World.observed_note _ rfl)) rfl rfl

/-- What a step does to obligations, keys and history is one of four things. -/
theorem step_delivers {c d : Config} (h : c.step = some d) : Delivers c d := by
  obtain ⟨w, stack, reply⟩ := c
  cases stack with
  | nil => cases h
  | cons f stack =>
      cases reply with
      | none =>
          cases h
          exact delivers_advance f w stack
      | some r =>
          cases h
          exact delivers_resume f r w stack

end Config

end HighlightSync
