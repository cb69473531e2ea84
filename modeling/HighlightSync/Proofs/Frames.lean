import HighlightSync.Proofs.History
import HighlightSync.Proofs.Links

/-!
# What a step does to the stack

A step concerns the innermost frame alone. The frame ends with a reply; or it goes on, with
frames above it that have just begun (`Opens`); or it is the body of a call that has read all
its keys and gives way to the announcement of its change (`Evolves`, `step_evolves`). All frames
below stay as they are. What is true of frames when they begin, and kept while they go on, is true
of all frames of a session that begins with nothing under way (`Since.all_frames`).

What a frame may become while it goes on is known from the beginning (`Frame.LeadsTo`): nothing
is ever added to what it has yet to do. So the work of a translator on an event keeps the
mapper and the targets that it began with.
-/

namespace HighlightSync

namespace Frame

/-- The frame is the body of a call that has not changed its handler yet. -/
def Prepares (kind : ChangeKind) (h : HandlerId) : Frame → Prop
  | .reading g (.move d) _ _ _ => g = h ∧ d.kind = kind
  | .clearing g => g = h ∧ kind = .reset
  | _ => False

/-- What a frame may be later, apart from the announcement of a change. -/
inductive LeadsTo : Frame → Frame → Prop where
  | refl (f : Frame) : LeadsTo f f
  | script {pending pending' : List Op} (first first' : Option Fault)
      (left : pending' <:+ pending) :
      LeadsTo (.script pending first) (.script pending' first')
  | reading (h : HandlerId) (purpose : Purpose) (filter : Option Presence)
      {pulls pulls' : List (Pull Op)} (taken taken' : List Key) (left : pulls' <:+ pulls) :
      LeadsTo (.reading h purpose filter pulls taken) (.reading h purpose filter pulls' taken')
  | fanOut (e : Event) {pending pending' : List Listener} (first first' : Option Fault)
      (left : pending' <:+ pending) : LeadsTo (.fanOut e pending first) (.fanOut e pending' first')
  | mapping (t : TranslatorId) (d : Direction) (m : MapperId) (targets : List HandlerId)
      (keys : KeySet) {pending pending' : List Key} (mapped mapped' : List KeySet)
      (held held' : Option Answer) (left : pending' <:+ pending) :
      LeadsTo (.mapping t d m targets keys pending mapped held)
        (.mapping t d m targets keys pending' mapped' held')
  | forwards (t : TranslatorId) (d : Direction) (m : MapperId) {targets pending' : List HandlerId}
      (keys keys' : KeySet) (pending : List Key) (mapped : List KeySet) (held : Option Answer)
      (first : Option Fault) (left : pending' <:+ targets) :
      LeadsTo (.mapping t d m targets keys pending mapped held)
        (.forwarding d keys' targets pending' first)
  | forwarding (d : Direction) (keys : KeySet) (targets : List HandlerId)
      {pending pending' : List HandlerId} (first first' : Option Fault)
      (left : pending' <:+ pending) :
      LeadsTo (.forwarding d keys targets pending first)
        (.forwarding d keys targets pending' first')
  | resetTargets (t : TranslatorId) {pending pending' : List HandlerId}
      (first first' : Option Fault) (left : pending' <:+ pending) :
      LeadsTo (.resetTargets t pending first) (.resetTargets t pending' first')

theorem LeadsTo.trans {f g k : Frame} (h : f.LeadsTo g) (h' : g.LeadsTo k) : f.LeadsTo k := by
  cases h with
  | refl => exact h'
  | script _ _ left =>
      cases h' with
      | refl => exact .script _ _ left
      | script _ _ left' => exact .script _ _ (left'.trans left)
  | reading _ _ _ _ _ left =>
      cases h' with
      | refl => exact .reading _ _ _ _ _ left
      | reading _ _ _ _ _ left' => exact .reading _ _ _ _ _ (left'.trans left)
  | fanOut _ _ _ left =>
      cases h' with
      | refl => exact .fanOut _ _ _ left
      | fanOut _ _ _ left' => exact .fanOut _ _ _ (left'.trans left)
  | mapping _ _ _ _ _ _ _ _ _ left =>
      cases h' with
      | refl => exact .mapping _ _ _ _ _ _ _ _ _ left
      | mapping _ _ _ _ _ _ _ _ _ left' => exact .mapping _ _ _ _ _ _ _ _ _ (left'.trans left)
      | forwards _ _ _ _ _ _ _ _ _ left' => exact .forwards _ _ _ _ _ _ _ _ _ left'
  | forwards _ _ _ _ _ _ _ _ _ left =>
      cases h' with
      | refl => exact .forwards _ _ _ _ _ _ _ _ _ left
      | forwarding _ _ _ _ _ left' => exact .forwards _ _ _ _ _ _ _ _ _ (left'.trans left)
  | forwarding _ _ _ _ _ left =>
      cases h' with
      | refl => exact .forwarding _ _ _ _ _ left
      | forwarding _ _ _ _ _ left' => exact .forwarding _ _ _ _ _ (left'.trans left)
  | resetTargets _ _ _ left =>
      cases h' with
      | refl => exact .resetTargets _ _ _ left
      | resetTargets _ _ _ left' => exact .resetTargets _ _ _ (left'.trans left)

end Frame

namespace Config

/-- What may begin in one step, in a given world, innermost frame first. The work of a translator
begins with the mapper and the targets that the translator has, and a mapper is put in place by a
translator that goes by a name. -/
inductive Opens (w : World) : List Frame → Prop where
  | nothing : Opens w []
  | script (ops : List Op) : Opens w [.script ops none]
  | callback (ops : List Op) (propagate : Bool) (fault : Option FaultSpec) :
      Opens w [.script ops none, .callback propagate fault]
  | forward {t : TranslatorId} {s : TranslatorState} {m : MapperId} (d : Direction)
      (keys : KeySet) (found : w.translator? t = some s) (mapper : s.mapper = some m)
      (targets : s.targetHandlers ≠ []) :
      Opens w [.mapping t d m s.targetHandlers keys keys.toList [] none, .forward t]
  | forwardNothing (t : TranslatorId) : Opens w [.forward t]
  | resetTargets {t : TranslatorId} {s : TranslatorState} (found : w.translator? t = some s) :
      Opens w [.resetTargets t s.targetHandlers none]
  | call {kind : ChangeKind} {h : HandlerId} {body : Frame} (prepares : body.Prepares kind h) :
      Opens w [body, .call kind h]
  | query (h : HandlerId) (filter : Option Presence) (pulls : List (Pull Op)) :
      Opens w [.reading h .query filter pulls []]
  | swap {name : String} {t : TranslatorId} {kind : ChangeKind} {h : HandlerId} {body : Frame}
      (named : w.translatorNamed? name = some t) (prepares : body.Prepares kind h)
      (m : Option MapperId) : Opens w [body, .call kind h, .swap t m]
  | swapRefused {name : String} {t : TranslatorId} (named : w.translatorNamed? name = some t)
      (m : Option MapperId) : Opens w [.swap t m]

/-- Frames that begin in a world have been put on a stack. -/
def Raises (w : World) (stack : List Frame) (c : Config) : Prop :=
  ∃ pushed, c.stack = pushed ++ stack ∧ Opens w pushed

/-- What one move does to the stack. -/
inductive Evolves (c d : Config) : Prop where
  | ends (f : Frame) (stack : List Frame) (before : c.stack = f :: stack)
      (after : d.stack = stack) (replied : d.reply.isSome = true)
  | onward (f f' : Frame) (pushed stack : List Frame) (before : c.stack = f :: stack)
      (after : d.stack = pushed ++ f' :: stack) (leads : f.LeadsTo f')
      (opens : Opens c.world pushed)
  | announces (f : Frame) (e : Event) (stack : List Frame) (before : c.stack = f :: stack)
      (prepares : f.Prepares e.change.kind e.source) (waits : d.reply = none)
      (after : d.stack = .fanOut e (c.world.listeners e.source) none :: stack)
  | begins (before : c.stack = []) (opens : Opens c.world d.stack)

section

variable {w v : World} {stack : List Frame} {f f' : Frame} {c d : Config}

namespace Evolves

theorem answered (before : c.stack = f :: stack) (r : Reply) :
    Evolves c (answered w stack r) := .ends f stack before rfl rfl

theorem of_raises (before : c.stack = f :: stack) (raises : Raises c.world (f' :: stack) d)
    (leads : f.LeadsTo f') : Evolves c d := by
  obtain ⟨pushed, after, opens⟩ := raises
  exact .onward f f' pushed stack before after leads opens

theorem running (before : c.stack = f :: stack) (leads : f.LeadsTo f') :
    Evolves c (running w (f' :: stack)) :=
  .onward f f' [] stack before rfl leads .nothing

end Evolves

namespace Raises

theorem answered (r : Reply) : Raises v stack (answered w stack r) := ⟨[], rfl, .nothing⟩

theorem openCall {kind : ChangeKind} {h : HandlerId} {body : Frame}
    (prepares : body.Prepares kind h) : Raises v stack (openCall kind h body w stack) := by
  simp only [Config.openCall]
  split
  · exact .answered _
  · exact ⟨_, rfl, .call prepares⟩

theorem swap {name : String} {t : TranslatorId} (named : v.translatorNamed? name = some t)
    (m : Option MapperId) (h : HandlerId) :
    Raises v stack (openReset h w (.swap t m :: stack)) := by
  have prepares : (Frame.clearing h).Prepares .reset h := ⟨rfl, rfl⟩
  simp only [openReset, Config.openCall]
  split
  · exact ⟨_, rfl, .swapRefused named m⟩
  · exact ⟨[.clearing h, .call .reset h, .swap t m], rfl, .swap named prepares m⟩

end Raises

/-- An operation begins a call or the reading of keys, or a translator with a name is to get
another mapper. -/
theorem Begins.raises {op : Op} {w : World} {stack : List Frame} {d : Config}
    (h : Begins w stack op d) : Raises w stack d := by
  cases h with
  | refused => exact .answered _
  | act => exact .answered _
  | move => exact .openCall ⟨rfl, rfl⟩
  | reset => exact .openCall ⟨rfl, rfl⟩
  | isHighlighted => exact ⟨_, rfl, .query _ _ _⟩
  | clearMapper named => exact .swap named _ _
  | setMapper named => exact .swap named _ _
  | dropTranslator => exact .answered _

/-- A view begins a script, and a link work on the mapper and the targets of its translator, or
the reset of its source. -/
theorem raises_tell (l : Listener) (e : Event) (w : World) (stack : List Frame) :
    Raises w stack (tell l e w stack) := by
  cases l with
  | view name =>
      simp only [tell, tellView]
      split
      · exact .answered _
      · split
        · exact .answered _
        · exact ⟨_, rfl, .callback _ _ _⟩
  | sourceLink t =>
      simp only [tell]
      split
      · exact .answered _
      · rename_i s found
        split
        · split
          · simp only [tellForward]
            split
            · exact ⟨_, rfl, .forwardNothing t⟩
            · exact ⟨_, rfl, .forwardNothing t⟩
            · rename_i m _ mapper targets
              exact ⟨_, rfl, .forward _ _ found mapper targets⟩
          · exact ⟨_, rfl, .resetTargets found⟩
        · exact .answered _
  | resetLink t =>
      simp only [tell]
      split
      · split
        · exact .openCall ⟨rfl, rfl⟩
        · exact .answered _
      · exact .answered _

theorem evolves_announce (before : c.stack = f :: stack) (same : w.listeners = c.world.listeners)
    {h : HandlerId} (change : Change) (prepares : f.Prepares change.kind h) (n : Note) :
    Evolves c (announce h change n w stack) := by
  refine .announces f ⟨h, change⟩ stack before prepares rfl ?_
  rw [← same]
  rfl

theorem evolves_advance (f : Frame) (w : World) (stack : List Frame) :
    Evolves (running w (f :: stack)) (advance f w stack) := by
  cases f with
  | script pending first =>
      cases pending with
      | nil => exact .answered rfl _
      | cons op ops => exact .of_raises rfl (begins_perform op w _).raises (.refl _)
  | reading h purpose filter pulls taken =>
      cases pulls with
      | nil =>
          cases purpose with
          | query => exact .answered rfl _
          | move d =>
              simp only [advance, finishReading]
              split
              · exact .answered rfl _
              · exact evolves_announce (f := .reading h (.move d) filter [] taken) rfl rfl
                  (.move d _) ⟨rfl, rfl⟩ _
      | cons pull pulls =>
          cases pull with
          | act op => exact .of_raises rfl (begins_perform op w _).raises (.refl _)
          | key k => exact .running rfl (.reading _ _ _ _ _ (List.suffix_cons _ _))
  | clearing h =>
      simp only [advance, clear]
      split
      · exact .answered rfl _
      · exact evolves_announce (f := .clearing h) rfl rfl .reset ⟨rfl, rfl⟩ _
  | fanOut e pending first =>
      cases pending with
      | nil => exact .answered rfl _
      | cons l pending => exact .of_raises rfl (raises_tell l e w _) (.refl _)
  | mapping t d m targets keys pending mapped held =>
      cases pending with
      | nil =>
          simp only [advance, finishMapping]
          split
          · exact .answered rfl _
          · exact .running rfl (.forwards _ _ _ _ _ _ _ _ _ (List.suffix_refl _))
      | cons k pending =>
          exact .of_raises rfl ⟨_, rfl, .script _⟩ (.mapping _ _ _ _ _ _ _ _ _ (List.suffix_refl _))
  | forwarding d keys targets pending first =>
      cases pending with
      | nil => exact .answered rfl _
      | cons h pending => exact .of_raises rfl (.openCall ⟨rfl, rfl⟩) (.refl _)
  | resetTargets t pending first =>
      cases pending with
      | nil => exact .answered rfl _
      | cons h pending => exact .of_raises rfl (.openCall ⟨rfl, rfl⟩) (.refl _)
  | call kind h => exact .of_raises rfl (.answered _) (.refl _)
  | callback propagate fault => exact .of_raises rfl (.answered _) (.refl _)
  | forward t => exact .of_raises rfl (.answered _) (.refl _)
  | swap t m => exact .of_raises rfl (.answered _) (.refl _)

theorem evolves_resume (f : Frame) (r : Reply) (w : World) (stack : List Frame) :
    Evolves (answered w (f :: stack) r) (resume f r w stack) := by
  cases f with
  | script pending first =>
      cases pending with
      | nil => exact .answered rfl _
      | cons op ops => exact .running rfl (.script _ _ (List.suffix_cons _ _))
  | reading h purpose filter pulls taken =>
      cases pulls with
      | nil => exact .running rfl (.refl _)
      | cons pull pulls =>
          cases pull with
          | act op => exact .running rfl (.reading _ _ _ _ _ (List.suffix_cons _ _))
          | key k => exact .running rfl (.refl _)
  | fanOut e pending first => exact .running rfl (.fanOut _ _ _ (List.tail_suffix _))
  | mapping t d m targets keys pending mapped held =>
      cases pending with
      | nil => exact .running rfl (.refl _)
      | cons k pending =>
          cases held with
          | none => exact .running rfl (.refl _)
          | some answer =>
              simp only [resume, resumeMapping]
              split
              · exact .answered rfl _
              · exact .running rfl (.mapping _ _ _ _ _ _ _ _ _ (List.suffix_cons _ _))
              · exact .running rfl (.mapping _ _ _ _ _ _ _ _ _ (List.suffix_cons _ _))
  | forwarding d keys targets pending first =>
      exact .running rfl (.forwarding _ _ _ _ _ (List.tail_suffix _))
  | resetTargets t pending first =>
      exact .running rfl (.resetTargets _ _ _ (List.tail_suffix _))
  | clearing h => exact .running rfl (.refl _)
  | call kind h => exact .answered rfl _
  | callback propagate fault => exact .answered rfl _
  | forward t => exact .answered rfl _
  | swap t m => exact .answered rfl _

/-- A step ends the innermost frame, or lets it go on, or announces a change in its place. -/
theorem step_evolves (h : c.step = some d) : Evolves c d := by
  obtain ⟨w, stack, reply⟩ := c
  cases stack with
  | nil => cases h
  | cons f stack =>
      cases reply with
      | none =>
          cases h
          exact evolves_advance f w stack
      | some r =>
          cases h
          exact evolves_resume f r w stack

theorem step_above {above : List Frame} (h : c.step = some d)
    (top : c.stack = f :: above ++ stack) :
    ∃ above', d.stack = above' ++ stack ∧ (above' = [] → d.reply.isSome = true) := by
  cases step_evolves h with
  | ends g rest before after replied =>
      cases top.symm.trans before
      exact ⟨above, after, fun _ => replied⟩
  | onward g g' pushed rest before after _ _ =>
      cases top.symm.trans before
      exact ⟨pushed ++ g' :: above, by simpa using after, by simp⟩
  | announces g e rest before _ _ after =>
      cases top.symm.trans before
      exact ⟨.fanOut e (c.world.listeners e.source) none :: above, after, by simp⟩
  | begins before _ => cases top.symm.trans before

theorem Next.evolves (h : Next c d) : Evolves c d := by
  cases h with
  | step h => exact step_evolves h
  | perform op rest =>
      obtain ⟨pushed, after, opens⟩ := (begins_perform op c.world []).raises
      refine .begins (atRest_iff.mp rest) ?_
      rw [after, List.append_nil]
      exact opens

/-- Where a frame stands that is on the stack after a move: among those that have begun, in the
place of the innermost frame, or below. -/
theorem frame_cases {g f : Frame} {below : List Frame} (pushed : List Frame)
    (mem : (g :: below) <:+ pushed ++ f :: stack) :
    (∃ between, (g :: between) <:+ pushed ∧ below = between ++ f :: stack) ∨
      (g = f ∧ below = stack) ∨ (g :: below) <:+ stack := by
  induction pushed with
  | nil =>
      obtain same | deeper := List.suffix_cons_iff.mp mem
      · cases same
        exact .inr (.inl ⟨rfl, rfl⟩)
      · exact .inr (.inr deeper)
  | cons k pushed ih =>
      obtain same | deeper := List.suffix_cons_iff.mp mem
      · cases same
        exact .inl ⟨pushed, List.suffix_refl _, rfl⟩
      · refine (ih deeper).imp_left ?_
        rintro ⟨between, inside, same⟩
        exact ⟨between, inside.trans (List.suffix_cons _ _), same⟩

/-- What is true of all frames, given the frames below them, stays true if it is true of what
begins, of what a frame becomes and of announcements. -/
theorem Evolves.all {Q : Frame → List Frame → Prop} (evolves : Evolves c d)
    (all : ∀ g below, (g :: below) <:+ c.stack → Q g below)
    (opens : ∀ pushed, Opens c.world pushed → ∀ g between rest,
      (g :: between) <:+ pushed → Q g (between ++ rest))
    (leads : ∀ f f' stack, c.stack = f :: stack → f.LeadsTo f' → Q f stack → Q f' stack)
    (announces : ∀ f e stack, c.stack = f :: stack → f.Prepares e.change.kind e.source →
      Q (.fanOut e (c.world.listeners e.source) none) stack) :
    ∀ g below, (g :: below) <:+ d.stack → Q g below := by
  intro g below mem
  have deeper : ∀ {f stack}, c.stack = f :: stack → (g :: below) <:+ stack → Q g below :=
    fun before mem => all g below (before ▸ mem.trans (List.suffix_cons _ _))
  cases evolves with
  | ends f stack before after _ => exact deeper before (after ▸ mem)
  | onward f f' pushed stack before after leadsTo begun =>
      rw [after] at mem
      obtain ⟨between, inside, rfl⟩ | ⟨rfl, rfl⟩ | mem := frame_cases _ mem
      · exact opens pushed begun g between _ inside
      · exact leads f _ _ before leadsTo (all f _ (before ▸ List.suffix_refl _))
      · exact deeper before mem
  | announces f e stack before prepares _ after =>
      rw [after] at mem
      obtain ⟨_, inside, -⟩ | ⟨rfl, rfl⟩ | mem := frame_cases [] mem
      · simp at inside
      · exact announces f e _ before prepares
      · exact deeper before mem
  | begins before begun =>
      rw [← List.append_nil below]
      exact opens d.stack begun g below [] mem

/-- What is true of what begins, of what a frame becomes and of announcements, and stays true, is
true of all frames of a session. -/
theorem Since.all_frames {b : Config} {Q : Config → Frame → List Frame → Prop} (h : Since b c)
    (stays : ∀ c d, Next c d → ∀ g below, Q c g below → Q d g below)
    (opens : ∀ c d, Next c d → ∀ pushed, Opens c.world pushed → ∀ g between rest,
      (g :: between) <:+ pushed → Q d g (between ++ rest))
    (leads : ∀ c d, Since b c → Next c d → ∀ f f' stack, c.stack = f :: stack → f.LeadsTo f' →
      Q d f stack → Q d f' stack)
    (announces : ∀ c d, Since b c → Next c d → ∀ f e stack, c.stack = f :: stack →
      f.Prepares e.change.kind e.source →
        Q d (.fanOut e (c.world.listeners e.source) none) stack) :
    ∀ g below, (g :: below) <:+ c.stack → Q c g below := by
  have both : Since b c ∧ ∀ g below, (g :: below) <:+ c.stack → Q c g below := by
    refine h.path.keeps
      (I := fun c => Since b c ∧ ∀ g below, (g :: below) <:+ c.stack → Q c g below)
      ⟨⟨h.idle, h.begins, .refl trivial⟩, fun g below mem => ?_⟩ fun c d _ _ next before => ?_
    · rw [h.idle] at mem
      cases List.suffix_nil.mp mem
    · obtain ⟨since, all⟩ := before
      exact ⟨since.next next, next.evolves.all
        (fun g below mem => stays c d next g below (all g below mem)) (opens c d next)
        (leads c d since next) (announces c d since next)⟩
  exact both.2

end

end Config

end HighlightSync
