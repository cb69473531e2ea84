import HighlightSync.Proofs.Frames
import HighlightSync.Proofs.Links

/-!
# What is done for translators

Most calls on handlers are those of users, or of scripts and lazy input that users gave. The
others are made for a translator: it asks its mapper, it moves keys on its targets or resets
them, its reset link resets its source, and its mapper is replaced (`Deed`, `Does`). Apart from
these and from operations no step asks a mapper or begins a call (`calm_or_does`).

A deed is known in advance, from the frame that will do it (`Frame.Intends`), and was so from the
beginning of that frame (`LeadsTo.intends`). What begins to do something for a translator finds
targets of it, or its name (`Opens.serves`).
-/

namespace HighlightSync

/-- The record is neither a question to a mapper nor the beginning of a call on a handler. -/
def Record.isCalm : Record → Bool
  | .question .. => false
  | .enter (.call ..) => false
  | _ => true

/-- Since an earlier world no mapper was asked and no call on a handler was begun. -/
def World.Calms (w v : World) : Prop :=
  ∃ more, v.journal.toList = w.journal.toList ++ more ∧ ∀ r ∈ more, r.isCalm = true

namespace World.Calms

theorem refl (w : World) : w.Calms w := ⟨[], by simp⟩

theorem record (w : World) {r : Record} (calm : r.isCalm = true) {v : World}
    (same : v.journal = w.journal.push r := by rfl) : w.Calms v :=
  ⟨[r], by rw [same, Array.toList_push], by simpa using calm⟩

theorem trans {w v u : World} (first : w.Calms v) (second : v.Calms u) : w.Calms u := by
  obtain ⟨more, grown, calm⟩ := first
  obtain ⟨more', grown', calm'⟩ := second
  refine ⟨more ++ more', by rw [grown', grown, List.append_assoc], fun r mem => ?_⟩
  exact (List.mem_append.mp mem).elim (calm r) (calm' r)

end World.Calms

/-- What can be done for a translator: to ask its mapper, to move keys on a target, to reset a
target or the source, or to give it another mapper. -/
inductive Deed where
  | ask (m : MapperId) (k : Key)
  | move (d : Direction) (h : HandlerId) (keys : KeySet)
  | reset (h : HandlerId)
  | swap (m : Option MapperId)

namespace Frame

/-- The frame asks the mapper of a translator. -/
def Asks (t : TranslatorId) : Frame → Prop
  | .mapping u _ _ _ _ _ _ _ => u = t
  | _ => False

/-- The frame, on top of others, has yet to do something for a translator, or to tell one of its
links of something. -/
def Serves (t : TranslatorId) (below : List Frame) : Frame → Prop
  | .mapping u _ _ _ _ _ _ _ => u = t
  | .forwarding _ _ _ _ _ => ∃ rest, below = .forward t :: rest
  | .resetTargets u pending _ => u = t ∧ pending ≠ []
  | .fanOut _ pending _ => ∃ l ∈ pending, l.owner? = some t
  | .swap u _ => u = t
  | _ => False

/-- A frame that moves keys on targets stands right above the one that leaves the forwarding. -/
def StandsOnForward (below : List Frame) : Frame → Prop
  | .forwarding _ _ _ _ _ => ∃ t rest, below = .forward t :: rest
  | _ => True

/-- The frame takes the place of another, that of a call's body or of a translator's questions. -/
def Follows : Frame → Prop
  | .fanOut _ _ _ => True
  | .forwarding _ _ _ _ _ => True
  | _ => False

/-- The frame, on top of others, has a deed for a translator still to do. What is moved on targets
is known when all keys are mapped. -/
def Intends (t : TranslatorId) (below : List Frame) : Deed → Frame → Prop
  | .ask m k, .mapping u _ n _ _ pending _ _ => u = t ∧ n = m ∧ k ∈ pending
  | .move d h _, .mapping u e _ targets _ _ _ _ => u = t ∧ e = d ∧ h ∈ targets
  | .move d h keys, .forwarding e mapped _ pending _ =>
      (∃ rest, below = .forward t :: rest) ∧ e = d ∧ mapped = keys ∧ h ∈ pending
  | .reset h, .resetTargets u pending _ => u = t ∧ h ∈ pending
  | _, _ => False

variable {t : TranslatorId} {deed : Deed} {f f' : Frame} {below : List Frame}

theorem LeadsTo.asks (leads : f.LeadsTo f') (asks : f'.Asks t) : f.Asks t := by
  cases leads with
  | forwards => cases asks
  | _ => exact asks

theorem Prepares.not_serves {kind : ChangeKind} {h : HandlerId} (prepares : f.Prepares kind h) :
    ¬ f.Serves t below := by
  cases f with
  | reading | clearing => exact id
  | _ => cases prepares

theorem Prepares.not_follows {kind : ChangeKind} {h : HandlerId} (prepares : f.Prepares kind h) :
    ¬ f.Follows := by
  cases f with
  | reading | clearing => exact id
  | _ => cases prepares

theorem Prepares.not_asks {kind : ChangeKind} {h : HandlerId} (prepares : f.Prepares kind h) :
    ¬ f.Asks t := by
  cases f with
  | reading | clearing => exact id
  | _ => cases prepares

/-- What serves a translator has done so from the beginning. -/
theorem LeadsTo.serves (leads : f.LeadsTo f') (serves : f'.Serves t below)
    (asking : ∀ u, f.Asks u → ∃ rest, below = .forward u :: rest) : f.Serves t below := by
  cases leads with
  | refl => exact serves
  | fanOut _ _ _ left =>
      obtain ⟨l, mem, owner⟩ := serves
      exact ⟨l, left.subset mem, owner⟩
  | mapping => exact serves
  | forwarding => exact serves
  | resetTargets _ _ _ left =>
      refine ⟨serves.1, fun none => serves.2 ?_⟩
      rw [none] at left
      exact List.suffix_nil.mp left
  | forwards u =>
      obtain ⟨rest, rfl⟩ := serves
      obtain ⟨rest', same⟩ := asking u rfl
      cases same
      exact rfl
  | script | reading => cases serves

/-- A frame with a deed to do serves the translator. -/
theorem Intends.serves (intends : f.Intends t below deed) : f.Serves t below := by
  cases f with
  | mapping =>
      cases deed with
      | ask | move => exact intends.1
      | _ => cases intends
  | forwarding =>
      cases deed with
      | move => exact intends.1
      | _ => cases intends
  | resetTargets =>
      cases deed with
      | reset => exact ⟨intends.1, List.ne_nil_of_mem intends.2⟩
      | _ => cases intends
  | _ => cases deed <;> cases intends

/-- A deed that is still to be done was so from the beginning. -/
theorem LeadsTo.intends (leads : f.LeadsTo f') (intends : f'.Intends t below deed)
    (asking : ∀ u, f.Asks u → ∃ rest, below = .forward u :: rest) : f.Intends t below deed := by
  cases leads with
  | refl => exact intends
  | forwards _ _ _ _ _ _ _ _ _ left =>
      cases deed with
      | move d h keys =>
          obtain ⟨⟨rest, rfl⟩, rfl, -, mem⟩ := intends
          obtain ⟨rest', same⟩ := asking _ rfl
          cases same
          exact ⟨rfl, rfl, left.subset mem⟩
      | _ => cases intends
  | mapping _ _ _ _ _ _ _ _ _ left =>
      cases deed with
      | ask m k => exact ⟨intends.1, intends.2.1, left.subset intends.2.2⟩
      | move d h keys => exact intends
      | _ => cases intends
  | forwarding _ _ _ _ _ left =>
      cases deed with
      | move d h keys => exact ⟨intends.1, intends.2.1, intends.2.2.1, left.subset intends.2.2.2⟩
      | _ => cases intends
  | resetTargets _ _ _ left =>
      cases deed with
      | reset h => exact ⟨intends.1, left.subset intends.2⟩
      | _ => cases intends
  | script | reading | fanOut => cases deed <;> cases intends

end Frame

namespace Config

variable {t : TranslatorId} {c d : Config}

/-- What begins to serve a translator finds targets of it, or its name. -/
theorem Opens.serves {w : World} {pushed below : List Frame} {g : Frame} (opens : Opens w pushed)
    (mem : g ∈ pushed) (serves : g.Serves t below) :
    (∃ s, w.translator? t = some s ∧ s.targetHandlers ≠ []) ∨
      ∃ name, w.translatorNamed? name = some t := by
  cases opens with
  | nothing => cases mem
  | forward d keys found mapper some =>
      simp only [List.mem_cons, List.not_mem_nil, or_false] at mem
      obtain rfl | rfl := mem
      · cases serves
        exact .inl ⟨_, found, some⟩
      · cases serves
  | resetTargets found =>
      cases List.mem_singleton.mp mem
      obtain ⟨rfl, some⟩ := serves
      exact .inl ⟨_, found, some⟩
  | call prepares =>
      simp only [List.mem_cons, List.not_mem_nil, or_false] at mem
      obtain rfl | rfl := mem
      · exact absurd serves prepares.not_serves
      · cases serves
  | swap named prepares m =>
      simp only [List.mem_cons, List.not_mem_nil, or_false] at mem
      obtain rfl | rfl | rfl := mem
      · exact absurd serves prepares.not_serves
      · cases serves
      · cases serves
        exact .inr ⟨_, named⟩
  | swapRefused named m =>
      cases List.mem_singleton.mp mem
      cases serves
      exact .inr ⟨_, named⟩
  | script | forwardNothing | query =>
      cases List.mem_singleton.mp mem
      cases serves
  | callback =>
      simp only [List.mem_cons, List.not_mem_nil, or_false] at mem
      obtain rfl | rfl := mem <;> cases serves

/-- What begins to ask a mapper stands right above the frame that leaves the forwarding. -/
theorem Opens.asks {w : World} {pushed between : List Frame} {g : Frame} (opens : Opens w pushed)
    (inside : (g :: between) <:+ pushed) (asks : g.Asks t) : between = [.forward t] := by
  have mem : g ∈ pushed := inside.subset List.mem_cons_self
  cases opens with
  | nothing => cases mem
  | forward d keys found mapper some =>
      obtain same | inside := List.suffix_cons_iff.mp inside
      · cases same
        cases asks
        rfl
      · cases List.mem_singleton.mp (inside.subset List.mem_cons_self)
        cases asks
  | call prepares =>
      simp only [List.mem_cons, List.not_mem_nil, or_false] at mem
      obtain rfl | rfl := mem
      · exact absurd asks prepares.not_asks
      · cases asks
  | swap named prepares m =>
      simp only [List.mem_cons, List.not_mem_nil, or_false] at mem
      obtain rfl | rfl | rfl := mem
      · exact absurd asks prepares.not_asks
      · cases asks
      · cases asks
  | callback =>
      simp only [List.mem_cons, List.not_mem_nil, or_false] at mem
      obtain rfl | rfl := mem <;> cases asks
  | _ =>
      cases List.mem_singleton.mp mem
      cases asks

theorem Opens.not_follows {w : World} {pushed : List Frame} {g : Frame} (opens : Opens w pushed)
    (mem : g ∈ pushed) : ¬ g.Follows := by
  cases opens with
  | call prepares | swap _ prepares =>
      obtain rfl | mem := List.mem_cons.mp mem
      · exact prepares.not_follows
      · simp only [List.mem_cons, List.not_mem_nil, or_false] at mem
        obtain rfl | rfl := mem <;> exact id
  | callback | forward =>
      simp only [List.mem_cons, List.not_mem_nil, or_false] at mem
      obtain rfl | rfl := mem <;> exact id
  | nothing => cases mem
  | _ =>
      cases List.mem_singleton.mp mem
      exact id

theorem Since.forward_below {b : Config} (h : Since b c) {g : Frame} {below : List Frame}
    (mem : (g :: below) <:+ c.stack) (asks : g.Asks t) : ∃ rest, below = .forward t :: rest :=
  h.all_frames (Q := fun _ g below => g.Asks t → ∃ rest, below = .forward t :: rest)
    (fun _ _ _ _ _ => id)
    (fun _ _ _ _ opens _ _ rest inside asks => ⟨rest, by rw [opens.asks inside asks]; rfl⟩)
    (fun _ _ _ _ _ _ _ _ leads before asks => before (leads.asks asks))
    (fun _ _ _ _ _ _ _ _ _ => nofun) g below mem asks

/-- In the next step something is done for a translator. -/
inductive Does (t : TranslatorId) : Deed → Config → Prop where
  | ask (w : World) (d : Direction) (m : MapperId) (targets : List HandlerId) (keys : KeySet)
      (k : Key) (pending : List Key) (mapped : List KeySet) (held : Option Answer)
      (stack : List Frame) :
      Does t (.ask m k)
        (running w (.mapping t d m targets keys (k :: pending) mapped held :: stack))
  | move (w : World) (d : Direction) (keys : KeySet) (targets : List HandlerId) (h : HandlerId)
      (pending : List HandlerId) (first : Option Fault) (stack : List Frame) :
      Does t (.move d h keys)
        (running w (.forwarding d keys targets (h :: pending) first :: .forward t :: stack))
  | resetTarget (w : World) (h : HandlerId) (pending : List HandlerId) (first : Option Fault)
      (stack : List Frame) :
      Does t (.reset h) (running w (.resetTargets t (h :: pending) first :: stack))
  | resetSource (w : World) (e : Event) (pending : List Listener) (first : Option Fault)
      (stack : List Frame) {s : TranslatorState} (found : w.translator? t = some s)
      (resets : e.change = .reset)
      (held : w.isHeld (.fanOut e (.resetLink t :: pending) first :: stack) s.source = true) :
      Does t (.reset s.source) (running w (.fanOut e (.resetLink t :: pending) first :: stack))
  | swap (w : World) (m : Option MapperId) (stack : List Frame) (r : Reply) :
      Does t (.swap m) (answered w (.swap t m :: stack) r)

/-- Who is told of an event begins no call and asks no mapper at once, except for a reset link. -/
theorem calms_tell (l : Listener) (e : Event) (w : World) (pending : List Listener)
    (first : Option Fault) (stack : List Frame) :
    (∃ t deed, Does t deed (running w (.fanOut e (l :: pending) first :: stack))) ∨
      w.Calms (tell l e w (.fanOut e (l :: pending) first :: stack)).world := by
  cases l with
  | view name =>
      right
      simp only [tell, tellView]
      split
      · exact .refl w
      · split <;> exact .record w rfl
  | sourceLink t =>
      right
      simp only [tell]
      split
      · exact .record w rfl
      · split
        · split
          · simp only [tellForward]
            have told : w.Calms (w.record (.callback (.sourceLink t) e w.depth true)) :=
              .record w rfl
            have entered := told.trans
              (.record _ rfl (v := World.record _ (.enter .forward)))
            split <;> exact entered
          · exact .record w rfl
        · exact .record w rfl
  | resetLink t =>
      simp only [tell]
      split
      · rename_i s found resets
        split
        · rename_i held
          exact .inl ⟨t, _, .resetSource w e pending first stack found resets held⟩
        · exact .inr (.record w rfl)
      · exact .inr (.record w rfl)

theorem Since.forwarding_below {b : Config} (h : Since b c) {d : Direction} {keys : KeySet}
    {targets pending : List HandlerId} {first : Option Fault} {below : List Frame}
    (mem : (.forwarding d keys targets pending first :: below) <:+ c.stack) :
    ∃ t rest, below = .forward t :: rest := by
  refine h.all_frames (Q := fun _ g below => g.StandsOnForward below) (fun _ _ _ _ _ => id)
    ?_ ?_ (fun _ _ _ _ _ _ _ _ _ => trivial) _ below mem
  · intro c d _ pushed opens g between rest inside
    cases g with
    | forwarding => exact absurd trivial (opens.not_follows (inside.subset List.mem_cons_self))
    | _ => trivial
  · intro c d since _ f f' stack top leads before
    have here : (f :: stack) <:+ c.stack := top ▸ List.suffix_refl _
    cases leads with
    | refl => exact before
    | forwarding => exact before
    | forwards t => exact ⟨t, since.forward_below here rfl⟩
    | _ => trivial

/-- A frame that goes on by itself begins no call and asks no mapper, unless it does so for a
translator. -/
theorem calms_advance {b : Config} {w : World} {f : Frame} {stack : List Frame}
    (since : Since b (running w (f :: stack))) (due : f.due? = none) :
    (∃ t deed, Does t deed (running w (f :: stack))) ∨ w.Calms (advance f w stack).world := by
  cases f with
  | script pending first =>
      cases pending with
      | nil => exact .inr (.refl w)
      | cons op ops => cases due
  | reading h purpose filter pulls taken =>
      cases pulls with
      | nil =>
          right
          cases purpose with
          | query => exact .refl w
          | move d =>
              simp only [advance, finishReading]
              split
              · exact .record w rfl
              · exact .record w rfl
      | cons pull pulls =>
          cases pull with
          | act op => cases due
          | key k => exact .inr (.record w rfl)
  | clearing h =>
      right
      simp only [advance, clear]
      split
      · exact .record w rfl
      · exact .record w rfl
  | fanOut e pending first =>
      cases pending with
      | nil => exact .inr (.refl w)
      | cons l pending => exact calms_tell l e w pending first stack
  | mapping t d m targets keys pending mapped held =>
      cases pending with
      | nil =>
          right
          simp only [advance, finishMapping]
          split <;> exact .record w rfl
      | cons k pending => exact .inl ⟨t, _, .ask w d m targets keys k pending mapped held stack⟩
  | forwarding d keys targets pending first =>
      cases pending with
      | nil => exact .inr (.refl w)
      | cons h pending =>
          obtain ⟨t, rest, rfl⟩ := since.forwarding_below (List.suffix_refl _)
          exact .inl ⟨t, _, .move w d keys targets h pending first rest⟩
  | resetTargets t pending first =>
      cases pending with
      | nil => exact .inr (.refl w)
      | cons h pending => exact .inl ⟨t, _, .resetTarget w h pending first stack⟩
  | _ => exact .inr (.refl w)

/-- A frame that is handed a reply begins no call and asks no mapper. -/
theorem calms_resume {f : Frame} (other : ∀ t m, f ≠ .swap t m) (r : Reply) (w : World)
    (stack : List Frame) : w.Calms (resume f r w stack).world := by
  cases f with
  | script pending first =>
      cases pending with
      | nil => exact .refl w
      | cons op ops => exact .record w rfl
  | reading h purpose filter pulls taken =>
      cases pulls with
      | nil => exact .refl w
      | cons pull pulls =>
          cases pull with
          | act op => exact .record w rfl
          | key k => exact .refl w
  | call kind h => exact .record w rfl
  | forward t => exact .record w rfl
  | fanOut e pending first =>
      simp only [resume]
      split
      · exact .record w rfl
      · exact .refl w
  | mapping t d m targets keys pending mapped held =>
      cases pending with
      | nil => exact .refl w
      | cons k pending =>
          cases held with
          | none => exact .refl w
          | some answer =>
              simp only [resume, resumeMapping]
              split
              · exact .record w rfl
              · exact .refl w
              · exact .refl w
  | swap t m => exact absurd rfl (other t m)
  | _ => exact .refl w

/-- A step performs an operation, or it does something for a translator, or it asks no mapper,
begins no call on a handler and leaves all translators as they are. -/
theorem calm_or_does {b : Config} (since : Since b c) (h : c.step = some d) :
    (∃ f stack op, c = running c.world (f :: stack) ∧ f.due? = some op) ∨
      (∃ t deed, Does t deed c) ∨
      (c.world.Calms d.world ∧ d.world.translator? = c.world.translator?) := by
  obtain ⟨w, stack, reply⟩ := c
  cases stack with
  | nil => cases h
  | cons f stack =>
      cases reply with
      | none =>
          cases h
          cases due : f.due? with
          | some op => exact .inl ⟨f, stack, op, rfl, due⟩
          | none =>
              obtain does | calm := calms_advance since due
              · exact .inr (.inl does)
              · exact .inr (.inr ⟨calm, World.translator?_of_layout (layout_advance w stack due)⟩)
      | some r =>
          cases h
          cases f with
          | swap t m => exact .inr (.inl ⟨t, _, .swap w m stack r⟩)
          | _ =>
              exact .inr (.inr ⟨calms_resume (by simp) r w stack,
                World.translator?_of_layout (layout_resume w stack (by simp) r)⟩)

end Config

end HighlightSync
