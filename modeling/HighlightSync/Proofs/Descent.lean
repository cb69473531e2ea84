import HighlightSync.Proofs.Depth
import HighlightSync.Proofs.Termination

/-!
# How deep moves of keys go

Work ends within a depth when it comes to a reply and no more calls than that are open on
the way (`EndsWithin`). The rules are those for work that ends, with the depth as a resource:
pieces of work one after the other need no more than each of them, and only a call that is
accepted needs one level more.

A call that moves keys goes deeper only by what its source links forward: the fine keys that
a mapper may answer to a key that has really moved, in calls on the targets
(`Layout.Forwards`). So it ends within a depth if these calls do, in every world that they
may find (`endsWithin_openMove`). Mappers may answer what they like, or fail.
-/

namespace HighlightSync

namespace Layout

/-- A mapper may answer a key by fine keys with another among them. -/
def Yields (L : Layout) (m : MapperId) (k j : Key) : Prop :=
  ∃ s n fine, L.mapper m = some s ∧ s.answer n k = .ok (some fine) ∧ j ∈ fine

/-- A translator that is linked to a handler may forward keys to a target when others moved. -/
def Forwards (L : Layout) (h : HandlerId) (moved : KeySet) (target : HandlerId) (keys : KeySet) :
    Prop :=
  ∃ t s m, .sourceLink t ∈ L.listeners h ∧ L.translator? t = some s ∧ s.mapper = some m ∧
    target ∈ s.targetHandlers ∧ ∀ j ∈ keys, ∃ k ∈ moved, L.Yields m k j

end Layout

namespace Config

/-- The work on top of the stack comes to a reply, in a world with a property, and never are
more calls open than a bound says. -/
inductive EndsWithin (N : Nat) (I : World → Prop) (stack : List Frame) : Config → Prop where
  | of_answered {w} (r : Reply) : w.depth ≤ N → I w → EndsWithin N I stack (answered w stack r)
  | cons {c d} : c.world.depth ≤ N → c.step = some d → EndsWithin N I stack d →
      EndsWithin N I stack c

namespace EndsWithin

variable {N : Nat} {I J : World → Prop} {c : Config} {stack : List Frame} {f : Frame}

theorem andThen (h : EndsWithin N I (f :: stack) c)
    (after : ∀ w r, I w → EndsWithin N J stack (resume f r w stack)) :
    EndsWithin N J stack c := by
  induction h with
  | of_answered r few hw => exact .cons few rfl (after _ r hw)
  | cons few hs _ ih => exact .cons few hs ih

theorem mono (h : EndsWithin N I stack c) (weaker : ∀ w, I w → J w) :
    EndsWithin N J stack c := by
  induction h with
  | of_answered r few hw => exact .of_answered r few (weaker _ hw)
  | cons few hs _ ih => exact .cons few hs ih

theorem ends (h : EndsWithin N I stack c) : ∃ n w r, Steps n c (answered w stack r) ∧ I w := by
  induction h with
  | of_answered r _ hw => exact ⟨0, _, r, .refl _, hw⟩
  | cons _ hs _ ih =>
      obtain ⟨n, w, r, steps, hw⟩ := ih
      exact ⟨n + 1, w, r, .cons hs steps, hw⟩

theorem depth_le (h : EndsWithin N I [] c) {m : Nat} {d : Config} (steps : Steps m c d) :
    d.world.depth ≤ N := by
  induction h generalizing m with
  | of_answered r few _ =>
      obtain ⟨-, rfl⟩ := steps.of_atRest (atRest_iff.mpr rfl)
      exact few
  | cons few hs _ ih =>
      cases steps with
      | refl => exact few
      | cons hs' rest =>
          cases hs.symm.trans hs'
          exact ih rest

end EndsWithin

/-- A property of the layout and the sets, at a depth. -/
structure At (J : World → Prop) (k : Nat) (w : World) : Prop where
  holds : J w
  depth : w.depth = k

namespace At

variable {J : World → Prop} {N k : Nat} {w v : World}

theorem congr (h : At J k w) (stable : Stable J) (layout : v.layout = w.layout)
    (keys : v.keysOf = w.keysOf) (depth : v.depth = w.depth) : At J k v :=
  ⟨stable w v layout keys h.holds, depth.trans h.depth⟩

theorem record (h : At J k w) (stable : Stable J) (r : Record) : At J k (w.record r) :=
  h.congr stable rfl rfl rfl

theorem note (h : At J k w) (stable : Stable J) (n : Note) : At J k (w.note n) :=
  h.congr stable rfl rfl rfl

theorem le (h : At J k w) (few : k ≤ N) : w.depth ≤ N := h.depth ▸ few

end At

theorem keysOf_ask (m : MapperId) (k : Key) (w : World) : (ask m k w).2.2.keysOf = w.keysOf := by
  rw [ask]
  split <;> rfl

theorem yields_of_ask {m : MapperId} {k j : Key} {w : World} {fine : KeySet}
    (answered : (ask m k w).1 = .ok (some fine)) (mem : j ∈ fine) : w.layout.Yields m k j := by
  rw [ask] at answered
  split at answered
  · cases answered
  · rename_i s found
    refine ⟨{ s with asked := 0 }, s.asked, fine, ?_, answered, mem⟩
    simp only [World.layout, found, Option.map_some]

/-- A property of worlds that have one layout, where no view and no mapper runs anything. -/
structure Quiet (L : Layout) (J : World → Prop) : Prop where
  stable : Stable J
  layout : ∀ w, J w → w.layout = L
  views : ∀ w, J w → w.IdleViews
  mappers : ∀ w, J w → w.IdleMappers

theorem Quiet.of_layout {w : World} (views : w.IdleViews) (mappers : w.IdleMappers) :
    Quiet w.layout fun v => v.layout = w.layout where
  stable _ _ same _ := same.trans
  layout _ := id
  views _ := views.of_layout
  mappers _ := mappers.of_layout

section Rules

variable {N k : Nat} {L : Layout} {J : World → Prop} (quiet : Quiet L J) (few : k ≤ N)

include few

theorem endsWithin_forwarding {d : Direction} {keys : KeySet} {targets pending : List HandlerId}
    {stack : List Frame}
    (calls : ∀ h ∈ pending, ∀ w stack, At J k w →
      EndsWithin N (At J k) stack (openMoveSet d h keys w stack))
    (first : Option Fault) {w : World} (hw : At J k w) :
    EndsWithin N (At J k) stack
      (running w (.forwarding d keys targets pending first :: stack)) := by
  induction pending generalizing w first with
  | nil => exact .cons (hw.le few) rfl (.of_answered _ (hw.le few) hw)
  | cons h pending ih =>
      refine .cons (hw.le few) rfl ((calls h List.mem_cons_self w _ hw).andThen fun v r hv => ?_)
      exact ih (fun g hg => calls g (List.mem_cons_of_mem h hg)) _ hv

include quiet

theorem endsWithin_fanOut {e : Event} {pending : List Listener} {stack : List Frame}
    (tells : ∀ l ∈ pending, ∀ w stack, At J k w → EndsWithin N (At J k) stack (tell l e w stack))
    (first : Option Fault) {w : World} (hw : At J k w) :
    EndsWithin N (At J k) stack (running w (.fanOut e pending first :: stack)) := by
  induction pending generalizing w first with
  | nil => exact .cons (hw.le few) rfl (.of_answered _ (hw.le few) hw)
  | cons l pending ih =>
      refine .cons (hw.le few) rfl ((tells l List.mem_cons_self w _ hw).andThen fun v r hv => ?_)
      refine ih (fun m hm => tells m (List.mem_cons_of_mem l hm)) _ ?_
      split
      · exact hv.note quiet.stable _
      · exact hv

theorem endsWithin_tellView (name : String) (e : Event) {w : World} (hw : At J k w)
    (stack : List Frame) : EndsWithin N (At J k) stack (tellView name e w stack) := by
  simp only [tellView]
  split
  · exact .of_answered _ (hw.le few) hw
  · rename_i v found
    have counted : ∀ f : ViewState → ViewState, (∀ v, (f v).behavior = v.behavior) →
        At J k ((w.record (.callback (.view name) e w.depth (!v.behavior.deaf))).modifyView name
          f) := fun f same =>
      (hw.record quiet.stable _).congr quiet.stable (World.layout_modifyView _ name same) rfl rfl
    have heard := counted (fun v => { v with told := v.told + 1 }) fun _ => rfl
    have ran := counted (fun v => { v with told := v.told + 1, ran := v.ran + 1 }) fun _ => rfl
    split
    · exact .of_answered _ (heard.le few) heard
    · rename_i ops script
      cases quiet.views w hw.holds name v found _ e ops script
      exact .cons (ran.le few) rfl
        (.cons (ran.le few) rfl (.of_answered _ (ran.le few) ran))

/-- Mapping ends with what idle mappers yield being forwarded, unless one fails. -/
theorem endsWithin_mapping {t : TranslatorId} {d : Direction} {m : MapperId}
    {targets : List HandlerId} {keys : KeySet} {stack : List Frame}
    (calls : ∀ h ∈ targets, ∀ mapped : KeySet, (∀ j ∈ mapped, ∃ k ∈ keys, L.Yields m k j) →
      ∀ w stack, At J k w → EndsWithin N (At J k) stack (openMoveSet d h mapped w stack))
    {pending : List Key} (asked : ∀ k ∈ pending, k ∈ keys) {mapped : List KeySet}
    (yielded : ∀ fine ∈ mapped, ∀ j ∈ fine, ∃ k ∈ keys, L.Yields m k j) {w : World}
    (hw : At J k w) :
    EndsWithin N (At J k) stack
      (running w (.mapping t d m targets keys pending mapped none :: stack)) := by
  induction pending generalizing w mapped with
  | nil =>
      refine .cons (hw.le few) rfl ?_
      simp only [advance, finishMapping]
      split
      · exact .of_answered _ (hw.le few) (hw.note quiet.stable _)
      · refine endsWithin_forwarding few (fun h target => calls h target _ fun j mem => ?_) none
          (hw.note quiet.stable _)
        obtain ⟨fine, listed, mem⟩ := KeySet.mem_unionAll.mp mem
        exact yielded fine listed j mem
  | cons i pending ih =>
      have put : At J k (ask m i w).2.2 :=
        hw.congr quiet.stable (layout_ask w m i) (keysOf_ask m i w) (level_ask w m i).depth
      have silent : (ask m i w).2.1 = [] := script_ask (quiet.mappers w hw.holds) m i
      have rest : ∀ j ∈ pending, j ∈ keys := fun j mem => asked j (List.mem_cons_of_mem i mem)
      -- The mapper runs nothing, so its answer is handed over in the next step but one.
      have asks : (running w (.mapping t d m targets keys (i :: pending) mapped none ::
          stack)).step = some (running (ask m i w).2.2 (.script [] none ::
            .mapping t d m targets keys (i :: pending) mapped (some (ask m i w).1) :: stack)) := by
        rw [step_running, ← silent]
        rfl
      refine .cons (hw.le few) asks (.cons (put.le few) rfl (.cons (put.le few) rfl ?_))
      simp only [resume, resumeMapping]
      split
      · exact .of_answered _ (put.le few) (put.note quiet.stable _)
      · exact ih rest yielded put
      · rename_i fine answers
        refine ih rest (List.forall_mem_cons.mpr ⟨fun j mem => ?_, yielded⟩) put
        exact ⟨i, asked i List.mem_cons_self,
          quiet.layout w hw.holds ▸ yields_of_ask answers mem⟩

/-- Telling a listener that keys have moved ends within the depth that the calls need to which
the keys are forwarded. A reset link does nothing. -/
theorem endsWithin_tell {d : Direction} {h : HandlerId} {moved : KeySet}
    (calls : ∀ g keys, L.Forwards h moved g keys →
      ∀ w stack, At J k w → EndsWithin N (At J k) stack (openMoveSet d g keys w stack))
    {l : Listener} (registered : l ∈ L.listeners h) {w : World} (hw : At J k w)
    (stack : List Frame) :
    EndsWithin N (At J k) stack (tell l ⟨h, .move d moved⟩ w stack) := by
  have told := hw.record quiet.stable (.callback l ⟨h, .move d moved⟩ w.depth true)
  cases l with
  | view name => exact endsWithin_tellView quiet few name _ hw stack
  | resetLink t =>
      simp only [tell]
      split
      · rename_i resets
        cases resets
      · exact .of_answered _ (told.le few) told
  | sourceLink t =>
      simp only [tell]
      split
      · exact .of_answered _ (told.le few) told
      · rename_i s found
        split
        · have entered := told.record quiet.stable (.enter .forward)
          have leaves : ∀ v r, At J k v → EndsWithin N (At J k) stack
              (resume (.forward t) r v stack) := fun v r hv =>
            .of_answered r (hv.le few) (hv.record quiet.stable _)
          simp only [tellForward]
          split
          · exact .andThen (.of_answered _ (entered.le few) entered) leaves
          · exact .andThen (.of_answered _ (entered.le few) entered) leaves
          · rename_i m mapper _
            refine .andThen (endsWithin_mapping quiet few ?_ (fun k mem => KeySet.mem_def.mpr mem)
              (by simp) entered) leaves
            intro g target mapped yields
            have found : L.translator? t = some s := by
              rw [← quiet.layout w hw.holds]
              exact found
            exact calls g mapped ⟨t, s, m, registered, found, mapper, target, yields⟩
        · exact .of_answered _ (told.le few) told

theorem endsWithin_reading {h : HandlerId} {d : Direction} {filter : Option Presence}
    {keys pending taken : List Key} {stack : List Frame}
    (finish : ∀ taken : List Key, (∀ i ∈ taken, i ∈ keys) → ∀ w, At J k w →
      EndsWithin N (At J k) stack (finishReading h (.move d) taken w stack))
    (left : ∀ i ∈ pending, i ∈ keys) (read : ∀ i ∈ taken, i ∈ keys) {w : World}
    (hw : At J k w) :
    EndsWithin N (At J k) stack
      (running w (.reading h (.move d) filter (pending.map .key) taken :: stack)) := by
  induction pending generalizing w taken with
  | nil => exact .cons (hw.le few) rfl (finish taken read w hw)
  | cons i pending ih =>
      refine .cons (hw.le few) rfl (ih (fun j mem => left j (List.mem_cons_of_mem i mem)) ?_
        (hw.record quiet.stable _))
      split
      · exact List.forall_mem_cons.mpr ⟨left i List.mem_cons_self, read⟩
      · exact read

end Rules

/-- What moving some of the given keys leads to: the world is as it is said to be from then on,
and the calls end within a depth that links forward to. -/
def Moves (N k : Nat) (L : Layout) (J J' : World → Prop) (d : Direction) (h : HandlerId)
    (keys : List Key) : Prop :=
  ∀ w moved, J w → (Change.move d moved).Proper (w.keysOf h) → (∀ i ∈ moved, i ∈ keys) →
    J' (w.change h (.move d moved)) ∧ ∀ g forwarded, L.Forwards h moved g forwarded →
      ∀ v stack, At J' k v → EndsWithin N (At J' k) stack (openMoveSet d g forwarded v stack)

section Calls

variable {N k : Nat} {L : Layout} {J J' : World → Prop} (quiet : Quiet L J) (quiet' : Quiet L J')
variable (weaker : ∀ w, J' w → J w) {d : Direction} {h : HandlerId} {keys : List Key}

include quiet quiet' weaker

/-- The body of a call ends within a depth, if what its proper changes lead to does. -/
theorem endsWithin_finishReading (few : k ≤ N) (moves : Moves N k L J J' d h keys)
    {taken : List Key} (read : ∀ i ∈ taken, i ∈ keys) {w : World} (hw : At J k w)
    (stack : List Frame) :
    EndsWithin N (At J k) stack (finishReading h (.move d) taken w stack) := by
  simp only [finishReading]
  split
  · exact .of_answered _ (hw.le few) (hw.note quiet.stable _)
  · rename_i something
    let moved := d.effect (.ofList taken.reverse) (w.keysOf h)
    have proper : (Change.move d moved).Proper (w.keysOf h) :=
      ⟨something, fun i mem => (Direction.mem_effect.mp mem).2⟩
    have given : ∀ i ∈ moved, i ∈ keys := by
      intro i mem
      have offered := (Direction.mem_effect.mp mem).1
      rw [KeySet.mem_ofList, List.mem_reverse] at offered
      exact read i offered
    obtain ⟨changed, calls⟩ := moves w moved hw.holds proper given
    have announced : At J' k ((w.change h (.move d moved)).note (.moved h d moved)) :=
      ⟨quiet'.stable (w.change h _) _ rfl rfl changed, hw.depth⟩
    have registered : ∀ l ∈ w.listeners h, l ∈ L.listeners h := by
      rw [← quiet.layout w hw.holds]
      exact fun l mem => listeners_layout w h ▸ mem
    refine (endsWithin_fanOut quiet' few (fun l mem u stack hu => ?_) none announced).mono
      fun u hu => ⟨weaker u hu.holds, hu.depth⟩
    exact endsWithin_tell quiet' few calls (registered l mem) hu stack

/-- A call that moves keys ends within a depth, if it is refused, or else the depth suffices
for one level more and for what its proper changes lead to there. -/
theorem endsWithin_openMove (few : k ≤ N) {filter : Option Presence}
    (deeper : (∀ limit, L.limit? h = some limit → k < limit) →
      k + 1 ≤ N ∧ Moves N (k + 1) L J J' d h keys) {w : World} (hw : At J k w)
    (stack : List Frame) :
    EndsWithin N (At J k) stack (openMove d h ⟨filter, keys.map .key⟩ w stack) := by
  by_cases accepts : ∀ limit, w.layout.limit? h = some limit → w.depth < limit
  · have free : ∀ limit, L.limit? h = some limit → k < limit := by
      rw [← quiet.layout w hw.holds, ← hw.depth]
      exact accepts
    obtain ⟨fewer, moves⟩ := deeper free
    rw [openMove, openCall_of_accepts accepts]
    let entered := { w.record (.enter (.call d.kind h)) with depth := w.depth + 1 }
    have inside : At J (k + 1) entered :=
      ⟨quiet.stable w _ rfl rfl hw.holds, congrArg Nat.succ hw.depth⟩
    refine (endsWithin_reading quiet fewer (fun taken read v hv =>
      endsWithin_finishReading quiet quiet' weaker fewer moves read hv _) (fun _ mem => mem)
      (by simp) inside).andThen fun v r hv => ?_
    have left : At J k ({ v with depth := v.depth - 1 }.record (.exit (.call d.kind h))) :=
      ⟨quiet.stable v _ rfl rfl hv.holds, by
        rw [World.depth_record, hv.depth, Nat.add_sub_cancel]⟩
    exact .of_answered r (left.le few) left
  · simp only [not_forall, Nat.not_lt] at accepts
    obtain ⟨limit, is, reached⟩ := accepts
    rw [openMove, openCall_of_refuses is reached]
    have refused := ((hw.record quiet.stable (.enter (.call d.kind h))).note quiet.stable
      (.cascadeRefused h w.depth limit)).record quiet.stable (.exit (.call d.kind h))
    exact .of_answered _ (refused.le few) refused

end Calls

theorem endsWithin_perform {N : Nat} {I : World → Prop} {d : Direction} {name : String}
    {feed : Feed Op} {w : World} {stack : List Frame} (few : w.depth ≤ N) (here : I w)
    (calls : ∀ h, w.handlerNamed? name = some h →
      EndsWithin N I stack (openMove d h feed w stack)) :
    EndsWithin N I stack (perform (.move d name feed) w stack) := by
  simp only [perform, onHandler]
  split
  · exact .of_answered _ few here
  · rename_i h named
    exact calls h named

end Config

end HighlightSync
