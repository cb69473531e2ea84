import HighlightSync.Proofs.History

/-!
# Cascades of one kind

When listeners and mappers run no operations, a change leads only to changes of its own
kind: links pass highlighting on as highlighting, unhighlighting as unhighlighting and
resets as resets. So the stack is a cascade of one kind on top of calls that have not
changed anything yet (`Uniform`), the cascade performs no operation, and everybody who is
still to be told of something is to be told of a change of that kind
(`Uniform.kind_of_mem_tells`). Lazy input may perform operations, but it is read before its
call makes any change.
-/

namespace HighlightSync

namespace World

/-- No view runs an operation when it is told of something. -/
def IdleViews (w : World) : Prop :=
  ∀ name v, w.view? name = some v → ∀ n e ops, v.behavior.script n e = some ops → ops = []

/-- No mapper runs an operation when it is asked. -/
def IdleMappers (w : World) : Prop :=
  ∀ m s, w.mapper? m = some s → ∀ n k, s.script n k = []

theorem IdleViews.of_nil {w : World} (none : w.views = []) : w.IdleViews := by
  intro name v found
  rw [view?, none] at found
  cases found

theorem IdleViews.of_layout {w v : World} (h : w.IdleViews) (same : v.layout = w.layout) :
    v.IdleViews := by
  intro name s hs n e ops
  have behaves := congrFun (congrArg Layout.behavior same) name
  simp only [layout, hs, Option.map_some] at behaves
  obtain ⟨s', hs', behavior⟩ := Option.map_eq_some_iff.mp behaves.symm
  rw [← behavior]
  exact h name s' hs' n e ops

theorem IdleMappers.of_layout {w v : World} (h : w.IdleMappers) (same : v.layout = w.layout) :
    v.IdleMappers := by
  intro m s hs n k
  have answers := congrFun (congrArg Layout.mapper same) m
  simp only [layout, hs, Option.map_some] at answers
  obtain ⟨s', hs', state⟩ := Option.map_eq_some_iff.mp answers.symm
  have script : s'.script = s.script := (MapperState.mk.inj state).2.1
  rw [← script]
  exact h m s' hs' n k

end World

namespace Frame

/-- The frame belongs to a cascade of changes of one kind: it performs no operation, and
every change that it makes, announces or passes on is of this kind. -/
def Cascades (κ : ChangeKind) : Frame → Prop
  | .script pending _ => pending = []
  | .reading _ purpose filter pulls _ =>
      (∃ d, purpose = .move d ∧ d.kind = κ) ∧ filter = none ∧ ∃ ks : List Key, pulls = ks.map .key
  | .clearing _ => κ = .reset
  | .call _ _ | .callback _ _ | .forward _ => True
  | .fanOut e _ _ => e.change.kind = κ
  | .mapping _ d _ _ _ _ _ _ => d.kind = κ
  | .forwarding d _ _ _ _ => d.kind = κ
  | .resetTargets _ _ _ => κ = .reset
  | .swap _ _ => False

/-- The frame belongs to an operation that has not changed anything yet. -/
def Gathers : Frame → Prop
  | .reading _ _ _ _ _ | .clearing _ | .call _ _ | .swap _ _ => True
  | _ => False

theorem Cascades.due? {κ : ChangeKind} {f : Frame} (h : f.Cascades κ) : f.due? = none := by
  cases f with
  | script pending first =>
      cases h
      rfl
  | reading g purpose filter pulls taken =>
      obtain ⟨-, -, ks, rfl⟩ := h
      cases ks <;> rfl
  | _ => rfl

theorem Gathers.tells {f : Frame} (h : f.Gathers) : f.tells = [] ∧ f.waiting.tells = [] := by
  cases f with
  | fanOut e pending first => cases h
  | _ => exact ⟨rfl, rfl⟩

theorem Cascades.kind_of_mem_tells {κ : ChangeKind} {f : Frame} (h : f.Cascades κ)
    {t : Listener × Event} (ht : t ∈ f.tells ∨ t ∈ f.waiting.tells) : t.2.change.kind = κ := by
  cases f with
  | fanOut e pending first =>
      obtain ht | ht := ht
      · obtain ⟨_, _, rfl⟩ := List.mem_map.mp ht
        exact h
      · obtain ⟨_, _, rfl⟩ := List.mem_map.mp ht
        exact h
  | _ => simp [tells, waiting] at ht

end Frame

namespace Config

/-- Frames with a property, and no others, have been put on the stack. -/
def Grows (P : Frame → Prop) (stack : List Frame) (c : Config) : Prop :=
  ∃ pushed, c.stack = pushed ++ stack ∧ ∀ f ∈ pushed, P f

namespace Grows

variable {P : Frame → Prop} {stack : List Frame} {w : World} {f : Frame} {c : Config}

theorem answered (r : Reply) : Grows P stack (answered w stack r) := ⟨[], rfl, by simp⟩

theorem under (h : Grows P (f :: stack) c) (hf : P f) : Grows P stack c := by
  obtain ⟨pushed, grown, all⟩ := h
  refine ⟨pushed ++ [f], by simpa using grown, ?_⟩
  intro g hg
  rw [List.mem_append, List.mem_singleton] at hg
  exact hg.elim (all g) fun e => e ▸ hf

theorem running (hf : P f) : Grows P stack (running w (f :: stack)) :=
  ⟨[f], rfl, fun _ hg => List.mem_singleton.mp hg ▸ hf⟩

theorem openCall {kind : ChangeKind} {h : HandlerId} {body : Frame} (call : P (.call kind h))
    (hb : P body) : Grows P stack (openCall kind h body w stack) := by
  simp only [Config.openCall]
  split
  · exact .answered _
  · exact under (.running hb) call

end Grows

section Cascades

variable {κ : ChangeKind} {w : World} {stack : List Frame} {f : Frame}

theorem cascades_openMoveSet {d : Direction} (hd : d.kind = κ) (h : HandlerId) (keys : KeySet) :
    Grows (Frame.Cascades κ) stack (openMoveSet d h keys w stack) :=
  .openCall trivial ⟨⟨d, rfl, hd⟩, rfl, _, rfl⟩

theorem cascades_openReset (hκ : κ = .reset) (h : HandlerId) :
    Grows (Frame.Cascades κ) stack (openReset h w stack) :=
  .openCall trivial hκ

theorem cascades_tell {l : Listener} {e : Event} (views : w.IdleViews)
    (he : e.change.kind = κ) : Grows (Frame.Cascades κ) stack (tell l e w stack) := by
  cases l with
  | view name =>
      simp only [tell, tellView]
      split
      · exact .answered _
      · rename_i v hv
        split
        · exact .answered _
        · rename_i ops script
          exact .under (.running (views name v hv _ e ops script)) trivial
  | sourceLink t =>
      simp only [tell]
      split
      · exact .answered _
      · split
        · split
          · rename_i s _ _ d keys moves
            rw [moves] at he
            simp only [tellForward]
            split
            · exact .under (.answered _) trivial
            · exact .under (.answered _) trivial
            · exact .under (.running he) trivial
          · rename_i resets
            rw [resets] at he
            exact .running he.symm
        · exact .answered _
  | resetLink t =>
      simp only [tell]
      split
      · rename_i resets
        rw [resets] at he
        split
        · exact cascades_openReset he.symm _
        · exact .answered _
      · exact .answered _

theorem script_ask (mappers : w.IdleMappers) (m : MapperId) (k : Key) :
    (ask m k w).2.1 = [] := by
  rw [ask]
  split
  · rfl
  · rename_i s hs
    exact mappers m s hs _ k

theorem cascades_announce {h : HandlerId} {c : Change} (hc : c.kind = κ) (n : Note) :
    Grows (Frame.Cascades κ) stack (announce h c n w stack) :=
  .running hc

/-- A cascade that goes on stays a cascade of its kind. -/
theorem cascades_advance (views : w.IdleViews) (mappers : κ ≠ .reset → w.IdleMappers)
    (hf : f.Cascades κ) : Grows (Frame.Cascades κ) stack (advance f w stack) := by
  cases f with
  | script pending first =>
      cases hf
      exact .answered _
  | reading h purpose filter pulls taken =>
      obtain ⟨⟨d, rfl, hd⟩, rfl, ks, rfl⟩ := hf
      cases ks with
      | nil =>
          simp only [advance, List.map_nil, finishReading]
          split
          · exact .answered _
          · exact cascades_announce (c := .move d _) hd _
      | cons k ks => exact .running ⟨⟨d, rfl, hd⟩, rfl, ks, rfl⟩
  | clearing h =>
      simp only [advance, clear]
      split
      · exact .answered _
      · exact cascades_announce (c := .reset) (Eq.symm hf) _
  | fanOut e pending first =>
      cases pending with
      | nil => exact .answered _
      | cons l pending => exact (cascades_tell views hf).under hf
  | mapping t d m targets keys pending mapped held =>
      cases pending with
      | nil =>
          simp only [advance, finishMapping]
          split
          · exact .answered _
          · exact .running hf
      | cons k pending =>
          have moves : κ ≠ .reset := by
            rintro rfl
            cases d <;> cases hf
          exact .under (.running (script_ask (mappers moves) m k)) hf
  | forwarding d keys targets pending first =>
      cases pending with
      | nil => exact .answered _
      | cons h pending => exact (cascades_openMoveSet hf h keys).under hf
  | resetTargets t pending first =>
      cases pending with
      | nil => exact .answered _
      | cons h pending => exact (cascades_openReset hf h).under hf
  | call kind h => exact .under (.answered _) trivial
  | callback propagate fault => exact .under (.answered _) trivial
  | forward t => exact .under (.answered _) trivial
  | swap t m => cases hf

theorem cascades_resume (hf : f.Cascades κ) (r : Reply) :
    Grows (Frame.Cascades κ) stack (resume f r w stack) := by
  cases f with
  | script pending first =>
      cases hf
      exact .answered _
  | reading h purpose filter pulls taken =>
      obtain ⟨hp, rfl, ks, rfl⟩ := hf
      cases ks with
      | nil => exact .running ⟨hp, rfl, [], rfl⟩
      | cons k ks => exact .running ⟨hp, rfl, k :: ks, rfl⟩
  | mapping t d m targets keys pending mapped held =>
      cases pending with
      | nil => exact .running hf
      | cons k pending =>
          cases held with
          | none => exact .running hf
          | some answer =>
              simp only [resume, resumeMapping]
              split
              · exact .answered _
              · exact .running hf
              · exact .running hf
  | clearing h => exact .running hf
  | call kind h => exact .answered _
  | fanOut e pending first => exact .running hf
  | callback propagate fault => exact .answered _
  | forward t => exact .answered _
  | forwarding d keys targets pending first => exact .running hf
  | resetTargets t pending first => exact .running hf
  | swap t m => cases hf

/-- A cascade of one kind stays one, and keeps the layout. -/
theorem cascades_step {c d : Config} (hs : c.step = some d) (views : c.world.IdleViews)
    (mappers : κ ≠ .reset → c.world.IdleMappers) (cascade : ∀ f ∈ c.stack, f.Cascades κ) :
    (∀ f ∈ d.stack, f.Cascades κ) ∧ d.world.layout = c.world.layout := by
  have grown : ∀ {stack}, (∀ f ∈ stack, f.Cascades κ) → Grows (Frame.Cascades κ) stack d →
      ∀ f ∈ d.stack, f.Cascades κ := by
    rintro stack below ⟨pushed, grown, all⟩ f hf
    rw [grown] at hf
    exact (List.mem_append.mp hf).elim (all f) (below f)
  obtain ⟨w, stack, reply⟩ := c
  cases stack with
  | nil => cases hs
  | cons f stack =>
      have head := cascade f List.mem_cons_self
      have below : ∀ g ∈ stack, g.Cascades κ := fun g hg => cascade g (List.mem_cons_of_mem f hg)
      cases reply with
      | none =>
          cases hs
          exact ⟨grown below (cascades_advance views mappers head),
            layout_advance w stack head.due?⟩
      | some r =>
          cases hs
          refine ⟨grown below (cascades_resume head r), layout_resume w stack ?_ r⟩
          rintro t m rfl
          exact head

end Cascades

section Gathers

variable {w : World} {stack : List Frame} {f : Frame}

theorem Begins.gathers {op : Op} {d : Config} (h : Begins w stack op d) :
    Grows Frame.Gathers stack d := by
  cases h with
  | refused => exact .answered _
  | act => exact .answered _
  | move => exact .openCall trivial trivial
  | reset => exact .openCall trivial trivial
  | isHighlighted => exact .running trivial
  | clearMapper => exact .under (.openCall trivial trivial) trivial
  | setMapper => exact .under (.openCall trivial trivial) trivial
  | dropTranslator => exact .answered _

/-- Work that has changed nothing yet goes on so, or begins to announce its change. -/
theorem gathers_advance (hf : f.Gathers) :
    Grows Frame.Gathers stack (advance f w stack) ∨
      ∃ κ, Grows (Frame.Cascades κ) stack (advance f w stack) := by
  cases f with
  | reading h purpose filter pulls taken =>
      cases pulls with
      | nil =>
          cases purpose with
          | query => exact .inl (.answered _)
          | move d =>
              simp only [advance, finishReading]
              split
              · exact .inl (.answered _)
              · exact .inr ⟨_, cascades_announce rfl _⟩
      | cons pull pulls =>
          cases pull with
          | act op => exact .inl ((begins_perform op _ _).gathers.under trivial)
          | key k => exact .inl (.running trivial)
  | clearing h =>
      simp only [advance, clear]
      split
      · exact .inl (.answered _)
      · exact .inr ⟨_, cascades_announce rfl _⟩
  | call kind h => exact .inl (.under (.answered _) trivial)
  | swap t m => exact .inl (.under (.answered _) trivial)
  | _ => cases hf

theorem gathers_resume (hf : f.Gathers) (r : Reply) :
    Grows Frame.Gathers stack (resume f r w stack) := by
  cases f with
  | reading h purpose filter pulls taken =>
      cases pulls with
      | nil => exact .running trivial
      | cons pull pulls =>
          cases pull with
          | act op => exact .running trivial
          | key k => exact .running trivial
  | clearing h => exact .running trivial
  | call kind h => exact .answered _
  | swap t m => exact .answered _
  | _ => cases hf

end Gathers

/-- The stack is a cascade of one kind on top of work that has not changed anything yet. -/
def Uniform (c : Config) : Prop :=
  ∃ κ cascade base, c.stack = cascade ++ base ∧ (∀ f ∈ cascade, f.Cascades κ) ∧
    ∀ f ∈ base, f.Gathers

namespace Uniform

variable {c d : Config}

theorem of_gathers {stack : List Frame} (base : ∀ f ∈ stack, f.Gathers)
    (h : Grows Frame.Gathers stack d) : Uniform d := by
  obtain ⟨pushed, grown, all⟩ := h
  refine ⟨.reset, [], pushed ++ stack, grown, by simp, ?_⟩
  intro f hf
  exact (List.mem_append.mp hf).elim (all f) (base f)

theorem of_cascades {κ : ChangeKind} {cascade base : List Frame}
    (top : ∀ f ∈ cascade, f.Cascades κ) (bottom : ∀ f ∈ base, f.Gathers)
    (h : Grows (Frame.Cascades κ) (cascade ++ base) d) : Uniform d := by
  obtain ⟨pushed, grown, all⟩ := h
  refine ⟨κ, pushed ++ cascade, base, by simpa using grown, ?_, bottom⟩
  intro f hf
  exact (List.mem_append.mp hf).elim (all f) (top f)

theorem of_atRest (h : c.AtRest) : Uniform c :=
  ⟨.reset, [], [], atRest_iff.mp h, by simp, by simp⟩

/-- Idle views and mappers keep the stack uniform. -/
theorem next (h : Uniform c) (views : c.world.IdleViews) (mappers : c.world.IdleMappers)
    (move : Next c d) : Uniform d := by
  cases move with
  | perform op rest => exact .of_gathers (by simp) (begins_perform op _ _).gathers
  | step hs =>
      obtain ⟨w, stack, reply⟩ := c
      obtain ⟨κ, cascade, base, split, top, bottom⟩ := h
      cases split
      cases cascade with
      | cons f cascade =>
          have above : ∀ g ∈ cascade, g.Cascades κ := fun g hg => top g (List.mem_cons_of_mem f hg)
          cases reply with
          | none =>
              cases hs
              exact .of_cascades above bottom
                (cascades_advance views (fun _ => mappers) (top f List.mem_cons_self))
          | some r =>
              cases hs
              exact .of_cascades above bottom (cascades_resume (top f List.mem_cons_self) r)
      | nil =>
          cases base with
          | nil => cases hs
          | cons f base =>
              have below : ∀ g ∈ base, g.Gathers := fun g hg => bottom g (List.mem_cons_of_mem f hg)
              cases reply with
              | none =>
                  cases hs
                  obtain grown | ⟨κ, grown⟩ := gathers_advance (bottom f List.mem_cons_self)
                  · exact .of_gathers below grown
                  · have onBase : Grows (Frame.Cascades κ) ([] ++ base) (advance f w base) := grown
                    exact .of_cascades (by simp) below onBase
              | some r =>
                  cases hs
                  exact .of_gathers below (gathers_resume (bottom f List.mem_cons_self) r)

/-- All who are still to be told of something are told of changes of one kind. -/
theorem kind_of_mem_tells (h : Uniform c) : ∃ κ, ∀ t ∈ c.tells, t.2.change.kind = κ := by
  obtain ⟨w, stack, reply⟩ := c
  obtain ⟨κ, cascade, base, split, top, bottom⟩ := h
  cases split
  have frames : ∀ f ∈ cascade ++ base, ∀ t, t ∈ f.tells ∨ t ∈ f.waiting.tells →
      t.2.change.kind = κ := by
    intro f hf t ht
    obtain hf | hf := List.mem_append.mp hf
    · exact (top f hf).kind_of_mem_tells ht
    · rw [(bottom f hf).tells.1, (bottom f hf).tells.2] at ht
      exact (ht.elim List.not_mem_nil List.not_mem_nil).elim
  refine ⟨κ, fun t ht => ?_⟩
  obtain ⟨f, hf, ht⟩ := exists_frame_of_mem_tells ht
  exact frames f hf t ht

/-- An operation is performed only while nobody is to be told of anything. -/
theorem tells_of_performs (h : Uniform c) (performs : c.Performs) : c.tells = [] := by
  obtain rest | ⟨f, stack, op, head, due⟩ := performs
  · exact tells_of_atRest rest
  obtain ⟨κ, cascade, base, split, top, bottom⟩ := h
  rw [head] at split
  cases cascade with
  | cons g cascade =>
      cases split
      rw [(top f List.mem_cons_self).due?] at due
      cases due
  | nil =>
      rw [List.eq_nil_iff_forall_not_mem]
      intro t ht
      obtain ⟨g, hg, ht⟩ := exists_frame_of_mem_tells ht
      rw [head] at hg
      have onBase : f :: stack = base := split
      have silent := (bottom g (onBase ▸ hg)).tells
      rw [silent.1, silent.2] at ht
      exact ht.elim List.not_mem_nil List.not_mem_nil

end Uniform

end Config

end HighlightSync
