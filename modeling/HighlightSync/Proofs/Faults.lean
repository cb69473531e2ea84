import HighlightSync.Proofs.Uniform

/-!
# Faults on their way out of a cascade

Whoever waits for a reply and goes on after a fault keeps the first fault that it has met.
The fault that a configuration will end with can therefore be read off its stack: it is the
first one that an outer frame has met, or that of the reply (`Config.fault?`).

In a cascade without operations this fault is never lost (`Faithful.step`), nor when a mapper
is replaced at its end: only frames that wait for a script dismiss the faults of replies, and
the script is empty. A branch of the cascade is cut off when a call is refused or a mapper
fails; both leave a note, and both are faults.
-/

namespace HighlightSync

namespace Note

/-- Whether the note reports that a branch of a cascade of some kind was cut off: a call was
refused, or a mapper failed. Mappers are not asked about resets. -/
def cuts (κ : ChangeKind) : Note → Bool
  | .cascadeRefused _ _ _ => true
  | .mapperFailed _ _ _ => decide (κ ≠ .reset)
  | _ => false

end Note

namespace World

/-- The notes about branches that were cut off so far. -/
def cuts (κ : ChangeKind) (w : World) : List Note :=
  w.journal.toList.filterMap fun
    | .note n => if n.cuts κ then some n else none
    | _ => none

theorem cuts_note (κ : ChangeKind) (w : World) (n : Note) :
    (w.note n).cuts κ = if n.cuts κ then w.cuts κ ++ [n] else w.cuts κ := by
  simp only [cuts, note_eq_record, toList_journal_record, List.filterMap_append]
  by_cases h : n.cuts κ = true
  · simp [h]
  · simp [h]

theorem cuts_record (κ : ChangeKind) (w : World) {r : Record} (h : ∀ n, r ≠ .note n) :
    (w.record r).cuts κ = w.cuts κ := by
  simp only [cuts, toList_journal_record, List.filterMap_append]
  cases r with
  | note n => exact absurd rfl (h n)
  | _ => exact List.append_nil _

end World

namespace Frame

/-- The first fault that the frame has met. -/
def fault? : Frame → Option Fault
  | .script _ first => first
  | .fanOut _ _ first => first
  | .forwarding _ _ _ _ first => first
  | .resetTargets _ _ first => first
  | _ => none

/-- The frame hands the fault of a reply on, at once or at its end. -/
def Keeps : Frame → Prop
  | .call _ _ | .fanOut _ _ _ | .forward _ | .forwarding _ _ _ _ _ | .resetTargets _ _ _ => True
  | .swap _ _ => True
  | _ => False

/-- The frame waits for a script, and may dismiss the fault of its reply. -/
def Dismisses : Frame → Prop
  | .callback _ _ | .mapping _ _ _ _ _ _ _ _ => True
  | _ => False

/-- The frame belongs to a cascade of changes of one kind, or replaces a mapper when the
cascade is over. -/
def CascadesOrSwaps (κ : ChangeKind) (f : Frame) : Prop := f.Cascades κ ∨ ∃ t m, f = .swap t m

/-- The frame is the rest of a script. -/
def isScript : Frame → Bool
  | .script _ _ => true
  | _ => false

end Frame

namespace Config

/-- The fault that waiting frames will end with: the outermost has met its fault first. -/
def faultIn : List Frame → Option Fault
  | [] => none
  | f :: stack => (faultIn stack).or f.fault?

theorem faultIn_cons {f : Frame} (clean : f.fault? = none) (stack : List Frame) :
    faultIn (f :: stack) = faultIn stack := by
  rw [faultIn, clean, Option.or_none]

/-- The fault that a configuration will end with. -/
def fault? (c : Config) : Option Fault := (faultIn c.stack).or (c.reply.bind Reply.fault?)

@[simp] theorem fault?_running (w : World) (stack : List Frame) :
    (running w stack).fault? = faultIn stack := Option.or_none

@[simp] theorem fault?_answered (w : World) (stack : List Frame) (r : Reply) :
    (answered w stack r).fault? = (faultIn stack).or r.fault? := rfl

/-- No frame that may dismiss faults waits for anything but the end of an empty script. -/
inductive Faithful : Config → Prop where
  | runs {w f stack} : f.isScript = false → (∀ g ∈ stack, g.Keeps) →
      Faithful (running w (f :: stack))
  | idles {w g stack} : g.Dismisses → (∀ g ∈ stack, g.Keeps) →
      Faithful (running w (.script [] none :: g :: stack))
  | replies {w stack r} : (∀ g ∈ stack, g.Keeps) → Faithful (answered w stack r)
  | returns {w g stack r} : g.Dismisses → (∀ g ∈ stack, g.Keeps) → r.fault? = none →
      Faithful (answered w (g :: stack) r)

/-- What happens to the fault of a configuration in one step: it stays, or becomes that of a
failure. A branch is cut off only by a failure. -/
structure Follows (κ : ChangeKind) (w : World) (before : Option Fault) (d : Config) : Prop where
  faithful : Faithful d
  fault : ∃ failure : Option Fault, d.fault? = before.or failure ∧
    (d.world.cuts κ = w.cuts κ ∨
      failure.isSome = true ∧ ∃ n, d.world.cuts κ = w.cuts κ ++ [n])

namespace Follows

variable {κ : ChangeKind} {w v : World} {before : Option Fault} {stack : List Frame}

theorem cuts {d : Config} (h : Follows κ w before d) : w.cuts κ <+: d.world.cuts κ := by
  obtain ⟨-, failure, -, same | ⟨-, n, cut⟩⟩ := h
  · exact same ▸ List.prefix_refl _
  · exact cut ▸ List.prefix_append _ _

theorem uncut {d : Config} (h : Follows κ w before d) (clean : d.fault? = none) :
    before = none ∧ d.world.cuts κ = w.cuts κ := by
  obtain ⟨-, failure, fault, cut⟩ := h
  obtain ⟨none, nothing⟩ := Option.or_eq_none_iff.mp (fault.symm.trans clean)
  refine ⟨none, cut.resolve_right ?_⟩
  rw [nothing]
  exact fun failed => Bool.false_ne_true failed.1

theorem replies (below : ∀ g ∈ stack, g.Keeps) (r : Reply)
    (same : before.or r.fault? = (faultIn stack).or r.fault?) (cuts : v.cuts κ = w.cuts κ) :
    Follows κ w before (answered v stack r) :=
  ⟨.replies below, r.fault?, same.symm, .inl cuts⟩

theorem ends {f : Frame} (below : ∀ g ∈ stack, g.Keeps) :
    Follows κ w (faultIn (f :: stack)) (Config.answered w stack (.outcome f.fault?)) := by
  refine .replies below _ ?_ rfl
  rw [faultIn, Reply.fault?_outcome, Option.or_assoc, Option.or_self]

theorem cut (below : ∀ g ∈ stack, g.Keeps) (f : Fault) (n : Note)
    (cuts : v.cuts κ = w.cuts κ ++ [n]) :
    Follows κ w (faultIn stack) (answered v stack (.fault f)) :=
  ⟨.replies below, some f, rfl, .inr ⟨rfl, n, cuts⟩⟩

theorem of_faithful {d : Config} (faithful : Faithful d) (same : d.fault? = before)
    (cuts : d.world.cuts κ = w.cuts κ) : Follows κ w before d :=
  ⟨faithful, none, by rw [same, Option.or_none], .inl cuts⟩

theorem idles {g : Frame} (dismisses : g.Dismisses) (clean : g.fault? = none)
    (below : ∀ f ∈ stack, f.Keeps) (cuts : v.cuts κ = w.cuts κ) :
    Follows κ w (faultIn stack) (running v (.script [] none :: g :: stack)) :=
  .of_faithful (.idles dismisses below)
    (by rw [fault?_running, faultIn_cons rfl, faultIn_cons clean]) cuts

theorem runs {f : Frame} (below : ∀ g ∈ stack, g.Keeps) (hf : f.isScript = false)
    (same : faultIn (f :: stack) = before) (cuts : v.cuts κ = w.cuts κ) :
    Follows κ w before (running v (f :: stack)) :=
  .of_faithful (.runs hf below) (by rw [fault?_running, same]) cuts

end Follows

section

variable {κ : ChangeKind} {w : World} {stack : List Frame}

theorem follows_openCall (kind : ChangeKind) (h : HandlerId) {body : Frame}
    (below : ∀ g ∈ stack, g.Keeps) (hb : body.isScript = false) (clean : body.fault? = none) :
    Follows κ w (faultIn stack) (openCall kind h body w stack) := by
  have entered : (w.record (.enter (.call kind h))).cuts κ = w.cuts κ :=
    w.cuts_record κ (by simp)
  simp only [openCall]
  split
  · rename_i limit _
    refine .cut below _ (.cascadeRefused h (w.record (.enter (.call kind h))).depth limit) ?_
    rw [World.cuts_record κ _ (by simp), World.cuts_note, entered]
    rfl
  · refine .runs (List.forall_mem_cons.mpr ⟨trivial, below⟩) hb ?_ entered
    · exact (faultIn_cons clean _).trans (faultIn_cons rfl stack)

theorem follows_tell (views : w.IdleViews) (below : ∀ g ∈ stack, g.Keeps) (l : Listener)
    (e : Event) : Follows κ w (faultIn stack) (tell l e w stack) := by
  have told : ∀ heeded, (w.record (.callback l e w.depth heeded)).cuts κ = w.cuts κ :=
    fun _ => w.cuts_record κ (by simp)
  cases l with
  | view name =>
      simp only [tell, tellView]
      split
      · exact .replies below .done rfl rfl
      · rename_i v hv
        split
        · exact .replies below _ rfl (told _)
        · rename_i ops script
          cases views name v hv _ e ops script
          exact .idles trivial rfl below (told _)
  | sourceLink t =>
      simp only [tell]
      split
      · exact .replies below .done rfl (told true)
      · split
        · split
          · simp only [tellForward]
            have entered : ((w.record (.callback (.sourceLink t) e w.depth true)).record
                (.enter .forward)).cuts κ = w.cuts κ :=
              (World.cuts_record κ _ (by simp)).trans (told true)
            have keeps : ∀ g ∈ Frame.forward t :: stack, g.Keeps :=
              List.forall_mem_cons.mpr ⟨trivial, below⟩
            split
            · exact .replies keeps .done (by rw [faultIn_cons rfl]) entered
            · exact .replies keeps .done (by rw [faultIn_cons rfl]) entered
            · exact .runs keeps rfl
                ((faultIn_cons rfl _).trans (faultIn_cons rfl stack)) entered
          · exact .runs below rfl (faultIn_cons rfl stack) (told true)
        · exact .replies below .done rfl (told true)
  | resetLink t =>
      simp only [tell]
      split
      · split
        · rename_i s _ _ _
          have called : Follows κ (w.record (.callback (.resetLink t) e w.depth true))
              (faultIn stack) (openReset s.source _ stack) :=
            follows_openCall .reset s.source below rfl rfl
          obtain ⟨faithful, failure, fault, cut⟩ := called
          exact ⟨faithful, failure, fault, told true ▸ cut⟩
        · exact .replies below .done rfl (told true)
      · exact .replies below .done rfl (told true)

theorem cuts_note_of_other {n : Note} (other : n.cuts κ = false) :
    (w.note n).cuts κ = w.cuts κ := by
  rw [World.cuts_note, other]
  rfl

theorem follows_announce {h : HandlerId} {c : Change} {n : Note} (below : ∀ g ∈ stack, g.Keeps)
    (hn : n.cuts κ = false) : Follows κ w (faultIn stack) (announce h c n w stack) :=
  .runs below rfl (faultIn_cons rfl stack) (cuts_note_of_other hn)

theorem follows_finishReading {h : HandlerId} {d : Direction} {taken : List Key}
    (below : ∀ g ∈ stack, g.Keeps) :
    Follows κ w (faultIn stack) (finishReading h (.move d) taken w stack) := by
  simp only [finishReading]
  split
  · exact .replies below .done rfl (cuts_note_of_other rfl)
  · exact follows_announce below rfl

theorem follows_finishMapping {d : Direction} {targets : List HandlerId} {keys : KeySet}
    {mapped : List KeySet} (below : ∀ g ∈ stack, g.Keeps) :
    Follows κ w (faultIn stack) (finishMapping d targets keys mapped w stack) := by
  simp only [finishMapping]
  split
  · exact .replies below .done rfl (cuts_note_of_other rfl)
  · exact .runs below rfl (faultIn_cons rfl _) (cuts_note_of_other rfl)

/-- A mapper is asked that runs nothing. -/
theorem follows_ask {t : TranslatorId} {d : Direction} {m : MapperId} {targets : List HandlerId}
    {keys : KeySet} {k : Key} {pending : List Key} {mapped : List KeySet} {held : Option Answer}
    (mappers : w.IdleMappers) (below : ∀ g ∈ stack, g.Keeps) :
    Follows κ w (faultIn stack)
      (advance (.mapping t d m targets keys (k :: pending) mapped held) w stack) := by
  have asked : (ask m k w).2.2.cuts κ = w.cuts κ := by
    rw [ask]
    split
    · rfl
    · exact w.cuts_record κ (by simp)
  simp only [advance, script_ask mappers]
  exact .idles trivial rfl below asked

theorem follows_advance {f : Frame} (views : w.IdleViews) (mappers : κ ≠ .reset → w.IdleMappers)
    (cascades : f.CascadesOrSwaps κ) (hf : f.isScript = false) (below : ∀ g ∈ stack, g.Keeps) :
    Follows κ w (faultIn (f :: stack)) (advance f w stack) := by
  have keeps : f.Keeps → ∀ g ∈ f :: stack, g.Keeps := fun hf =>
    List.forall_mem_cons.mpr ⟨hf, below⟩
  obtain cascades | ⟨t, m, rfl⟩ := cascades
  case inr => exact .replies (keeps trivial) .done rfl rfl
  cases f with
  | script pending first => cases hf
  | reading h purpose filter pulls taken =>
      obtain ⟨⟨d, rfl, -⟩, rfl, ks, rfl⟩ := cascades
      rw [faultIn_cons rfl]
      cases ks with
      | nil => exact follows_finishReading below
      | cons k ks => exact .runs below rfl (faultIn_cons rfl _) (w.cuts_record κ (by simp))
  | clearing h =>
      rw [faultIn_cons rfl]
      simp only [advance, clear]
      split
      · exact .replies below .done rfl (cuts_note_of_other rfl)
      · exact follows_announce below rfl
  | fanOut e pending first =>
      cases pending with
      | nil => exact Follows.ends below
      | cons l pending => exact follows_tell views (keeps trivial) l e
  | mapping t d m targets keys pending mapped held =>
      rw [faultIn_cons rfl]
      cases pending with
      | nil => exact follows_finishMapping below
      | cons k pending =>
          have moves : κ ≠ .reset := by
            rintro rfl
            cases d <;> cases cascades
          exact follows_ask (mappers moves) below
  | forwarding d keys targets pending first =>
      cases pending with
      | nil => exact Follows.ends below
      | cons h pending => exact follows_openCall _ h (keeps trivial) rfl rfl
  | resetTargets t pending first =>
      cases pending with
      | nil => exact Follows.ends below
      | cons h pending => exact follows_openCall _ h (keeps trivial) rfl rfl
  | call kind h => exact .replies (keeps trivial) .done rfl rfl
  | callback propagate fault =>
      exact .of_faithful (.returns trivial below rfl) Option.or_none rfl
  | forward t => exact .replies (keeps trivial) .done rfl rfl
  | swap t m => cases cascades

theorem follows_resume {f : Frame} (hf : f.Keeps) (below : ∀ g ∈ stack, g.Keeps) (r : Reply) :
    Follows κ w ((faultIn (f :: stack)).or r.fault?) (resume f r w stack) := by
  cases f with
  | call kind h =>
      exact .replies below r (by rw [faultIn_cons rfl, Option.or_assoc, Option.or_self])
        (World.cuts_record κ _ (by simp))
  | forward t =>
      exact .replies below r (by rw [faultIn_cons rfl, Option.or_assoc, Option.or_self])
        (w.cuts_record κ (by simp))
  | fanOut e pending first =>
      refine .runs below rfl (by simp [faultIn, Frame.fault?, Option.or_assoc]) ?_
      split
      · rw [World.cuts_note]
        rfl
      · rfl
  | forwarding d keys targets pending first =>
      exact .runs below rfl (by simp [faultIn, Frame.fault?, Option.or_assoc]) rfl
  | resetTargets t pending first =>
      exact .runs below rfl (by simp [faultIn, Frame.fault?, Option.or_assoc]) rfl
  | swap t m =>
      refine .replies below r (by rw [faultIn_cons rfl, Option.or_assoc, Option.or_self]) ?_
      exact World.cuts_note κ (w.setMapper t m) _
  | _ => cases hf

/-- A frame that waited for an empty script goes on; a failure of its own comes out of it. -/
theorem follows_return {f : Frame} (cascades : f.Cascades κ) (hf : f.Dismisses)
    (below : ∀ g ∈ stack, g.Keeps) (r : Reply) :
    Follows κ w (faultIn (f :: stack)) (resume f r w stack) := by
  cases f with
  | callback propagate fault =>
      rw [faultIn_cons rfl]
      exact .replies below _ rfl rfl
  | mapping t d m targets keys pending mapped held =>
      rw [faultIn_cons rfl]
      cases pending with
      | nil => exact .runs below rfl (faultIn_cons rfl _) rfl
      | cons k pending =>
          cases held with
          | none => exact .runs below rfl (faultIn_cons rfl _) rfl
          | some answer =>
              have moves : κ ≠ .reset := by
                rintro rfl
                cases d <;> cases cascades
              simp only [resume, resumeMapping]
              split
              · exact .cut below _ _ ((w.cuts_note κ _).trans (if_pos (decide_eq_true moves)))
              · exact .runs below rfl (faultIn_cons rfl _) rfl
              · exact .runs below rfl (faultIn_cons rfl _) rfl
  | _ => cases hf

end

/-- In a cascade no fault is lost, and whatever cuts a branch off is a fault. -/
theorem Faithful.step {κ : ChangeKind} {c d : Config} (h : Faithful c) (hs : c.step = some d)
    (views : c.world.IdleViews) (mappers : κ ≠ .reset → c.world.IdleMappers)
    (cascade : ∀ f ∈ c.stack, f.CascadesOrSwaps κ) : Follows κ c.world c.fault? d := by
  cases h with
  | runs hf below =>
      cases hs
      rw [fault?_running]
      exact follows_advance views mappers (cascade _ List.mem_cons_self) hf below
  | idles dismisses below =>
      cases hs
      refine .of_faithful (.returns dismisses below rfl) ?_ rfl
      rw [fault?_running, faultIn_cons rfl]
      exact Option.or_none
  | @replies w stack r below =>
      cases stack with
      | nil => cases hs
      | cons f stack =>
          cases hs
          exact follows_resume (below f List.mem_cons_self)
            (fun g hg => below g (List.mem_cons_of_mem f hg)) r
  | returns dismisses below hr =>
      cases hs
      rw [fault?_answered, hr, Option.or_none]
      refine follows_return ((cascade _ List.mem_cons_self).resolve_right ?_) dismisses below _
      rintro ⟨t, m, rfl⟩
      exact dismisses

end Config

end HighlightSync
