import HighlightSync.Proofs.Spreading

/-!
# Resets come to an end

A configuration ends on a stack when the work on top of the stack comes to a reply
(`Ends`). Work that consists of several pieces ends when each piece does, in whatever world
the pieces before have left, so the rules for it only ask for an invariant of worlds.

A reset passes resets on only when it has cleared a handler that was not empty. So each
nested reset begins with fewer filled handlers, and every reset ends, in any wiring
(`ends_openReset`).
-/

namespace HighlightSync.Config

/-- The work on top of the stack comes to a reply, in a world with a property. -/
def Ends (I : World → Prop) (c : Config) (stack : List Frame) : Prop :=
  ∃ n w r, Steps n c (answered w stack r) ∧ I w

namespace Ends

variable {I J : World → Prop} {c d : Config} {w : World} {stack : List Frame} {f : Frame}

theorem of_answered (r : Reply) (hw : I w) : Ends I (answered w stack r) stack :=
  ⟨0, w, r, .refl _, hw⟩

theorem cons (hs : c.step = some d) (h : Ends I d stack) : Ends I c stack := by
  obtain ⟨n, w, r, steps, hw⟩ := h
  exact ⟨n + 1, w, r, .cons hs steps, hw⟩

theorem andThen (h : Ends I c (f :: stack))
    (after : ∀ w r, I w → Ends J (resume f r w stack) stack) : Ends J c stack := by
  obtain ⟨m, w, r, first, hw⟩ := h
  obtain ⟨n, v, s, second, hv⟩ := after w r hw
  exact ⟨m + (n + 1), v, s, first.trans (.cons rfl second), hv⟩

theorem mono (h : Ends I c stack) (weaker : ∀ w, I w → J w) : Ends J c stack := by
  obtain ⟨n, w, r, steps, hw⟩ := h
  exact ⟨n, w, r, steps, weaker w hw⟩

end Ends

/-- Whether a property of worlds depends on the layout and the sets alone. -/
def Stable (I : World → Prop) : Prop :=
  ∀ w v : World, v.layout = w.layout → v.keysOf = w.keysOf → I w → I v

section

variable {I J : World → Prop} (stable : Stable I)

include stable

theorem ends_fanOut {e : Event} {pending : List Listener} {stack : List Frame}
    (tells : ∀ l ∈ pending, ∀ w stack, I w → Ends I (tell l e w stack) stack)
    (first : Option Fault) {w : World} (hw : I w) :
    Ends I (running w (.fanOut e pending first :: stack)) stack := by
  induction pending generalizing w first with
  | nil => exact .cons rfl (.of_answered _ hw)
  | cons l pending ih =>
      refine .cons rfl ((tells l List.mem_cons_self w _ hw).andThen fun v r hv => ?_)
      refine ih (fun m hm => tells m (List.mem_cons_of_mem l hm)) _ ?_
      split
      · exact stable v _ rfl rfl hv
      · exact hv

omit stable in
theorem ends_resetTargets {t : TranslatorId} {pending : List HandlerId} {stack : List Frame}
    (resets : ∀ h ∈ pending, ∀ w stack, I w → Ends I (openReset h w stack) stack)
    (first : Option Fault) {w : World} (hw : I w) :
    Ends I (running w (.resetTargets t pending first :: stack)) stack := by
  induction pending generalizing w first with
  | nil => exact .cons rfl (.of_answered _ hw)
  | cons h pending ih =>
      refine .cons rfl ((resets h List.mem_cons_self w _ hw).andThen fun v r hv => ?_)
      exact ih (fun g hg => resets g (List.mem_cons_of_mem h hg)) _ hv

/-- Telling a listener of a reset ends when the resets do that it is passed on to. -/
theorem ends_tell (views : ∀ w, I w → w.IdleViews)
    (resets : ∀ h w stack, I w → Ends I (openReset h w stack) stack) {e : Event}
    (he : e.change = .reset) (l : Listener) {w : World} (hw : I w) (stack : List Frame) :
    Ends I (tell l e w stack) stack := by
  have told : ∀ heeded, I (w.record (.callback l e w.depth heeded)) :=
    fun _ => stable w _ rfl rfl hw
  cases l with
  | view name =>
      simp only [tell, tellView]
      split
      · exact .of_answered _ hw
      · rename_i v hv
        have counted : ∀ f : ViewState → ViewState, (∀ v, (f v).behavior = v.behavior) →
            I ((w.record (.callback (.view name) e w.depth (!v.behavior.deaf))).modifyView name
              f) :=
          fun f same => stable _ _ (World.layout_modifyView _ name same) rfl (told _)
        have heard := counted (fun v => { v with told := v.told + 1 }) fun _ => rfl
        have ran := counted (fun v => { v with told := v.told + 1, ran := v.ran + 1 }) fun _ => rfl
        split
        · exact .of_answered _ heard
        · rename_i ops script
          cases views w hw name v hv _ e ops script
          exact .cons rfl (.cons rfl (.of_answered _ ran))
  | sourceLink t =>
      simp only [tell]
      split
      · exact .of_answered _ (told true)
      · split
        · rw [he]
          exact ends_resetTargets (fun h _ => resets h) none (told true)
        · exact .of_answered _ (told true)
  | resetLink t =>
      simp only [tell]
      split
      · split
        · exact resets _ _ _ (told true)
        · exact .of_answered _ (told true)
      · exact .of_answered _ (told true)

end

/-- Whether a handler has keys. -/
def isFilled (w : World) (h : HandlerId) : Bool := decide (w.keysOf h ≠ ∅)

/-- How many of some handlers have keys. -/
def filled (handlers : List HandlerId) (w : World) : Nat := handlers.countP (isFilled w)

/-- A handler that is cleared is filled no longer. -/
theorem filled_reset_lt {handlers : List HandlerId} {w : World} {h : HandlerId}
    (listed : h ∈ handlers) (nonempty : w.keysOf h ≠ ∅) (present : (w.handler? h).isSome = true) :
    filled handlers (w.change h .reset) < filled handlers w := by
  have cleared : ∀ g, (w.change h .reset).keysOf g = if g = h then ∅ else w.keysOf g :=
    fun g => World.keysOf_change present .reset g
  have fewer : ∀ gs : List HandlerId, filled gs (w.change h .reset) ≤ filled gs w := by
    intro gs
    refine List.countP_mono_left fun g _ filledAfter => ?_
    rw [isFilled, decide_eq_true_eq, cleared] at filledAfter
    refine decide_eq_true fun empty => filledAfter ?_
    rw [empty, ite_self]
  have after : ¬ isFilled (w.change h .reset) h = true := by simp [isFilled, cleared]
  have before : isFilled w h = true := decide_eq_true nonempty
  -- One occurrence of the handler counts before and not after; no other begins to count.
  obtain ⟨front, back, rfl⟩ := List.append_of_mem listed
  have first := fewer front
  have last := fewer back
  rw [filled, filled] at first last ⊢
  rw [List.countP_append, List.countP_append, List.countP_cons_of_neg after,
    List.countP_cons_of_pos before]
  omega

/-- What bounds the resets to come: the filled handlers are among those listed, and they are
not many. -/
structure Bounded (L : Layout) (handlers : List HandlerId) (m : Nat) (w : World) : Prop where
  layout : w.layout = L
  listed : ∀ h, w.keysOf h ≠ ∅ → h ∈ handlers
  few : filled handlers w ≤ m

theorem Bounded.stable (L : Layout) (handlers : List HandlerId) (m : Nat) :
    Stable (Bounded L handlers m) := by
  intro w v layout keys bounded
  have same : isFilled v = isFilled w := by
    funext h
    rw [isFilled, keys, isFilled]
  refine ⟨layout.trans bounded.layout, keys ▸ bounded.listed, ?_⟩
  rw [filled, same]
  exact bounded.few

theorem Bounded.pos {L : Layout} {handlers : List HandlerId} {m : Nat} {w : World} {h : HandlerId}
    (bounded : Bounded L handlers m w) (nonempty : w.keysOf h ≠ ∅) : 0 < m :=
  Nat.lt_of_lt_of_le (List.countP_pos_iff.mpr
    ⟨h, bounded.listed h nonempty, decide_eq_true nonempty⟩) bounded.few

theorem Bounded.reset {L : Layout} {handlers : List HandlerId} {m : Nat} {w : World}
    {h : HandlerId} (bounded : Bounded L handlers (m + 1) w) (nonempty : w.keysOf h ≠ ∅) :
    Bounded L handlers m (w.change h .reset) := by
  have present := World.handler?_isSome_of_keysOf_ne nonempty
  refine ⟨(w.layout_change h .reset).trans bounded.layout, ?_, ?_⟩
  · intro g filled
    refine bounded.listed g fun empty => filled ?_
    rw [World.keysOf_change present, empty]
    exact ite_self _
  · have fewer := filled_reset_lt (bounded.listed h nonempty) nonempty present
    have few := bounded.few
    omega

/-- A reset ends, if all those end that begin with fewer filled handlers. -/
theorem ends_openReset_of_fewer {L : Layout} {handlers : List HandlerId} {m : Nat}
    (views : ∀ w : World, w.layout = L → w.IdleViews)
    (fewer : ∀ k, m = k + 1 → ∀ h w stack, Bounded L handlers k w →
      Ends (Bounded L handlers k) (openReset h w stack) stack)
    {h : HandlerId} {w : World} {stack : List Frame} (bounded : Bounded L handlers m w) :
    Ends (Bounded L handlers m) (openReset h w stack) stack := by
  have stable := Bounded.stable L handlers
  have body : ∀ w stack, Bounded L handlers m w →
      Ends (Bounded L handlers m) (clear h w stack) stack := by
    intro w stack bounded
    simp only [clear]
    split
    · exact .of_answered _ (stable m w _ rfl rfl bounded)
    · rename_i nonempty
      obtain ⟨k, rfl⟩ : ∃ k, m = k + 1 :=
        Nat.exists_eq_add_one_of_ne_zero (Nat.pos_iff_ne_zero.mp (bounded.pos nonempty))
      have announced : Bounded L handlers k
          ((w.change h .reset).note (.cleared h (w.keysOf h).size)) :=
        stable k (w.change h .reset) _ rfl rfl (bounded.reset nonempty)
      have tells : ∀ l ∈ w.listeners h, ∀ w stack, Bounded L handlers k w →
          Ends (Bounded L handlers k) (tell l ⟨h, .reset⟩ w stack) stack := by
        intro l _ w stack bounded
        exact ends_tell (stable k) (fun w bounded => views w bounded.layout) (fewer k rfl) rfl l
          bounded stack
      exact (ends_fanOut (stable k) tells none announced).mono fun w bounded =>
        ⟨bounded.layout, bounded.listed, Nat.le_succ_of_le bounded.few⟩
  simp only [openReset, openCall]
  split
  · exact .of_answered _ (stable m w _ rfl rfl bounded)
  · let entered := { w.record (.enter (.call .reset h)) with depth := w.depth + 1 }
    have inside : Bounded L handlers m entered := stable m w entered rfl rfl bounded
    refine .cons rfl ((body entered (.call .reset h :: stack) inside).andThen fun v r after => ?_)
    exact .of_answered _ (stable m v _ rfl rfl after)

/-- Every reset ends, when no view runs operations. -/
theorem ends_openReset {L : Layout} {handlers : List HandlerId}
    (views : ∀ w : World, w.layout = L → w.IdleViews) (m : Nat) (h : HandlerId) (w : World)
    (stack : List Frame) (bounded : Bounded L handlers m w) :
    Ends (Bounded L handlers m) (openReset h w stack) stack := by
  induction m generalizing h w stack with
  | zero =>
      exact ends_openReset_of_fewer views (fun k none => absurd none.symm k.succ_ne_zero) bounded
  | succ m ih =>
      refine ends_openReset_of_fewer views ?_ bounded
      rintro k same h w stack fewer
      cases same
      exact ih h w stack fewer

end HighlightSync.Config
