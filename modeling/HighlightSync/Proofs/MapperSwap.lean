import HighlightSync.Proofs.Links

/-!
# What a mapper is swapped over

A new mapper takes the place of the old one when the reset of the source has come to a
reply, whatever the reply is. By then the reset has cleared the source, if it was carried
out. A key that is highlighted there all the same has come back while the reset was told to
listeners, and a highlight event of the source announced it (`HighlightedSince`). So the
mapper is swapped over an empty source, if the reset is not refused for its depth and
nobody highlights keys on the source while it is under way (`keysOf_eq_empty_of_swap`).

The first condition is needed: a reset that is refused leaves the source as it is, and the
mapper is swapped nevertheless (`swap_over_keys`).
-/

namespace HighlightSync

namespace World

/-- Every key of a handler was announced as highlighted since an earlier world. -/
structure HighlightedSince (start : World) (h : HandlerId) (w : World) : Prop where
  before : start.announced <+: w.announced
  announced : ∀ k ∈ w.keysOf h,
    ∃ keys, k ∈ keys ∧ ⟨h, .move .highlight keys⟩ ∈ start.announcedSince w

theorem mem_keysOf_change {w : World} {g h : HandlerId} {c : Change} {k : Key}
    (mem : k ∈ (w.change g c).keysOf h) :
    k ∈ w.keysOf h ∨ h = g ∧ ∃ keys, k ∈ keys ∧ c = .move .highlight keys := by
  by_cases here : h = g
  · subst here
    have present : (w.handler? h).isSome = true := by
      rw [← handler?_isSome_of_layout (w.layout_change h c)]
      exact handler?_isSome_of_keysOf_ne fun empty => KeySet.not_mem_empty k (empty ▸ mem)
    rw [keysOf_change present, if_pos rfl] at mem
    cases c with
    | reset => exact absurd mem (KeySet.not_mem_empty k)
    | move d keys =>
        cases d with
        | highlight =>
            exact (Direction.mem_apply_highlight.mp mem).symm.imp id
              fun new => ⟨rfl, keys, new, rfl⟩
        | unhighlight => exact .inl (Direction.mem_apply_unhighlight.mp mem).1
  · exact .inl (keysOf_change_of_ne c here ▸ mem)

namespace HighlightedSince

variable {start w v : World} {h : HandlerId}

theorem of_empty (before : start.announced <+: w.announced) (empty : w.keysOf h = ∅) :
    start.HighlightedSince h w :=
  ⟨before, fun k mem => absurd (empty ▸ mem) (KeySet.not_mem_empty k)⟩

theorem congr (since : start.HighlightedSince h w) (keys : v.keysOf = w.keysOf)
    (announced : v.announced = w.announced) : start.HighlightedSince h v := by
  refine ⟨announced ▸ since.before, fun k mem => ?_⟩
  rw [announcedSince, announced]
  exact since.announced k (keys ▸ mem)

theorem change (since : start.HighlightedSince h w) {g : HandlerId} {c : Change}
    (keys : v.keysOf = (w.change g c).keysOf) (announced : v.announced = w.announced ++ [⟨g, c⟩]) :
    start.HighlightedSince h v := by
  refine ⟨since.before.trans ⟨_, announced.symm⟩, fun k mem => ?_⟩
  rw [announcedSince_append since.before announced]
  rw [keys] at mem
  obtain old | ⟨rfl, new, hk, rfl⟩ := mem_keysOf_change mem
  · obtain ⟨new, hk, event⟩ := since.announced k old
    exact ⟨new, hk, List.mem_append_left _ event⟩
  · exact ⟨new, hk, List.mem_append_right _ (List.mem_singleton_self _)⟩

end HighlightedSince

end World

namespace Config

theorem highlightedSince_step {start : World} {h : HandlerId} {c d : Config}
    (hs : c.step = some d) (since : start.HighlightedSince h c.world) :
    start.HighlightedSince h d.world := by
  cases step_delivers hs with
  | silent _ observed =>
      exact since.congr (congrArg Observed.keys observed) (congrArg Observed.announced observed)
  | told _ _ _ observed =>
      exact since.congr (congrArg Observed.keys observed) (congrArg Observed.announced observed)
  | skipped _ _ _ _ observed =>
      exact since.congr (congrArg Observed.keys observed) (congrArg Observed.announced observed)
  | announced _ _ _ _ _ observed =>
      exact since.change (congrArg Observed.keys observed) (congrArg Observed.announced observed)

theorem highlightedSince_steps {start : World} {h : HandlerId} {n : Nat} {c d : Config}
    (run : Steps n c d) (since : start.HighlightedSince h c.world) :
    start.HighlightedSince h d.world := by
  induction run with
  | refl _ => exact since
  | cons hs _ ih => exact ih (highlightedSince_step hs since)

/-- When a reset has cleared its handler, or found it empty, all keys that come later are
announced. -/
theorem highlightedSince_clear {start : World} (h : HandlerId) (w : World) (stack : List Frame)
    (before : start.announced <+: w.announced) :
    start.HighlightedSince h (clear h w stack).world := by
  simp only [clear]
  split
  · rename_i empty
    have same := World.observed_note w (n := .nothingToReset h) rfl
    exact (World.HighlightedSince.of_empty before empty).congr
      (congrArg Observed.keys same) (congrArg Observed.announced same)
  · rename_i nonempty
    have observed := observed_announce (n := .cleared h (w.keysOf h).size) rfl w stack
    have keys : (announce h .reset (.cleared h (w.keysOf h).size) w stack).world.keysOf =
        (w.change h .reset).keysOf := congrArg Observed.keys observed
    have announced := congrArg Observed.announced observed
    refine .of_empty (before.trans ⟨_, announced.symm⟩) ?_
    rw [keys, World.keysOf_change (World.handler?_isSome_of_keysOf_ne nonempty), if_pos rfl]
    rfl

/-- Where a reset that is carried out has come to after some steps, all keys of its handler
were announced since it began. -/
theorem highlightedSince_openReset {h : HandlerId} {w : World} {stack : List Frame}
    (accepted : ((w.handler? h).bind fun s => s.settings.refuses? w.depth) = none) {n : Nat}
    {w' : World} {below : List Frame} {r : Reply}
    (run : Steps n (openReset h w stack) (answered w' below r)) : w.HighlightedSince h w' := by
  have opened : openReset h w stack =
      running { w.record (.enter (.call .reset h)) with depth := w.depth + 1 }
        (.clearing h :: .call .reset h :: stack) := by
    simp only [openReset, openCall, World.handler?_record, World.depth_record, accepted]
  rw [opened] at run
  cases run with
  | cons hs run =>
      cases hs
      have entered := w.observed_record (r := .enter (.call .reset h)) rfl rfl
      have before := congrArg Observed.announced entered
      exact highlightedSince_steps run (highlightedSince_clear h _ _ ⟨[], by
        rw [List.append_nil]
        exact before.symm⟩)

/-- A mapper is swapped over an empty source, if the reset of the source was not refused and
nobody highlighted keys on the source while it was under way. This holds at any nesting, and
whatever the reset replied. -/
theorem keysOf_eq_empty_of_swap {w w' : World} {name : String} {spec : Option (MapperSpec Op)}
    {t : TranslatorId} {s : TranslatorState} (named : w.translatorNamed? name = some t)
    (found : w.translator? t = some s)
    (accepted : ((w.handler? s.source).bind fun h => h.settings.refuses? w.depth) = none)
    {stack below : List Frame} {m : Option MapperId} {n : Nat} {r : Reply}
    (run : Steps n (perform (.swapMapper name spec) w stack) (answered w' (.swap t m :: below) r))
    (quiet : ∀ keys, ⟨s.source, .move .highlight keys⟩ ∉ w.announcedSince w') :
    w'.keysOf s.source = ∅ := by
  have since : w.HighlightedSince s.source w' := by
    simp only [perform, onTranslator, named, found] at run
    cases spec with
    | none => exact highlightedSince_openReset accepted run
    | some spec =>
        obtain ⟨before, announced⟩ :=
          highlightedSince_openReset (w := (w.addMapperOf spec).2) accepted run
        exact ⟨before, announced⟩
  rw [KeySet.eq_empty_iff]
  intro k mem
  obtain ⟨keys, -, event⟩ := since.announced k mem
  exact quiet keys event

section Examples

/-- Whether a mapper is about to be swapped for another, in a world and with a reply that pass
a test. -/
def isSwapping (t : TranslatorId) (m : Option MapperId) (p : World → Reply → Bool)
    (c : Config) : Bool :=
  match c.stack, c.reply with
  | .swap u n :: _, some r =>
      decide (u = t) && decide (n = m) &&
        (c.world.translator? t).any (fun s => decide (s.mapper ≠ m)) && p c.world r
  | _, _ => false

theorem exists_of_isSwapping {t : TranslatorId} {m : Option MapperId} {p : World → Reply → Bool}
    {c : Config} (h : isSwapping t m p c = true) :
    ∃ w below r s, c = answered w (.swap t m :: below) r ∧ w.translator? t = some s ∧
      s.mapper ≠ m ∧ p w r = true := by
  rw [isSwapping] at h
  split at h
  · rename_i u n below r top reply
    simp only [Bool.and_eq_true, decide_eq_true_eq] at h
    obtain ⟨⟨⟨rfl, rfl⟩, mapper⟩, passes⟩ := h
    obtain ⟨s, found, new⟩ := (Option.any_eq_true _ _).mp mapper
    obtain ⟨w, stack, reply'⟩ := c
    cases top
    cases reply
    exact ⟨w, below, r, s, rfl, found, of_decide_eq_true new, passes⟩
  · cases h

/-- A translator, and a view on its source that cannot take a reset. -/
def fragile : List (Action Op) :=
  [.createHandler "h" .plain, .createHandler "g" .plain,
    .createListener "v" { onlooker with
      fault := fun κ => if κ = .reset then some (.given (.listener "v" "no")) else none },
    .addListener "h" "v", .createTranslator "t" "h" (some echo), .addTarget "t" "g"]

/-- The same when a key has been highlighted on the source. -/
def fragileLit : World :=
  ((perform (.move .highlight "h" ⟨none, [.key (.int 1)]⟩) (.built fragile) []).run 100).elim ∅
    Config.world

/-- A mapper is swapped over an empty source although the reset reports a fault. -/
theorem keysOf_eq_empty_of_swap_fragile :
    fragileLit.keysOf ⟨1⟩ ≠ ∅ ∧ ∃ (n : Nat) (w' : World) (below : List Frame) (r : Reply),
      Steps n (perform (.swapMapper "t" none) fragileLit [])
        (answered w' (.swap ⟨1⟩ none :: below) r) ∧
        r.fault?.isSome = true ∧ w'.keysOf ⟨1⟩ = ∅ := by
  refine ⟨by decide +kernel, ?_⟩
  have runs : (follow (fun _ => true) 17 (perform (.swapMapper "t" none) fragileLit [])).any
      (isSwapping ⟨1⟩ none fun w r => r.fault?.isSome &&
        decide (∀ e ∈ fragileLit.announcedSince w, e.change = .reset)) = true := by
    decide +kernel
  obtain ⟨c, followed, swapping⟩ := (Option.any_eq_true _ _).mp runs
  obtain ⟨w', below, r, -, rfl, -, -, passes⟩ := exists_of_isSwapping swapping
  rw [Bool.and_eq_true, decide_eq_true_eq] at passes
  obtain ⟨faulty, resets⟩ := passes
  have made : (fragileLit.translator? ⟨1⟩).any (fun s => decide (s.source = ⟨1⟩)) = true := by
    decide +kernel
  obtain ⟨s, found, source⟩ := (Option.any_eq_true _ _).mp made
  have source : s.source = ⟨1⟩ := of_decide_eq_true source
  have named : fragileLit.translatorNamed? "t" = some ⟨1⟩ := by decide +kernel
  have accepted : ((fragileLit.handler? s.source).bind fun h =>
      h.settings.refuses? fragileLit.depth) = none := by
    rw [source]
    decide +kernel
  have steps := steps_of_follow followed
  refine ⟨17, w', below, r, steps, faulty, source ▸
    keysOf_eq_empty_of_swap named found accepted steps fun keys event => ?_⟩
  cases resets _ event

/-- A translator whose source may not be reset by the view that watches it, since the limit of
its depth is one, and the view takes the mapper away. -/
def shallow : List (Action Op) :=
  [.createHandler "h" ⟨none, some 1⟩, .createHandler "g" .plain,
    .createListener "v" { onlooker with
      script := fun κ => if κ = .highlight then some [.swapMapper "t" none] else none
      times := 1 },
    .createTranslator "t" "h" (some echo), .addTarget "t" "g", .addListener "h" "v"]

/-- A mapper may be swapped over keys that were translated with it: the reset was refused. -/
theorem swap_over_keys :
    ∃ (w : World) (t : TranslatorId) (m : Option MapperId) (below : List Frame) (r : Reply)
      (s : TranslatorState), Reached (answered w (.swap t m :: below) r) ∧
        w.translator? t = some s ∧ s.mapper ≠ m ∧ w.keysOf s.source ≠ ∅ := by
  obtain ⟨reply, built⟩ := reached_built shallow
  have runs : (follow (fun _ => true) 20
      (perform (.move .highlight "h" ⟨none, [.key (.int 1)]⟩) (.built shallow) [])).any
      (isSwapping ⟨1⟩ none fun w _ =>
        (w.translator? ⟨1⟩).all fun s => decide (w.keysOf s.source ≠ ∅)) = true := by
    decide +kernel
  obtain ⟨c, followed, swapping⟩ := (Option.any_eq_true _ _).mp runs
  obtain ⟨w, below, r, s, rfl, found, new, filled⟩ := exists_of_isSwapping swapping
  have reached := Reached.steps (.tail built (.perform _ (atRest_iff.mpr rfl)) trivial)
    (steps_of_follow followed)
  rw [found] at filled
  exact ⟨w, ⟨1⟩, none, below, r, s, reached, found, new, of_decide_eq_true filled⟩

end Examples

end Config

end HighlightSync
