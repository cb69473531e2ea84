import HighlightSync.Proofs.Spreading

/-!
# Each step of a cascade spreads it

The case analysis behind the search: what every frame does to the spots that are offered,
when it goes on and when it is handed a reply. The cases follow the step function, and
`step_spreads` joins them.
-/

namespace HighlightSync.Config

section

variable {L : Layout} {κ : ChangeKind} {w : World} {stack : List Frame}

theorem goesOn_openCall (kind : ChangeKind) (h : HandlerId) {body : Frame} (fits : body.Fits L) :
    GoesOn L κ w stack (body.Offers L) (openCall kind h body w stack) := by
  have entered : w.SameSets (w.record (.enter (.call kind h))) := .record w rfl
  simp only [openCall]
  split
  · rename_i limit _
    refine .cut _ ((entered.trans (.note _ rfl)).trans (.record _ rfl))
      (n := .cascadeRefused h (w.record (.enter (.call kind h))).depth limit) ?_
    rw [World.cuts_record κ _ (by simp), World.cuts_note, World.cuts_record κ _ (by simp)]
    rfl
  · refine .under (.running fits entered fun _ => Iff.rfl) trivial ?_
    exact fun x => (or_iff_left not_false).symm

theorem goesOn_openMoveSet (d : Direction) {h : HandlerId} (present : (L.handler h).isSome = true)
    (keys : KeySet) : GoesOn L κ w stack (fun x => x.1 = h ∧ ∃ k ∈ keys, x.2 = some k)
      (openMoveSet d h keys w stack) := by
  let reading := Frame.reading h (.move d) none (keys.toList.map .key) []
  have call : GoesOn L κ w stack (reading.Offers L) (openCall d.kind h reading w stack) :=
    goesOn_openCall d.kind h (show reading.Fits L from present)
  refine ⟨call.fits, call.same, fun x hx => (call.fewer x hx).imp ?_ id,
    fun x hx => call.kept x (hx.imp ?_ id)⟩
  · rintro ⟨here, k, spot, taken | pulled⟩
    · cases taken
    · obtain ⟨j, hj, same⟩ := List.mem_map.mp pulled
      cases same
      exact ⟨here, k, hj, spot⟩
  · rintro ⟨here, k, hk, spot⟩
    exact ⟨here, k, spot, .inr (List.mem_map_of_mem hk)⟩

theorem goesOn_openReset (h : HandlerId) :
    GoesOn L κ w stack (fun x => x = (h, none)) (openReset h w stack) :=
  goesOn_openCall .reset h (show (Frame.clearing h).Fits L from trivial)

/-- To forward keys is to visit their fine keys on all targets. -/
theorem goesOn_tellForward (regular : L.Regular κ) {t : TranslatorId} {s : TranslatorState}
    (ht : L.translator? t = some s) (alive : s.live = true) (d : Direction) (keys : KeySet) :
    GoesOn L κ w stack
      (fun x => ∃ y, (Change.move d keys).touches y = true ∧ L.Passes (.sourceLink t) y x)
      (tellForward t s d keys w stack) := by
  have entered : w.SameSets (w.record (.enter .forward)) := .record w rfl
  have forwards : (Frame.forward t).Fits L := by
    rw [Frame.Fits, Layout.isLive, ht]
    exact alive
  have split : ∀ x, (∃ y, (Change.move d keys).touches y = true ∧ L.Passes (.sourceLink t) y x) ↔
      ∃ m, s.mapper = some m ∧ x.1 ∈ s.targetHandlers ∧
        ∃ j, x.2 = some j ∧ ∃ k ∈ keys, j ∈ L.fine m k := by
    rintro ⟨target, y⟩
    constructor
    · rintro ⟨z, touched, passes⟩
      cases passes with
      | fine ht' _ mapper target fine =>
          cases ht.symm.trans ht'
          exact ⟨_, mapper, target, _, rfl, _, of_decide_eq_true touched, fine⟩
      | down => cases touched
    · rintro ⟨m, mapper, target, j, rfl, k, hk, fine⟩
      exact ⟨some k, decide_eq_true hk, .fine ht alive mapper target fine⟩
  simp only [tellForward]
  split
  · rename_i mapper
    refine .under (.answered .done entered fun x hx => absurd hx id) forwards fun x => ?_
    rw [split, mapper]
    exact iff_of_false (by simp) (fun h => h.elim id id)
  · rename_i targets
    refine .under (.answered .done entered fun x hx => absurd hx id) forwards fun x => ?_
    rw [split, targets]
    exact iff_of_false (by simp) (fun h => h.elim id id)
  · rename_i m mapper _
    refine .under (.running ⟨regular.targets t s ht, by simp⟩ entered fun x => Iff.rfl) forwards ?_
    intro x
    rw [split]
    constructor
    · rintro ⟨m', found, target, j, spot, k, hk, fine⟩
      cases mapper.symm.trans found
      exact .inl ⟨target, j, spot, .inr ⟨k, hk, fine⟩⟩
    · rintro (⟨target, j, spot, ⟨_, none, _⟩ | ⟨k, hk, fine⟩⟩ | none)
      · cases none
      · exact ⟨m, mapper, target, j, spot, k, hk, fine⟩
      · cases none

theorem goesOn_tellView (name : String) (e : Event) :
    GoesOn L κ w stack (fun x => ∃ y, e.change.touches y = true ∧ L.Passes (.view name) y x)
      (tell (.view name) e w stack) := by
  have nowhere : ∀ x, ¬ ∃ y, e.change.touches y = true ∧ L.Passes (.view name) y x := by
    rintro x ⟨y, -, passes⟩
    cases passes
  have told : ∀ heeded, w.SameSets (w.record (.callback (.view name) e w.depth heeded)) :=
    fun _ => .record w rfl
  simp only [tell, tellView]
  split
  · exact .answered _ (.refl w) fun x hx => absurd hx (nowhere x)
  · rename_i v _
    split
    · exact .answered _ (told _) fun x hx => absurd hx (nowhere x)
    · refine .under (.silently trivial (told (!v.behavior.deaf)) (fun _ => id) nowhere) trivial ?_
      exact fun x => (or_iff_left not_false).symm

/-- Source links of live translators pass keys and resets on to the targets. -/
theorem goesOn_tellSource (regular : L.Regular κ) (layout : w.layout = L)
    (fits : ∀ f ∈ stack, f.Fits L) (t : TranslatorId) (e : Event) :
    GoesOn L κ w stack (fun x => ∃ y, e.change.touches y = true ∧ L.Passes (.sourceLink t) y x)
      (tell (.sourceLink t) e w stack) := by
  have told : w.SameSets (w.record (.callback (.sourceLink t) e w.depth true)) := .record w rfl
  have translators : L.translator? = w.translator? := by
    rw [← layout]
    rfl
  simp only [tell]
  split
  · rename_i unknown
    refine .answered _ told fun x => ?_
    rintro ⟨y, -, passes⟩
    cases passes with
    | fine known => cases (translators ▸ known).symm.trans unknown
    | down known => cases (translators ▸ known).symm.trans unknown
  · rename_i s known
    have ht : L.translator? t = some s := translators ▸ known
    have works : (w.record (.callback (.sourceLink t) e w.depth true)).isAtWork stack t =
        L.isLive t := isAtWork_eq layout fits t
    rw [works, Layout.isLive, ht, Option.any_some]
    split
    · rename_i alive
      split
      · rename_i d keys moves
        rw [moves]
        exact (goesOn_tellForward regular ht alive d keys).congr told (w.cuts_record κ (by simp))
      · rename_i resets
        refine .running (by rw [Frame.Fits, Layout.isLive, ht]; exact alive) told ?_
        intro x
        rw [resets]
        constructor
        · rintro ⟨target, whole⟩
          obtain ⟨g, y⟩ := x
          cases whole
          exact ⟨none, rfl, .down ht alive target⟩
        · rintro ⟨y, touched, passes⟩
          cases passes with
          | fine => cases touched
          | down ht' _ target =>
              cases ht.symm.trans ht'
              exact ⟨target, rfl⟩
    · rename_i dropped
      refine .answered _ told fun x => ?_
      rintro ⟨y, -, passes⟩
      cases passes with
      | fine ht' alive =>
          cases ht.symm.trans ht'
          exact absurd alive dropped
      | down ht' alive =>
          cases ht.symm.trans ht'
          exact absurd alive dropped

/-- Reset links pass resets back to the source, if their translator is live. -/
theorem goesOn_tellReset (layout : w.layout = L) {t : TranslatorId} {e : Event}
    (live : e.change = .reset → L.isLive t = true) :
    GoesOn L κ w stack (fun x => ∃ y, e.change.touches y = true ∧ L.Passes (.resetLink t) y x)
      (tell (.resetLink t) e w stack) := by
  have told : w.SameSets (w.record (.callback (.resetLink t) e w.depth true)) := .record w rfl
  have translators : L.translator? = w.translator? := by
    rw [← layout]
    rfl
  simp only [tell]
  split
  · rename_i s known resets
    have ht : L.translator? t = some s := translators ▸ known
    have alive : s.live = true := by
      have lives := live resets
      rwa [Layout.isLive, ht] at lives
    have held : (w.record (.callback (.resetLink t) e w.depth true)).isHeld stack s.source = true :=
      isHeld_source known alive
    rw [if_pos held, resets]
    obtain ⟨fits, same, fewer, kept⟩ : GoesOn L κ w stack (fun x => x = (s.source, none))
        (openReset s.source (w.record (.callback (.resetLink t) e w.depth true)) stack) :=
      (goesOn_openReset s.source).congr told (w.cuts_record κ (by simp))
    have split : ∀ x, x = (s.source, none) ↔
        ∃ y, Change.touches .reset y = true ∧ L.Passes (.resetLink t) y x := by
      intro x
      constructor
      · rintro rfl
        exact ⟨none, rfl, .back ht alive⟩
      · rintro ⟨y, -, passes⟩
        cases passes with
        | back ht' =>
            cases ht.symm.trans ht'
            rfl
    exact ⟨fits, same, fun x hx => (fewer x hx).imp (split x).mp id,
      fun x hx => kept x (hx.imp (split x).mpr id)⟩
  · rename_i idle
    refine .answered _ told fun x => ?_
    rintro ⟨y, touched, passes⟩
    cases passes with
    | back ht' =>
        cases resets : e.change with
        | reset => exact absurd resets (idle _ (translators ▸ ht'))
        | move d keys =>
            rw [resets] at touched
            cases touched

theorem goesOn_tell (regular : L.Regular κ) (layout : w.layout = L) (fits : ∀ f ∈ stack, f.Fits L)
    (l : Listener) (e : Event)
    (live : e.change = .reset → ∀ t, l = .resetLink t → L.isLive t = true) :
    GoesOn L κ w stack (fun x => ∃ y, e.change.touches y = true ∧ L.Passes l y x)
      (tell l e w stack) := by
  cases l with
  | view name => exact goesOn_tellView name e
  | sourceLink t => exact goesOn_tellSource regular layout fits t e
  | resetLink t => exact goesOn_tellReset layout fun resets => live resets t rfl

/-- An announcement visits the spots of its change, and offers their successors. -/
theorem announces_announce (regular : L.Regular κ) (layout : w.layout = L) {replaced : Spot → Prop}
    {h : HandlerId} {change : Change} {n : Note} (announces : n.announced? = some ⟨h, change⟩)
    (kind : change.kind = κ) (proper : change.Proper (w.keysOf h))
    (present : (w.handler? h).isSome = true)
    (visited : ∀ y, change.touches y = true → replaced (h, y))
    (others : ∀ x, replaced x → (x.1 = h ∧ change.touches x.2 = true) ∨ ¬ w.Ripe κ x) :
    Announces L κ w stack replaced h change (announce h change n w stack) := by
  have observed := observed_announce announces w stack
  have registered : w.listeners h = L.listeners h := by rw [← layout, listeners_layout]
  refine ⟨.running ?_, kind, proper, ⟨congrArg Observed.keys observed,
    congrArg Observed.announced observed⟩, present, visited, others, fun x => ?_⟩
  · intro resets t ht
    rw [show change = .reset from resets] at kind
    exact regular.live kind.symm h t (registered ▸ ht)
  · rw [announce, offers_running]
    refine or_congr ?_ Iff.rfl
    constructor
    · rintro ⟨l, hl, y, touched, passes⟩
      exact ⟨y, touched, l, registered ▸ hl, passes⟩
    · rintro ⟨y, touched, l, hl, passes⟩
      have told : l ∈ w.listeners h := registered.symm ▸ hl
      exact ⟨l, told, y, touched, passes⟩

theorem spreads_finishReading (regular : L.Regular κ) (layout : w.layout = L) {h : HandlerId}
    {d : Direction} (kind : d.kind = κ) (present : (L.handler h).isSome = true)
    (taken : List Key) : Spreads L κ w stack
      (fun x => x.1 = h ∧ ∃ k, x.2 = some k ∧ (k ∈ taken ∨ Pull.key k ∈ ([] : List (Pull Op))))
      (finishReading h (.move d) taken w stack) := by
  have moves : ∀ k, k ∈ d.effect (.ofList taken.reverse) (w.keysOf h) ↔
      k ∈ taken ∧ ¬ d.Settled (w.keysOf h) k := by
    intro k
    rw [Direction.mem_effect, KeySet.mem_ofList, List.mem_reverse]
  have settled : ∀ x : Spot, (x.1 = h ∧ ∃ k, x.2 = some k ∧
      (k ∈ taken ∨ Pull.key k ∈ ([] : List (Pull Op)))) →
      (∃ k, x = (h, some k) ∧ k ∈ d.effect (.ofList taken.reverse) (w.keysOf h)) ∨
        ¬ w.Ripe κ x := by
    rintro ⟨g, y⟩ ⟨rfl, k, rfl, taken | none⟩
    · refine (Classical.em (d.Settled (w.keysOf g) k)).symm.imp (fun open_ => ?_) fun settled => ?_
      · exact ⟨k, rfl, (moves k).mpr ⟨taken, open_⟩⟩
      · rw [World.Ripe, ← kind, Change.ripe_move_iff]
        exact not_not_intro settled
    · cases none
  simp only [finishReading]
  split
  · rename_i nothing
    refine .inl (.answered _ (.note _ rfl) fun x hx => (settled x hx).resolve_left ?_)
    rintro ⟨k, -, moved⟩
    rw [nothing] at moved
    exact KeySet.not_mem_empty k moved
  · rename_i something
    refine .inr ⟨h, _, announces_announce regular layout rfl kind
      ⟨something, fun k moved => ((moves k).mp moved).2⟩ ?_ ?_ ?_⟩
    · rw [← handler_layout_isSome, layout]
      exact present
    · intro y touched
      cases y with
      | none => cases touched
      | some k => exact ⟨rfl, k, rfl, .inl ((moves k).mp (of_decide_eq_true touched)).1⟩
    · intro x hx
      refine (settled x hx).imp ?_ id
      rintro ⟨k, rfl, moved⟩
      exact ⟨rfl, decide_eq_true moved⟩

theorem spreads_clear (regular : L.Regular κ) (layout : w.layout = L) (kind : κ = .reset)
    (h : HandlerId) : Spreads L κ w stack (fun x => x = (h, none)) (clear h w stack) := by
  subst kind
  simp only [clear]
  split
  · rename_i empty
    refine .inl (.answered _ (.note _ rfl) ?_)
    rintro x rfl
    exact not_not_intro empty
  · rename_i nonempty
    refine .inr ⟨h, .reset, announces_announce regular layout rfl rfl nonempty ?_ ?_ ?_⟩
    · exact World.handler?_isSome_of_keysOf_ne nonempty
    · intro y touched
      cases y with
      | none => rfl
      | some k => cases touched
    · rintro x rfl
      exact .inl ⟨rfl, rfl⟩

theorem answer_ask (regular : L.Regular κ) (layout : w.layout = L) (moves : κ ≠ .reset)
    (m : MapperId) (k : Key) : (ask m k w).1 = L.answer m k := by
  have known : L.mapper m = (w.mapper? m).map fun s => { s with asked := 0 } := by
    rw [← layout]
    rfl
  have steady := regular.steady moves m
  rw [ask]
  rw [Layout.answer]
  split
  · rename_i unknown
    rw [known, unknown]
    rfl
  · rename_i s found
    rw [found, Option.map_some] at known
    rw [known]
    exact steady _ known _ _ k

theorem sameSets_ask (m : MapperId) (k : Key) (w : World) : w.SameSets (ask m k w).2.2 := by
  have observed := observed_ask m k w
  exact ⟨congrArg Observed.keys observed, congrArg Observed.announced observed⟩

/-- What a mapper has not been asked about, and what it has answered. -/
theorem goesOn_finishMapping {t : TranslatorId} {m : MapperId} (d : Direction)
    {targets : List HandlerId} (present : ∀ h ∈ targets, (L.handler h).isSome = true)
    (keys : KeySet) (mapped : List KeySet) (held : Option Answer) :
    GoesOn L κ w stack (Frame.mapping t d m targets keys [] mapped held |>.Offers L)
      (finishMapping d targets keys mapped w stack) := by
  have union : ∀ x : Spot, (Frame.mapping t d m targets keys [] mapped held).Offers L x ↔
      x.1 ∈ targets ∧ ∃ k ∈ KeySet.unionAll mapped, x.2 = some k := by
    intro x
    constructor
    · rintro ⟨target, k, spot, ⟨s, hs, hk⟩ | ⟨j, none, -⟩⟩
      · exact ⟨target, k, KeySet.mem_unionAll.mpr ⟨s, hs, hk⟩, spot⟩
      · cases none
    · rintro ⟨target, k, hk, spot⟩
      exact ⟨target, k, spot, .inl (KeySet.mem_unionAll.mp hk)⟩
  simp only [finishMapping]
  split
  · rename_i nothing
    refine .answered _ (.note _ rfl) fun x hx => ?_
    obtain ⟨-, k, hk, -⟩ := (union x).mp hx
    rw [nothing] at hk
    exact absurd hk (KeySet.not_mem_empty k)
  · exact .running present (.note _ rfl) fun x => (union x).symm

theorem goesOn_readKey {h : HandlerId} {purpose : Purpose}
    (fits : (L.handler h).isSome = true) (k : Key) (ks taken : List Key) :
    GoesOn L κ w stack ((Frame.reading h purpose none ((k :: ks).map Pull.key) taken).Offers L)
      (advance (.reading h purpose none ((k :: ks).map Pull.key) taken) w stack) := by
  refine .running fits (.record w rfl) fun x => ?_
  refine and_congr_right fun _ => exists_congr fun j => and_congr_right fun _ => ?_
  rw [Option.all_none, if_pos rfl, List.map_cons, List.mem_cons, List.mem_cons,
    or_comm (a := j = k), or_assoc]
  refine or_congr_right (or_congr_left ⟨fun e => e ▸ rfl, fun e => ?_⟩)
  cases e
  rfl

theorem goesOn_ask (regular : L.Regular κ) (layout : w.layout = L) {t : TranslatorId}
    {d : Direction} {m : MapperId} {targets : List HandlerId} {keys : KeySet} {k : Key}
    {pending : List Key} {mapped : List KeySet} {held : Option Answer}
    (cascades : (Frame.mapping t d m targets keys (k :: pending) mapped held).Cascades κ)
    (present : ∀ h ∈ targets, (L.handler h).isSome = true) :
    GoesOn L κ w stack ((Frame.mapping t d m targets keys (k :: pending) mapped held).Offers L)
      (advance (.mapping t d m targets keys (k :: pending) mapped held) w stack) := by
  have moves : κ ≠ .reset := by
    rintro rfl
    cases d <;> cases cascades
  have answers : (ask m k w).1 = L.answer m k := answer_ask regular layout moves m k
  refine .under (.silently trivial (sameSets_ask m k w) (fun _ => id) fun _ => id)
    ⟨present, ?_⟩ fun x => (or_iff_right not_false).symm
  intro a ha
  cases ha
  exact ⟨k, pending, rfl, answers⟩

theorem spreads_advance (regular : L.Regular κ) (layout : w.layout = L) {f : Frame}
    (cascades : f.Cascades κ) (fits : f.Fits L) (below : ∀ g ∈ stack, g.Fits L) :
    Spreads L κ w stack (f.Offers L) (advance f w stack) := by
  have all : ∀ g ∈ f :: stack, g.Fits L := List.forall_mem_cons.mpr ⟨fits, below⟩
  cases f with
  | script pending first =>
      cases cascades
      exact .inl (.answered _ (.refl w) fun _ => False.elim)
  | reading h purpose filter pulls taken =>
      obtain ⟨⟨d, rfl, kind⟩, rfl, ks, rfl⟩ := cascades
      cases ks with
      | nil => exact spreads_finishReading regular layout kind fits taken
      | cons k ks => exact .inl (goesOn_readKey fits k ks taken)
  | clearing h => exact spreads_clear regular layout cascades h
  | fanOut e pending first =>
      cases pending with
      | nil =>
          refine .inl (.answered _ (.refl w) ?_)
          rintro x ⟨l, none, -⟩
          cases none
      | cons l pending =>
          have told := goesOn_tell regular layout all l e
            fun resets t ht => fits resets t (ht ▸ List.mem_cons_self)
          refine .inl (told.under fits fun x => ?_)
          simp [Frame.Offers, Frame.waiting]
  | mapping t d m targets keys pending mapped held =>
      cases pending with
      | nil => exact .inl (goesOn_finishMapping d fits.1 keys mapped held)
      | cons k pending => exact .inl (goesOn_ask regular layout cascades fits.1)
  | forwarding d keys targets pending first =>
      cases pending with
      | nil =>
          refine .inl (.answered _ (.refl w) ?_)
          rintro x ⟨none, -⟩
          cases none
      | cons h pending =>
          have present := fits h List.mem_cons_self
          refine .inl ((goesOn_openMoveSet d present keys).under fits fun x => ?_)
          simp [Frame.Offers, Frame.waiting, or_and_right]
  | resetTargets t pending first =>
      cases pending with
      | nil =>
          refine .inl (.answered _ (.refl w) ?_)
          rintro x ⟨none, -⟩
          cases none
      | cons h pending =>
          refine .inl ((goesOn_openReset h).under fits fun x => ?_)
          simp [Frame.Offers, Frame.waiting, or_and_right, Prod.ext_iff]
  | call kind h =>
      exact .inl (.under (.answered .done (.refl w) fun _ => False.elim) trivial
        fun x => (or_iff_left not_false).symm)
  | callback propagate fault =>
      exact .inl (.under (.answered .done (.refl w) fun _ => False.elim) trivial
        fun x => (or_iff_left not_false).symm)
  | forward t =>
      exact .inl (.under (.answered .done (.refl w) fun _ => False.elim) fits
        fun x => (or_iff_left not_false).symm)
  | swap t m => cases cascades

theorem spreads_resume {f : Frame} (cascades : f.Cascades κ) (fits : f.Fits L) (r : Reply) :
    Spreads L κ w stack (f.waiting.Offers L) (resume f r w stack) := by
  cases f with
  | script pending first =>
      cases cascades
      exact .inl (.answered _ (.refl w) fun _ => False.elim)
  | reading h purpose filter pulls taken =>
      obtain ⟨-, rfl, ks, rfl⟩ := cascades
      cases ks with
      | nil => exact .inl (.running fits (.refl w) fun _ => Iff.rfl)
      | cons k ks => exact .inl (.running fits (.refl w) fun _ => Iff.rfl)
  | clearing h => exact .inl (.running trivial (.refl w) fun _ => Iff.rfl)
  | call kind h => exact .inl (.answered _ (.record _ rfl) fun _ => False.elim)
  | fanOut e pending first =>
      refine .inl (.running (fun resets t ht => fits resets t (List.mem_of_mem_tail ht)) ?_
        fun _ => Iff.rfl)
      split
      · exact .note w rfl
      · exact .refl w
  | callback propagate fault => exact .inl (.answered _ (.refl w) fun _ => False.elim)
  | forward t => exact .inl (.answered _ (.record w rfl) fun _ => False.elim)
  | forwarding d keys targets pending first =>
      exact .inl (.running (fun h hh => fits h (List.mem_of_mem_tail hh)) (.refl w)
        fun _ => Iff.rfl)
  | resetTargets t pending first => exact .inl (.running fits (.refl w) fun _ => Iff.rfl)
  | swap t m => cases cascades
  | mapping t d m targets keys pending mapped held =>
      obtain ⟨present, holds⟩ := fits
      cases held with
      | none =>
          have again : resume (.mapping t d m targets keys pending mapped none) r w stack =
              running w (.mapping t d m targets keys pending mapped none :: stack) := by
            cases pending <;> rfl
          rw [again]
          exact .inl (.running ⟨present, holds⟩ (.refl w) fun _ => Iff.rfl)
      | some answer =>
          obtain ⟨k, pending, rfl, rfl⟩ := holds answer rfl
          have moves : κ ≠ .reset := by
            rintro rfl
            cases d <;> cases cascades
          simp only [resume, resumeMapping]
          split
          · exact .inl (.cut _ (.note w rfl)
              ((w.cuts_note κ _).trans (if_pos (decide_eq_true moves))))
          · rename_i unmapped
            refine .inl (.running ⟨present, by simp⟩ (.refl w) fun x => ?_)
            simp [Frame.Offers, Frame.waiting, Layout.fine, unmapped]
          · rename_i fine mapped'
            refine .inl (.running ⟨present, by simp⟩ (.refl w) fun x => ?_)
            simp [Frame.Offers, Frame.waiting, Layout.fine, mapped', or_assoc, or_left_comm]

/-- What a frame is going to visit when it goes on, and when it is handed a reply. -/
theorem step_spreads {c d : Config} (hs : c.step = some d) (regular : L.Regular κ)
    (layout : c.world.layout = L) (cascade : ∀ f ∈ c.stack, f.Cascades κ)
    (fits : ∀ f ∈ c.stack, f.Fits L) :
    (∀ f ∈ d.stack, f.Fits L) ∧
      ∃ stack replaced, (∀ x, c.Offers L x ↔ replaced x ∨ Waits L stack x) ∧
        Spreads L κ c.world stack replaced d := by
  obtain ⟨w, stack, reply⟩ := c
  cases stack with
  | nil => cases hs
  | cons f stack =>
      have below : ∀ g ∈ stack, g.Fits L := fun g hg => fits g (List.mem_cons_of_mem f hg)
      have grown : Grows (Frame.Fits L) stack d → ∀ g ∈ d.stack, g.Fits L := by
        rintro ⟨pushed, grown, all⟩ g hg
        rw [grown] at hg
        exact (List.mem_append.mp hg).elim (all g) (below g)
      have spreads : ∃ replaced, (∀ x, (Config.mk w (f :: stack) reply).Offers L x ↔
          replaced x ∨ Waits L stack x) ∧ Spreads L κ w stack replaced d := by
        cases reply with
        | none =>
            cases hs
            exact ⟨_, fun _ => offers_running, spreads_advance regular layout
              (cascade f List.mem_cons_self) (fits f List.mem_cons_self) below⟩
        | some r =>
            cases hs
            exact ⟨_, fun _ => (offers_answered r).trans waits_cons,
              spreads_resume (cascade f List.mem_cons_self) (fits f List.mem_cons_self) r⟩
      obtain ⟨replaced, offers, spreads⟩ := spreads
      refine ⟨?_, stack, replaced, offers, spreads⟩
      obtain goesOn | ⟨h, change, announces⟩ := spreads
      · exact grown goesOn.fits
      · exact grown announces.fits

end

end HighlightSync.Config
