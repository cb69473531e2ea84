import HighlightSync.Proofs.Sweep

/-!
# Calls sweep their region

A call that begins in a sweepable region stays there. It comes to an end, since each change
makes a spot of the region ripe no longer, and if no call was refused on the way, it leaves no
ripe spot behind any that it has visited (`sweeping`). The rules that lead there are rules of
total correctness: each gives the end of a piece of work on any stack, and what the work has
done since it began.

Requests that are carried out one after the other, each to its end, are `Served`. What each of
them upholds, while an invariant lasts, all of them uphold (`exists_served`).
-/

namespace HighlightSync

namespace Config

/-- A call on a handler. -/
inductive Call where
  | move (d : Direction) (h : HandlerId) (keys : List Key)
  | reset (h : HandlerId)

namespace Call

/-- The kind of change that a call makes. -/
def kind : Call → ChangeKind
  | .move d _ _ => d.kind
  | .reset _ => .reset

/-- The handler that is called. -/
def handler : Call → HandlerId
  | .move _ h _ => h
  | .reset h => h

/-- The spots that a call is given. -/
def Offers : Call → Spot → Prop
  | .move _ h keys, x => Given h keys x
  | .reset h, x => x = (h, none)

/-- Begin a call. -/
def begin : Call → World → List Frame → Config
  | .move d h keys => openMove d h ⟨none, keys.map .key⟩
  | .reset h => openReset h

end Call

/-- Every call that finds few ripe spots in a region, and is given none elsewhere, sweeps the
region. -/
def Sweeping (κ : ChangeKind) (L : Layout) (region : List Spot) (m : Nat) : Prop :=
  ∀ (call : Call) (w : World) (stack : List Frame), call.kind = κ → w.layout = L →
    w.left κ region ≤ m → (∀ x, call.Offers x → w.Ripe κ x → x ∈ region) →
      Ends (w.Swept κ region call.Offers) (call.begin w stack) stack

section

variable {κ : ChangeKind} {L : Layout} {region : List Spot} {m : Nat}
variable {w v : World} {stack : List Frame} {offered first second : Spot → Prop} {c : Config}

theorem Ends.sweptAfter (before : w.Swept κ region first v)
    (h : Ends (v.Swept κ region second) c stack)
    (split : ∀ x, offered x → first x ∨ second x) : Ends (w.Swept κ region offered) c stack :=
  h.mono fun _ after => before.trans after split

theorem Ends.sweptUnmoved (same : w.Unmoved v) (h : Ends (v.Swept κ region offered) c stack) :
    Ends (w.Swept κ region offered) c stack :=
  h.mono fun _ => .unmoved_left same

theorem exists_resume_fanOut (e : Event) (l : Listener) (pending : List Listener)
    (fault : Option Fault) (r : Reply) (v : World) (stack : List Frame) :
    ∃ u, v.Unmoved u ∧ resume (.fanOut e (l :: pending) fault) r v stack =
      running u (.fanOut e pending (fault.or r.fault?) :: stack) := by
  simp only [resume, List.tail_cons]
  cases r.fault? with
  | none => exact ⟨v, .refl v, rfl⟩
  | some reported =>
      exact ⟨v.note (.listenerFailed e.source reported), .record v (by simp), rfl⟩

/-- A fan-out sweeps what the listeners pass on. -/
theorem sweeps_fanOut {e : Event} (pending : List Listener)
    (tells : ∀ l ∈ pending, ∀ w stack, w.layout = L → w.left κ region ≤ m →
      Ends (w.Swept κ region fun x => ∃ y, e.change.touches y = true ∧ L.Passes l y x)
        (tell l e w stack) stack)
    (fault : Option Fault) (layout : w.layout = L) (few : w.left κ region ≤ m)
    (stack : List Frame) :
    Ends (w.Swept κ region fun x =>
        ∃ l ∈ pending, ∃ y, e.change.touches y = true ∧ L.Passes l y x)
      (running w (.fanOut e pending fault :: stack)) stack := by
  induction pending generalizing w fault with
  | nil => exact .cons rfl (.of_answered _ (.of_unmoved (.refl w) (by simp)))
  | cons l pending ih =>
      refine .cons rfl ((tells l List.mem_cons_self w _ layout few).andThen fun v r told => ?_)
      obtain ⟨u, same, resumes⟩ := exists_resume_fanOut e l pending fault r v stack
      have told' := told.unmoved_right same
      have rest := ih (fun m hm => tells m (List.mem_cons_of_mem l hm)) (fault.or r.fault?)
        (told'.layout.trans layout) (Nat.le_trans told'.left_le few)
      rw [resumes]
      exact rest.sweptAfter told' fun x hx => by simpa using hx

/-- Forwarding sweeps the keys on the targets. -/
theorem sweeps_forwarding (calls : Sweeping κ L region m) {d : Direction} (kind : d.kind = κ)
    {keys : KeySet} (targets pending : List HandlerId)
    (inside : ∀ h ∈ pending, ∀ k ∈ keys, (h, some k) ∈ region) (fault : Option Fault)
    (layout : w.layout = L) (few : w.left κ region ≤ m) (stack : List Frame) :
    Ends (w.Swept κ region fun x => x.1 ∈ pending ∧ ∃ k ∈ keys, x.2 = some k)
      (running w (.forwarding d keys targets pending fault :: stack)) stack := by
  induction pending generalizing w fault with
  | nil => exact .cons rfl (.of_answered _ (.of_unmoved (.refl w) (by simp)))
  | cons h pending ih =>
      have called := calls (.move d h keys.toList) w
        (.forwarding d keys targets (h :: pending) fault :: stack) kind layout few
        (by
          rintro ⟨g, y⟩ ⟨rfl, k, hk, rfl⟩ -
          exact inside g List.mem_cons_self k hk)
      refine .cons rfl (called.andThen fun v r moved => ?_)
      have rest := ih (fun g hg => inside g (List.mem_cons_of_mem h hg)) (fault.or r.fault?)
        (moved.layout.trans layout) (Nat.le_trans moved.left_le few)
      refine rest.sweptAfter moved ?_
      rintro x ⟨target, k, hk, spot⟩
      obtain here | later := List.mem_cons.mp target
      · exact .inl ⟨here, k, hk, spot⟩
      · exact .inr ⟨later, k, hk, spot⟩

/-- Resetting targets sweeps the targets. -/
theorem sweeps_resetTargets (calls : Sweeping .reset L region m) {t : TranslatorId}
    {pending : List HandlerId} (inside : ∀ h ∈ pending, (h, none) ∈ region)
    (fault : Option Fault) (layout : w.layout = L) (few : w.left .reset region ≤ m)
    (stack : List Frame) :
    Ends (w.Swept .reset region fun x => x.1 ∈ pending ∧ x.2 = none)
      (running w (.resetTargets t pending fault :: stack)) stack := by
  induction pending generalizing w fault with
  | nil => exact .cons rfl (.of_answered _ (.of_unmoved (.refl w) (by simp)))
  | cons h pending ih =>
      have called := calls (.reset h) w (.resetTargets t (h :: pending) fault :: stack) rfl layout
        few (by
          rintro x rfl -
          exact inside h List.mem_cons_self)
      refine .cons rfl (called.andThen fun v r cleared => ?_)
      have rest := ih (fun g hg => inside g (List.mem_cons_of_mem h hg)) (fault.or r.fault?)
        (cleared.layout.trans layout) (Nat.le_trans cleared.left_le few)
      refine rest.sweptAfter cleared ?_
      rintro ⟨g, y⟩ ⟨target, rfl⟩
      exact (List.mem_cons.mp target).imp (fun here => by rw [show g = h from here]; rfl)
        fun later => ⟨later, rfl⟩

/-- A pure mapper answers with the fine keys, and asking it moves nothing. -/
theorem ask_of_pure {mapper : MapperId} (pure : w.layout.Pure mapper) (k : Key) :
    ∃ answer : Option KeySet, (ask mapper k w).1 = .ok answer ∧
      answer.getD ∅ = w.layout.fine mapper k ∧ (ask mapper k w).2.1 = [] ∧
      w.Unmoved (ask mapper k w).2.2 := by
  have moved : (ask mapper k w).2.2.keysOf = w.keysOf :=
    congrArg Observed.keys (observed_ask mapper k w)
  have layout := layout_ask w mapper k
  have known : w.layout.mapper mapper =
      (w.mapper? mapper).map fun s => { s with asked := 0 } := rfl
  rw [ask] at moved layout ⊢
  cases found : w.mapper? mapper with
  | none =>
      rw [found, Option.map_none] at known
      refine ⟨none, rfl, ?_, rfl, .refl w⟩
      simp only [Layout.fine, Layout.answer, known]
      rfl
  | some s =>
      rw [found, Option.map_some] at known
      simp only [found] at moved layout
      obtain ⟨silent, f, answers⟩ := pure _ known
      have answers : ∀ n k, s.answer n k = .ok (f k) := answers
      refine ⟨f k, answers s.asked k, ?_, silent s.asked k, ⟨layout, moved, ?_⟩⟩
      · simp only [Layout.fine, Layout.answer, known, Option.elim_some, answers]
        cases f k <;> rfl
      · exact w.refusals_record (r := .question mapper s.origin k w.depth) (by simp)

/-- A pure mapper is asked for all keys, and the answers are forwarded then. -/
theorem ends_mapping {J : World → Prop} {t : TranslatorId} {d : Direction} {mapper : MapperId}
    {targets : List HandlerId} {keys : KeySet} (pure : L.Pure mapper) {pending : List Key}
    {mapped : List KeySet} (layout : w.layout = L)
    (rest : ∀ v answers, w.Unmoved v → (∀ j, j ∈ KeySet.unionAll answers ↔
      j ∈ KeySet.unionAll mapped ∨ ∃ k ∈ pending, j ∈ L.fine mapper k) →
        Ends J (finishMapping d targets keys answers v stack) stack) :
    Ends J (running w (.mapping t d mapper targets keys pending mapped none :: stack)) stack := by
  induction pending generalizing w mapped with
  | nil => exact .cons rfl (rest w mapped (.refl w) (by simp))
  | cons k pending ih =>
      obtain ⟨answer, answered, fine, silent, asked⟩ := ask_of_pure (layout ▸ pure) k
      have question : (running w (.mapping t d mapper targets keys (k :: pending) mapped none ::
          stack)).step = some (running (ask mapper k w).2.2 (.script [] none ::
            .mapping t d mapper targets keys (k :: pending) mapped (some (.ok answer)) ::
              stack)) := by
        rw [← silent, ← answered]
        rfl
      rw [layout] at fine
      refine .cons question (.cons rfl ?_)
      cases answer with
      | none =>
          refine .cons rfl (ih (asked.layout.trans layout) fun v answers same union => ?_)
          refine rest v answers (asked.trans same) fun j => (union j).trans (or_congr_right ?_)
          simp [← fine]
      | some found =>
          refine .cons rfl (ih (asked.layout.trans layout) fun v answers same union => ?_)
          refine rest v answers (asked.trans same) fun j => (union j).trans ?_
          simp [← fine, or_assoc, or_left_comm]

theorem sweeps_finishMapping (calls : Sweeping κ L region m) {d : Direction} (kind : d.kind = κ)
    {targets : List HandlerId} (keys : KeySet) {answers : List KeySet}
    (inside : ∀ h ∈ targets, ∀ j ∈ KeySet.unionAll answers, (h, some j) ∈ region)
    (layout : w.layout = L) (few : w.left κ region ≤ m) (stack : List Frame) :
    Ends (w.Swept κ region fun x => x.1 ∈ targets ∧ ∃ j ∈ KeySet.unionAll answers, x.2 = some j)
      (finishMapping d targets keys answers w stack) stack := by
  simp only [finishMapping]
  split
  · rename_i empty
    refine .of_answered _ (.of_unmoved (.record w (by simp)) ?_)
    rintro x ⟨-, j, hj, -⟩
    rw [empty] at hj
    exact absurd hj (KeySet.not_mem_empty j)
  · have noted : w.Unmoved (w.note (.forwarding d targets.length (KeySet.unionAll answers))) :=
      .record w (by simp)
    exact .sweptUnmoved noted (sweeps_forwarding calls kind targets targets inside none
      (noted.layout.trans layout) (noted.left_le few) stack)

/-- What a source link makes of moved keys is swept on the targets. -/
theorem sweeps_tellForward (calls : Sweeping κ L region m) {t : TranslatorId}
    {s : TranslatorState} (found : L.translator? t = some s) {d : Direction} (kind : d.kind = κ)
    {keys : KeySet} (pure : ∀ mapper, s.mapper = some mapper → L.Pure mapper)
    (inside : ∀ k ∈ keys, ∀ x, L.Passes (.sourceLink t) (some k) x → x ∈ region)
    (live : s.live = true) (layout : w.layout = L) (few : w.left κ region ≤ m)
    (stack : List Frame) :
    Ends (w.Swept κ region fun x => ∃ k ∈ keys, L.Passes (.sourceLink t) (some k) x)
      (tellForward t s d keys w stack) stack := by
  have entered : w.Unmoved (w.record (.enter .forward)) := .record w (by simp)
  have left : ∀ v : World, v.Unmoved (v.record (.exit .forward)) := fun v => .record v (by simp)
  have passes : ∀ {k x}, L.Passes (.sourceLink t) (some k) x →
      ∃ mapper, s.mapper = some mapper ∧ x.1 ∈ s.targetHandlers ∧
        ∃ j ∈ L.fine mapper k, x.2 = some j := by
    rintro k x (⟨found', -, mapper, target, fine⟩ | _)
    cases found.symm.trans found'
    exact ⟨_, mapper, target, _, fine, rfl⟩
  have idle : (∀ k x, ¬ L.Passes (.sourceLink t) (some k) x) →
      Ends (w.Swept κ region fun x => ∃ k ∈ keys, L.Passes (.sourceLink t) (some k) x)
        (answered (w.record (.enter .forward)) (.forward t :: stack) .done) stack := by
    intro nothing
    refine .cons rfl (.of_answered _ (.of_unmoved (entered.trans (left _)) ?_))
    rintro x ⟨k, -, hx⟩
    exact absurd hx (nothing k x)
  simp only [tellForward]
  split
  · rename_i none
    refine idle fun k x hx => ?_
    obtain ⟨mapper, some', -⟩ := passes hx
    cases none.symm.trans some'
  · rename_i targets
    refine idle fun k x hx => ?_
    obtain ⟨-, -, target, -⟩ := passes hx
    rw [targets] at target
    cases target
  · rename_i mapper given _
    refine Ends.sweptUnmoved entered ?_
    have mapped : Ends ((w.record (.enter .forward)).Swept κ region
        fun x => ∃ k ∈ keys, L.Passes (.sourceLink t) (some k) x)
        (running (w.record (.enter .forward)) (.mapping t d mapper s.targetHandlers keys
          keys.toList [] none :: .forward t :: stack)) (.forward t :: stack) := by
      refine ends_mapping (pure mapper given) layout fun v answers same union => ?_
      have fine : ∀ j, j ∈ KeySet.unionAll answers ↔ ∃ k ∈ keys, j ∈ L.fine mapper k := by
        intro j
        rw [union, or_iff_right (by simp)]
        rfl
      have offered : ∀ x, (∃ k ∈ keys, L.Passes (.sourceLink t) (some k) x) →
          x.1 ∈ s.targetHandlers ∧ ∃ j ∈ KeySet.unionAll answers, x.2 = some j := by
        rintro x ⟨k, hk, hx⟩
        obtain ⟨mapper', given', target, j, hj, spot⟩ := passes hx
        cases given.symm.trans given'
        exact ⟨target, j, (fine j).mpr ⟨k, hk, hj⟩, spot⟩
      have forwarded := sweeps_finishMapping calls kind keys (fun h hh j hj => by
          obtain ⟨k, hk, hj⟩ := (fine j).mp hj
          exact inside k hk _ (.fine found live given hh hj))
        (same.layout.trans layout) (same.left_le (entered.left_le few)) (.forward t :: stack)
      exact (forwarded.sweptUnmoved same).mono fun u swept =>
        swept.mono fun x hx _ => offered x hx
    exact mapped.andThen fun v r swept => .of_answered _ (swept.unmoved_right (left v))

theorem translator?_of_found (layout : w.layout = L) {t : TranslatorId} {s : TranslatorState}
    (found : L.translator? t = some s) : w.translator? t = some s := by
  rw [← found, ← layout]
  rfl

/-- Telling the source link of a live translator sweeps what the link passes on. -/
theorem sweeps_tellSource (calls : Sweeping κ L region m) {e : Event} (kind : e.change.kind = κ)
    {t : TranslatorId} {s : TranslatorState} (found : L.translator? t = some s)
    (live : s.live = true) (pure : ∀ mapper, s.mapper = some mapper → L.Pure mapper)
    (inside : ∀ y x, e.change.touches y = true → L.Passes (.sourceLink t) y x → x ∈ region)
    (layout : w.layout = L) (few : w.left κ region ≤ m) :
    Ends (w.Swept κ region fun x => ∃ y, e.change.touches y = true ∧
      L.Passes (.sourceLink t) y x) (tell (.sourceLink t) e w stack) stack := by
  have told : w.Unmoved (w.record (.callback (.sourceLink t) e w.depth true)) :=
    .record w (by simp)
  have here := translator?_of_found layout found
  have works : (w.record (.callback (.sourceLink t) e w.depth true)).isAtWork stack t = true := by
    rw [World.isAtWork, World.translator?_record, here, Option.any_some, live, Bool.true_or]
  simp only [tell, World.translator?_record, here, works, if_true]
  refine Ends.sweptUnmoved told ?_
  have layout' := told.layout.trans layout
  have few' := told.left_le few
  split
  · rename_i d keys moves
    rw [moves] at kind inside
    have forwarded := sweeps_tellForward calls found kind pure
      (fun k hk x passes => inside (some k) x (decide_eq_true hk) passes) live layout' few' stack
    refine forwarded.mono fun v swept => swept.mono ?_
    rintro x ⟨y, moved, passes⟩ -
    rw [moves] at moved
    cases y with
    | none => cases moved
    | some k => exact ⟨k, of_decide_eq_true moved, passes⟩
  · rename_i resets
    rw [resets] at kind inside
    cases kind
    have cleared := sweeps_resetTargets (t := t) calls
      (fun h hh => inside none _ rfl (.down found live hh)) none layout' few' stack
    refine cleared.mono fun v swept => swept.mono ?_
    rintro x ⟨y, moved, passes⟩ -
    rw [resets] at moved
    cases passes with
    | down found' live' target =>
        cases found.symm.trans found'
        exact ⟨target, rfl⟩
    | fine => cases moved

/-- Telling a reset link of a live translator sweeps the source, if it is told of a reset. -/
theorem sweeps_tellReset (calls : Sweeping κ L region m) {e : Event} (kind : e.change.kind = κ)
    {t : TranslatorId} {s : TranslatorState} (found : L.translator? t = some s)
    (live : s.live = true)
    (inside : ∀ y x, e.change.touches y = true → L.Passes (.resetLink t) y x → x ∈ region)
    (layout : w.layout = L) (few : w.left κ region ≤ m) :
    Ends (w.Swept κ region fun x => ∃ y, e.change.touches y = true ∧
      L.Passes (.resetLink t) y x) (tell (.resetLink t) e w stack) stack := by
  have told : w.Unmoved (w.record (.callback (.resetLink t) e w.depth true)) :=
    .record w (by simp)
  have here := translator?_of_found layout found
  have held : (w.record (.callback (.resetLink t) e w.depth true)).isHeld stack s.source = true :=
    isHeld_source (w := w.record _) here live
  simp only [tell, World.translator?_record, here]
  split
  · rename_i s' found' resets
    cases found'
    simp only [held, if_true]
    rw [resets] at kind inside
    cases kind
    have back : (s.source, none) ∈ region := inside none _ rfl (.back found live)
    have cleared := calls (.reset s.source) (w.record (.callback (.resetLink t) e w.depth true))
      stack rfl (told.layout.trans layout) (told.left_le few) (fun x given _ => given ▸ back)
    refine (cleared.sweptUnmoved told).mono fun v swept => swept.mono ?_
    rintro x ⟨y, -, passes⟩ -
    cases passes with
    | back found' live' =>
        cases found.symm.trans found'
        rfl
  · rename_i moves
    refine .of_answered _ (.of_unmoved told ?_)
    rintro x ⟨y, resets, passes⟩
    cases passes with
    | back found' live' =>
        cases change : e.change with
        | reset => exact absurd change (moves s rfl)
        | move d keys =>
            rw [change] at resets
            cases resets

/-- Telling a listener of a change in the region sweeps what the listener passes on. -/
theorem sweeps_tell (sweepable : L.Sweepable region) (calls : Sweeping κ L region m) {e : Event}
    (kind : e.change.kind = κ) {y : Option Key} (touched : e.change.touches y = true)
    (inside : ∀ y, e.change.touches y = true → (e.source, y) ∈ region) {l : Listener}
    (registered : l ∈ L.listeners e.source) (layout : w.layout = L)
    (few : w.left κ region ≤ m) :
    Ends (w.Swept κ region fun x => ∃ y, e.change.touches y = true ∧ L.Passes l y x)
      (tell l e w stack) stack := by
  have leads : ∀ y x, e.change.touches y = true → L.Passes l y x → x ∈ region :=
    fun y x touched passes => sweepable.closed _ (inside y touched) x ⟨l, registered, passes⟩
  have liveLink : ∀ t, l.owner? = some t → ∃ s, L.translator? t = some s ∧ s.live = true :=
    fun t owner => (Option.any_eq_true _ _).mp
      (sweepable.links _ (inside y touched) l registered t owner)
  cases l with
  | view name =>
      have asks := layout.symm ▸ sweepable.views _ (inside y touched) name registered
      refine (ends_tellView asks e stack).mono fun v same => .of_unmoved same ?_
      rintro x ⟨y, -, passes⟩
      cases passes
  | sourceLink t =>
      obtain ⟨s, found, live⟩ := liveLink t rfl
      exact sweeps_tellSource calls kind found live
        (fun mapper => sweepable.mappers _ (inside y touched) t s mapper registered found) leads
        layout few
  | resetLink t =>
      obtain ⟨s, found, live⟩ := liveLink t rfl
      exact sweeps_tellReset calls kind found live leads layout few

/-- A change in the region is announced, and what the listeners pass on is swept. -/
theorem sweeps_announce (sweepable : L.Sweepable region) (calls : Sweeping κ L region m)
    {h : HandlerId} {change : Change} (kind : change.kind = κ)
    (proper : change.Proper (w.keysOf h))
    (inside : ∀ y, change.touches y = true → (h, y) ∈ region) {n : Note}
    (noted : ∀ g depth limit, n ≠ .cascadeRefused g depth limit) (layout : w.layout = L)
    (few : w.left κ region ≤ m + 1) :
    Ends (w.Swept κ region fun x => x.1 = h ∧ change.touches x.2 = true)
      (announce h change n w stack) stack := by
  subst layout
  obtain ⟨y, touched⟩ := proper.exists_touched
  have present : (w.handler? h).isSome = true := by
    rw [← handler_layout_isSome]
    exact sweepable.present _ (inside y touched)
  let v := (w.change h change).note n
  have announced : announce h change n w stack =
      running v (.fanOut ⟨h, change⟩ (w.listeners h) none :: stack) := rfl
  have layout' : v.layout = w.layout := w.layout_change h change
  have unrefused : v.refusals = w.refusals :=
    (w.change h change).refusals_record (r := .note n) (by simpa using noted)
  have changed : v.keysOf = (w.change h change).keysOf := rfl
  have fewer : v.left κ region < w.left κ region :=
    World.left_change_lt present kind proper touched (inside y touched) changed
  rw [announced, ← listeners_layout]
  have told := sweeps_fanOut (e := ⟨h, change⟩) (w.layout.listeners h)
    (fun l hl u stack layout few => sweeps_tell sweepable calls kind touched inside hl layout few)
    none layout' (by omega) stack
  exact told.mono fun u swept =>
    .of_change present kind proper inside changed layout' unrefused swept

/-- A call that is refused moves nothing, and one that is carried out does what its body
does. -/
theorem sweeps_openCall {kind : ChangeKind} {h : HandlerId} {body : Frame}
    (works : ∀ v, w.Unmoved v → Ends (v.Swept κ region offered)
      (running v (body :: .call kind h :: stack)) (.call kind h :: stack)) :
    Ends (w.Swept κ region offered) (openCall kind h body w stack) stack := by
  have entered : w.Unmoved (w.record (.enter (.call kind h))) := .record w (by simp)
  simp only [openCall]
  split
  · rename_i limit _
    refine .of_answered _ (.of_refused rfl rfl ?_)
    rw [World.refusals_record _ (by simp), World.refusals_cascadeRefused, entered.refusals]
    exact Nat.lt_succ_self _
  · let inside := { w.record (.enter (.call kind h)) with depth := w.depth + 1 }
    have same : w.Unmoved inside := entered.trans ⟨rfl, rfl, rfl⟩
    refine ((works inside same).sweptUnmoved same).andThen fun v r swept => ?_
    let outside := { v with depth := v.depth - 1 }
    have same : v.Unmoved outside := ⟨rfl, rfl, rfl⟩
    have left : outside.Unmoved (outside.record (.exit (.call kind h))) := .record _ (by simp)
    exact .of_answered _ (swept.unmoved_right (same.trans left))

theorem ends_reading {J : World → Prop} {h : HandlerId} {purpose : Purpose} {keys taken : List Key}
    (rest : ∀ v, w.Unmoved v →
      Ends J (finishReading h purpose (keys.reverse ++ taken) v stack) stack) :
    Ends J (running w (.reading h purpose none (keys.map .key) taken :: stack)) stack := by
  induction keys generalizing w taken with
  | nil => exact .cons rfl (rest w (.refl w))
  | cons k keys ih =>
      have read : w.Unmoved (w.record (.keyRead h k w.depth)) := .record w (by simp)
      refine .cons rfl (ih fun v same => ?_)
      simpa using rest v (read.trans same)

section

variable (sweepable : L.Sweepable region) (fewer : ∀ k, m = k + 1 → Sweeping κ L region k)

include sweepable fewer

theorem sweeps_announce_of_fewer {h : HandlerId} (change : Change) (kind : change.kind = κ)
    (proper : change.Proper (w.keysOf h))
    (inside : ∀ y, change.touches y = true → (h, y) ∈ region) {n : Note}
    (noted : ∀ g depth limit, n ≠ .cascadeRefused g depth limit) (layout : w.layout = L)
    (few : w.left κ region ≤ m) (stack : List Frame) :
    Ends (w.Swept κ region fun x => x.1 = h ∧ change.touches x.2 = true)
      (announce h change n w stack) stack := by
  obtain ⟨y, touched⟩ := proper.exists_touched
  have ripe : w.Ripe κ (h, y) := kind ▸ proper.ripe touched
  have pos : 0 < w.left κ region :=
    List.countP_pos_iff.mpr ⟨_, inside y touched, decide_eq_true ripe⟩
  obtain ⟨k, rfl⟩ : ∃ k, m = k + 1 := Nat.exists_eq_add_one_of_ne_zero (by omega)
  exact sweeps_announce sweepable (fewer k rfl) kind proper inside noted layout few

/-- When the keys of a call are read, those of them that are ripe are announced. -/
theorem sweeps_finishReading {d : Direction} (kind : d.kind = κ) {h : HandlerId}
    {keys taken : List Key} (same : ∀ k, k ∈ taken ↔ k ∈ keys)
    (inside : ∀ x, Given h keys x → w.Ripe κ x → x ∈ region) (layout : w.layout = L)
    (few : w.left κ region ≤ m) :
    Ends (w.Swept κ region (Given h keys)) (finishReading h (.move d) taken w stack) stack := by
  subst kind
  have moved : ∀ k, k ∈ d.effect (.ofList taken.reverse) (w.keysOf h) ↔
      k ∈ keys ∧ w.Ripe d.kind (h, some k) := by
    intro k
    rw [Direction.mem_effect, KeySet.mem_ofList, List.mem_reverse, same]
    exact and_congr_right fun _ => Change.ripe_move_iff.symm
  simp only [finishReading]
  split
  · rename_i nothing
    refine .of_answered _ (.of_unmoved (.record w (by simp)) ?_)
    rintro ⟨g, y⟩ ⟨rfl, k, hk, rfl⟩ ripe
    exact KeySet.not_mem_empty k (nothing ▸ (moved k).mpr ⟨hk, ripe⟩)
  · rename_i something
    have announced := sweeps_announce_of_fewer (w := w)
      (n := .moved h d (d.effect (.ofList taken.reverse) (w.keysOf h))) sweepable fewer
      (.move d (d.effect (.ofList taken.reverse) (w.keysOf h))) rfl
      ⟨something, fun k hk => (Direction.mem_effect.mp hk).2⟩
      (fun y touched => by
        cases y with
        | none => cases touched
        | some k =>
            obtain ⟨hk, ripe⟩ := (moved k).mp (of_decide_eq_true touched)
            exact inside _ ⟨rfl, k, hk, rfl⟩ ripe)
      (by simp) layout few stack
    refine announced.mono fun v swept => swept.mono ?_
    rintro ⟨g, y⟩ ⟨rfl, k, hk, rfl⟩ ripe
    exact ⟨rfl, decide_eq_true ((moved k).mpr ⟨hk, ripe⟩)⟩

/-- A handler that is not empty is announced to be cleared. -/
theorem sweeps_clear (kind : .reset = κ) {h : HandlerId}
    (inside : w.Ripe κ (h, none) → (h, none) ∈ region) (layout : w.layout = L)
    (few : w.left κ region ≤ m) :
    Ends (w.Swept κ region (· = (h, none))) (clear h w stack) stack := by
  subst kind
  simp only [clear]
  split
  · rename_i empty
    refine .of_answered _ (.of_unmoved (.record w (by simp)) ?_)
    rintro x rfl
    exact not_not_intro empty
  · rename_i nonempty
    have announced := sweeps_announce_of_fewer (w := w)
      (n := .cleared h (w.keysOf h).size) sweepable fewer .reset rfl nonempty
      (fun y touched => by
        cases y with
        | none => exact inside nonempty
        | some k => cases touched)
      (by simp) layout few stack
    refine announced.mono fun v swept => swept.mono ?_
    rintro x rfl -
    exact ⟨rfl, rfl⟩

theorem sweeps_begin : Sweeping κ L region m := by
  intro call w stack kind layout few inside
  cases call with
  | move d h keys =>
      refine sweeps_openCall fun v same => ends_reading fun u read => ?_
      have same := same.trans read
      refine Ends.sweptUnmoved read (sweeps_finishReading sweepable fewer kind (by simp) ?_
        (same.layout.trans layout) (same.left_le few))
      exact fun x given ripe => inside x given (same.ripe_iff.mp ripe)
  | reset h =>
      refine sweeps_openCall fun v same => .cons rfl ?_
      exact sweeps_clear sweepable fewer kind (fun ripe => inside _ rfl (same.ripe_iff.mp ripe))
        (same.layout.trans layout) (same.left_le few)

end

/-- Every call that begins in a region sweeps it and comes to an end. -/
theorem sweeping (sweepable : L.Sweepable region) (m : Nat) : Sweeping κ L region m := by
  induction m with
  | zero => exact sweeps_begin sweepable fun k none => absurd none.symm k.succ_ne_zero
  | succ m ih =>
      refine sweeps_begin sweepable ?_
      rintro k same
      cases same
      exact ih

theorem sweeps_call (sweepable : w.layout.Sweepable region) (call : Call)
    (inside : ∀ x, call.Offers x → w.Ripe call.kind x → x ∈ region) (stack : List Frame) :
    Ends (w.Swept call.kind region call.Offers) (call.begin w stack) stack :=
  sweeping sweepable _ call w stack rfl rfl (Nat.le_refl _) inside

end

/-- Requests are carried out at rest, one after the other and each to its end. -/
inductive Served {ρ : Type} (begin : ρ → World → List Frame → Config) :
    List ρ → World → World → Prop where
  | nil (w) : Served begin [] w w
  | cons {request requests w v u n r} :
      Steps n (begin request w []) (answered v [] r) → Served begin requests v u →
        Served begin (request :: requests) w u

/-- Requests that come to an end, keep an invariant of the world and of what has been asked for,
and uphold a property can all be served, and do so together. -/
theorem exists_served {ρ σ : Type} {begin : ρ → World → List Frame → Config}
    {I : σ → World → Prop} {f : σ → ρ → σ} {P : World → Prop} {requests : List ρ}
    (ends : ∀ request ∈ requests, ∀ s w, I s w →
      Ends (fun v => I (f s request) v ∧ w.Upholds P v) (begin request w []) [])
    {s : σ} {w : World} (start : I s w) :
    ∃ w', Served begin requests w w' ∧ I (requests.foldl f s) w' ∧ w.Upholds P w' := by
  induction requests generalizing s w with
  | nil => exact ⟨w, .nil w, start, .refl w⟩
  | cons request requests ih =>
      obtain ⟨n, v, r, steps, hv, first⟩ := ends request List.mem_cons_self s w start
      obtain ⟨u, served, hu, rest⟩ :=
        ih (fun r hr => ends r (List.mem_cons_of_mem request hr)) hv
      exact ⟨u, .cons steps served, hu, first.trans rest⟩

/-- Serve requests one after the other, with the same fuel for each. -/
def serve {ρ : Type} (begin : ρ → World → List Frame → Config) (fuel : Nat) :
    List ρ → World → Option World
  | [], w => some w
  | request :: requests, w =>
      ((begin request w []).run fuel).bind fun c => serve begin fuel requests c.world

theorem Served.eq_of_serve {ρ : Type} {begin : ρ → World → List Frame → Config} {fuel : Nat}
    {requests : List ρ} {w v u : World} (served : Served begin requests w v)
    (found : serve begin fuel requests w = some u) : v = u := by
  induction served with
  | nil => exact Option.some.inj found
  | cons steps _ ih =>
      obtain ⟨c, ran, rest⟩ := Option.bind_eq_some_iff.mp found
      obtain ⟨_, -, steps', atRest⟩ := run_eq_some_iff.mp ran
      cases (steps.rest_unique steps' (atRest_iff.mpr rfl) atRest).2
      exact ih rest

end Config

end HighlightSync
