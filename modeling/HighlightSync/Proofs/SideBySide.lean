import HighlightSync.Proofs.Alike
import HighlightSync.Proofs.Delivery

/-!
# The machine in worlds that are alike

Two configurations are alike when their worlds are and their frames are, one by one: those that
wait wait for the same thing (`Frame.Awaits`), and the innermost ones have the same still to do
(`Frame.Alike`). If a likeness is lawful, whatever both begin or go on with begins and goes on
alike, unless the first refuses a call that the second may go on with (`Config.Agree`).
-/

namespace HighlightSync

namespace Frame

/-- Whether a frame holds neither operations nor listeners nor answers. -/
def isPlain : Frame → Bool
  | .script _ _ => false
  | .reading _ _ _ _ _ => false
  | .fanOut _ _ _ => false
  | .mapping _ _ _ _ _ _ _ _ => false
  | _ => true

/-- Frames that wait for a reply are alike. -/
inductive Awaits (L : Likeness) : Frame → Frame → Prop where
  | script {op op' : Op} (alike : op.Alike L op') {ops ops' : List Op}
      (rest : Script.Alike L ops ops') (first : Option Fault) :
      Awaits L (.script (op :: ops) first) (.script (op' :: ops') first)
  | reading (h : HandlerId) (purpose : Purpose) (filter : Option Presence) {op op' : Op}
      (alike : op.Alike L op') {pulls pulls' : List (Pull Op)} (rest : Pulls.Alike L pulls pulls')
      (taken : List Key) :
      Awaits L (.reading h purpose filter (.act op :: pulls) taken)
        (.reading h purpose filter (.act op' :: pulls') taken)
  | fanOut (e : Event) (l : Listener) {pending pending' : List Listener}
      (rest : Woven Eq (fun l => L.shares l = false) pending pending') (first : Option Fault) :
      Awaits L (.fanOut e (l :: pending) first) (.fanOut e (l :: pending') first)
  | mapping (t : TranslatorId) (d : Direction) (m : MapperId) (targets : List HandlerId)
      (keys : KeySet) (k : Key) (pending : List Key) {mapped mapped' : List KeySet}
      (same : KeySet.unionAll mapped' = KeySet.unionAll mapped) {a a' : Answer}
      (answers : L.answer a a') :
      Awaits L (.mapping t d m targets keys (k :: pending) mapped (some a))
        (.mapping t d m targets keys (k :: pending) mapped' (some a'))
  | same (f : Frame) (plain : f.isPlain = true) : Awaits L f f

/-- Frames that are about to go on are alike. -/
inductive Alike (L : Likeness) : Frame → Frame → Prop where
  | script {ops ops' : List Op} (alike : Script.Alike L ops ops') (first : Option Fault) :
      Alike L (.script ops first) (.script ops' first)
  | reading (h : HandlerId) (purpose : Purpose) (filter : Option Presence)
      {pulls pulls' : List (Pull Op)} (alike : Pulls.Alike L pulls pulls') (taken : List Key) :
      Alike L (.reading h purpose filter pulls taken) (.reading h purpose filter pulls' taken)
  | fanOut (e : Event) {pending pending' : List Listener}
      (alike : Woven Eq (fun l => L.shares l = false) pending pending') (first : Option Fault) :
      Alike L (.fanOut e pending first) (.fanOut e pending' first)
  | mapping (t : TranslatorId) (d : Direction) (m : MapperId) (targets : List HandlerId)
      (keys : KeySet) (pending : List Key) {mapped mapped' : List KeySet}
      (same : KeySet.unionAll mapped' = KeySet.unionAll mapped) (held held' : Option Answer) :
      Alike L (.mapping t d m targets keys pending mapped held)
        (.mapping t d m targets keys pending mapped' held')
  | same (f : Frame) (plain : f.isPlain = true) : Alike L f f

variable {L : Likeness} {f f' : Frame} {w w' : World} {stack stack' : List Frame}

theorem Awaits.holds (awaits : f.Awaits L f') (alike : w.Alike L w') (h : HandlerId) :
    f'.holds w' h = f.holds w h := by
  have source : ∀ t, ((w'.translator? t).any fun s => decide (s.source = h)) =
      (w.translator? t).any fun s => decide (s.source = h) := fun t => by
    obtain ⟨found, found'⟩ | ⟨s, s', found, found', same⟩ := rel_cases (alike.translator? t)
    · rw [found, found']
    · rw [found, found', Option.any_some, Option.any_some, same.source]
  cases awaits with
  | same f plain =>
      cases f with
      | forward t => exact source t
      | resetTargets t pending first => exact congrArg (· || decide (h ∈ pending)) (source t)
      | _ => rfl
  | _ => rfl

theorem Awaits.worksFor (awaits : f.Awaits L f') (t : TranslatorId) :
    f'.worksFor t = f.worksFor t := by
  cases awaits <;> rfl

theorem Awaits.swapsMapperOf (awaits : f.Awaits L f') (t : TranslatorId) :
    f'.swapsMapperOf t = f.swapsMapperOf t := by
  cases awaits <;> rfl

theorem any_eq_of_awaits (waiting : List.Forall₂ (Awaits L) stack stack') {p p' : Frame → Bool}
    (same : ∀ f f', f.Awaits L f' → p' f' = p f) : stack'.any p' = stack.any p := by
  induction waiting with
  | nil => rfl
  | cons awaits _ ih => rw [List.any_cons, List.any_cons, same _ _ awaits, ih]

end Frame

namespace World.Alike

variable {L : Likeness} {w w' : World} {stack stack' : List Frame}

theorem isHeld (alike : w.Alike L w') (waiting : List.Forall₂ (Frame.Awaits L) stack stack')
    (h : HandlerId) : w'.isHeld stack' h = w.isHeld stack h := by
  rw [World.isHeld, World.isHeld, alike.namesHandler, alike.linksHandler,
    Frame.any_eq_of_awaits waiting fun f f' awaits => awaits.holds alike h]

theorem isAtWork (alike : w.Alike L w') (waiting : List.Forall₂ (Frame.Awaits L) stack stack')
    (t : TranslatorId) : w'.isAtWork stack' t = w.isAtWork stack t := by
  rw [World.isAtWork, World.isAtWork,
    Frame.any_eq_of_awaits waiting fun f f' awaits => awaits.worksFor t]
  obtain ⟨found, found'⟩ | ⟨s, s', found, found', same⟩ := rel_cases (alike.translator? t)
  · rw [found, found']
  · rw [found, found', Option.any_some, Option.any_some, same.live]

end World.Alike

theorem World.Alike.passive {L : Likeness} {w w' : World} (alike : w.Alike L w') {name : String}
    (aside : L.aside name = true) {v : ViewState} :
    (w.view? name = some v → v.behavior.Passive) ∧
      (w'.view? name = some v → v.behavior.Passive) := by
  obtain ⟨found, found'⟩ | ⟨v, v', found, found', same⟩ := rel_cases (alike.views name)
  · simp [found, found']
  · rw [found, found']
    refine ⟨?_, ?_⟩ <;> rintro ⟨⟩
    · exact (same.passive aside).1
    · exact (same.passive aside).2

/-- What a reply does not tell apart of the faults of two replies. -/
theorem Reply.Alike.fault? {L : Likeness} {op : Option Op} {r r' : Reply} (same : r.Alike L op r') :
    r'.fault? = r.fault? := by
  cases same <;> rfl

theorem Reply.Alike.of_none {L : Likeness} {r r' : Reply} (same : r.Alike L none r')
    (op : Option Op) : r.Alike L op r' := by
  cases same with
  | same _ r => exact .same op r
  | created _ h settings => exact .created op h settings
  | registered _ ids => exact .registered op ids
  | handler _ h keys settings counts => exact .handler op h keys settings counts

namespace Config

/-- The operation that a reply to a stack of frames answers, if it answers one; the last frame
gives its reply to whoever performs an operation from outside. -/
def answered? (outer : Option Op) : List Frame → Option Op
  | [] => outer
  | f :: _ => f.due?

/-- Configurations are alike. -/
inductive Alike (L : Likeness) (outer : Option Op) : Config → Config → Prop where
  | running {w w' : World} (worlds : w.Alike L w') {f f' : Frame} (frames : f.Alike L f')
      {stack stack' : List Frame} (waiting : List.Forall₂ (Frame.Awaits L) stack stack') :
      Alike L outer (running w (f :: stack)) (running w' (f' :: stack'))
  | answered {w w' : World} (worlds : w.Alike L w') {stack stack' : List Frame}
      (waiting : List.Forall₂ (Frame.Awaits L) stack stack') {r r' : Reply}
      (replies : r.Alike L (answered? outer stack) r') :
      Alike L outer (answered w stack r) (answered w' stack' r')

/-- Some call was refused. -/
def HasRefused (c : Config) : Prop :=
  ∃ h depth limit, .note (.cascadeRefused h depth limit) ∈ c.world.journal.toList

/-- Configurations are alike, unless the first has just refused a call that the second may go on
with. -/
def Agree (L : Likeness) (outer : Option Op) (c c' : Config) : Prop :=
  c.Alike L outer c' ∨ (L.lenient ∧ c.HasRefused)

section Lawful

variable {L : Likeness} {fit : World → Prop} {allowed : Op → Prop} (lawful : L.Lawful fit allowed)
  {w w' : World} {stack stack' : List Frame} {outer : Option Op}

include lawful

/-- Calls on the same handler begin alike. -/
theorem agree_openCall (worlds : w.Alike L w')
    (waiting : List.Forall₂ (Frame.Awaits L) stack stack') (kind : ChangeKind) (h : HandlerId)
    {body body' : Frame} (bodies : body.Alike L body') :
    Agree L outer (openCall kind h body w stack) (openCall kind h body' w' stack') := by
  have entered := worlds.record (.same (.enter (.call kind h)) rfl)
  have refusal : ((w'.handler? h).bind fun s => s.settings.refuses? w'.depth) =
      ((w.handler? h).bind fun s => s.settings.refuses? w.depth) ∨
        (L.lenient ∧ ((w.handler? h).bind fun s => s.settings.refuses? w.depth).isSome = true) := by
    obtain ⟨found, found'⟩ | ⟨s, s', found, found', same⟩ := rel_cases (worlds.handler? h)
    · rw [found, found']
      exact .inl rfl
    · rw [found, found', worlds.depth]
      exact lawful.refuses w.depth same.settings
  simp only [openCall, World.handler?_record, World.depth_record]
  obtain same | ⟨lenient, refused⟩ := refusal
  · left
    rw [same]
    split
    · rename_i limit _
      rw [worlds.depth]
      exact .answered ((entered.note _).record (.same _ rfl)) waiting (.same _ _)
    · rw [worlds.depth]
      exact .running (entered.deepen _) bodies (.cons (.same _ rfl) waiting)
  · right
    obtain ⟨limit, refuses⟩ := Option.isSome_iff_exists.mp refused
    rw [refuses]
    refine ⟨lenient, h, w.depth, limit, ?_⟩
    simp [Config.answered, World.note_eq_record]

theorem agree_openMove (worlds : w.Alike L w')
    (waiting : List.Forall₂ (Frame.Awaits L) stack stack') (d : Direction) (h : HandlerId)
    (filter : Option Presence) {pulls pulls' : List (Pull Op)}
    (alike : Pulls.Alike L pulls pulls') :
    Agree L outer (openMove d h ⟨filter, pulls⟩ w stack)
      (openMove d h ⟨filter, pulls'⟩ w' stack') :=
  agree_openCall lawful worlds waiting _ _ (.reading h (.move d) filter alike [])

theorem agree_openReset (worlds : w.Alike L w')
    (waiting : List.Forall₂ (Frame.Awaits L) stack stack') (h : HandlerId) :
    Agree L outer (openReset h w stack) (openReset h w' stack') :=
  agree_openCall lawful worlds waiting _ _ (.same _ rfl)

/-- Operations that are alike begin alike. -/
theorem agree_perform (fits : fit w) (fits' : fit w') (worlds : w.Alike L w')
    (waiting : List.Forall₂ (Frame.Awaits L) stack stack') {op op' : Op} (ops : op.Alike L op')
    (isAllowed : allowed op) (asked : answered? outer stack = some op) :
    Agree L outer (perform op w stack) (perform op' w' stack') := by
  have refused : ∀ r, Agree L outer (answered w stack r) (answered w' stack' r) :=
    fun r => .inl (.answered worlds waiting (.same _ r))
  cases ops with
  | act actions =>
      obtain ⟨replies, after⟩ := worlds.execute lawful fits fits' actions isAllowed
      exact .inl (.answered after waiting (asked ▸ replies))
  | move d name filter pulls =>
      simp only [perform, onHandler, worlds.handlerNamed?]
      split
      · exact refused _
      · exact agree_openMove lawful worlds waiting d _ filter pulls
  | reset name =>
      simp only [perform, onHandler, worlds.handlerNamed?]
      split
      · exact refused _
      · exact agree_openReset lawful worlds waiting _
  | isHighlighted name filter pulls =>
      simp only [perform, onHandler, worlds.handlerNamed?]
      split
      · exact refused _
      · exact .inl (.running worlds (.reading _ _ _ pulls _) waiting)
  | swapMapper name mappers =>
      simp only [perform, onTranslator, worlds.translatorNamed?]
      split
      · exact refused _
      · rename_i t _
        obtain ⟨found, found'⟩ | ⟨s, s', found, found', same⟩ := rel_cases (worlds.translator? t)
        · rw [found, found']
          exact refused _
        · rw [found, found']
          cases mappers with
          | none =>
              simp only [same.source]
              exact agree_openReset lawful worlds (.cons (.same _ rfl) waiting) _
          | some answers scripts origins =>
              obtain ⟨mapper, placed⟩ :=
                worlds.addMapper ⟨answers, scripts, origins, MapperState.asked_ofSpec _ _⟩
              simp only [same.source, World.addMapperOf, mapper]
              exact agree_openReset lawful placed (.cons (.same _ rfl) waiting) _
  | dropTranslator name =>
      simp only [perform, onTranslator, worlds.translatorNamed?]
      split
      · exact refused _
      · rename_i t named
        obtain ⟨found, found'⟩ | ⟨s, s', found, found', -⟩ := rel_cases (worlds.translator? t)
        · rw [found, found']
          exact refused _
        · rw [found, found']
          simp only [Frame.any_eq_of_awaits waiting fun f f' awaits => awaits.swapsMapperOf t]
          split
          · exact refused _
          · have dropped := lawful.dropTranslator fits fits' worlds named found found'
            exact .inl (.answered (dropped.forget name) waiting (.same _ _))

omit lawful in
/-- A view that both sessions have is told alike. -/
theorem alike_tellView (worlds : w.Alike L w')
    (waiting : List.Forall₂ (Frame.Awaits L) stack stack') {name : String}
    (shared : L.aside name = false) (e : Event) :
    (tellView name e w stack).Alike L outer (tellView name e w' stack') := by
  rw [tellView, tellView]
  obtain ⟨found, found'⟩ | ⟨v, v', found, found', same⟩ := rel_cases (worlds.views name)
  · rw [found, found']
    exact .answered worlds waiting (.same _ _)
  · obtain ⟨behaves, ran, told⟩ := same.shared shared
    have recorded := worlds.record
      (.same (.callback (.view name) e w.depth (!v.behavior.deaf)) rfl)
    simp only [found, found', behaves.deaf, behaves.propagate, behaves.fault, ran, told,
      worlds.depth]
    obtain ⟨quiet, quiet'⟩ | ⟨ops, ops', runs, runs', scripts⟩ :=
      rel_cases (behaves.scripts v.ran e)
    · rw [quiet, quiet']
      have after := recorded.modifyView (f := fun v => { v with told := v.told + 1 })
        (fun _ _ ran told => ⟨ran, congrArg (· + 1) told⟩) (fun _ => rfl) name
      rw [← recorded.faultOf]
      exact .answered after waiting (.same _ _)
    · rw [runs, runs']
      have after := recorded.modifyView
        (f := fun v => { v with told := v.told + 1, ran := v.ran + 1 })
        (fun _ _ ran told => ⟨congrArg (· + 1) ran, congrArg (· + 1) told⟩) (fun _ => rfl) name
      exact .running after (.script scripts none) (.cons (.same _ rfl) waiting)

/-- A listener that both sessions have is told alike. -/
theorem agree_tell (worlds : w.Alike L w')
    (waiting : List.Forall₂ (Frame.Awaits L) stack stack') {l : Listener}
    (shared : L.shares l = true) (e : Event) :
    Agree L outer (tell l e w stack) (tell l e w' stack') := by
  cases l with
  | view name => exact .inl (alike_tellView worlds waiting (by simpa using shared) e)
  | sourceLink t =>
      have recorded := worlds.record (.same (.callback (.sourceLink t) e w.depth true) rfl)
      have answers : ∀ r, Agree L outer
          (answered (w.record (.callback (.sourceLink t) e w.depth true)) stack r)
          (answered (w'.record (.callback (.sourceLink t) e w.depth true)) stack' r) :=
        fun r => .inl (.answered recorded waiting (.same _ r))
      simp only [tell, World.translator?_record, worlds.depth]
      obtain ⟨found, found'⟩ | ⟨s, s', found, found', same⟩ := rel_cases (worlds.translator? t)
      · rw [found, found']
        exact answers _
      · simp only [found, found', recorded.isAtWork waiting t]
        split
        · split
          · rename_i d keys _
            have entered := recorded.record (.same (.enter .forward) rfl)
            simp only [tellForward, same.mapper, same.targetHandlers]
            split
            · exact .inl (.answered entered (.cons (.same _ rfl) waiting) (.same _ _))
            · exact .inl (.answered entered (.cons (.same _ rfl) waiting) (.same _ _))
            · exact .inl (.running entered (.mapping _ _ _ _ _ _ rfl _ _)
                (.cons (.same _ rfl) waiting))
          · rw [same.targetHandlers]
            exact .inl (.running recorded (.same _ rfl) waiting)
        · exact answers _
  | resetLink t =>
      have recorded := worlds.record (.same (.callback (.resetLink t) e w.depth true) rfl)
      have answers : ∀ r, Agree L outer
          (answered (w.record (.callback (.resetLink t) e w.depth true)) stack r)
          (answered (w'.record (.callback (.resetLink t) e w.depth true)) stack' r) :=
        fun r => .inl (.answered recorded waiting (.same _ r))
      simp only [tell, World.translator?_record, worlds.depth]
      obtain ⟨found, found'⟩ | ⟨s, s', found, found', same⟩ := rel_cases (worlds.translator? t)
      · rw [found, found']
        exact answers _
      · rw [found, found']
        obtain ⟨source, change⟩ := e
        cases change with
        | move d keys => exact answers _
        | reset =>
            simp only [same.source, recorded.isHeld waiting s.source]
            split
            · exact agree_openReset lawful recorded waiting _
            · exact answers _

theorem alike_announce (worlds : w.Alike L w')
    (waiting : List.Forall₂ (Frame.Awaits L) stack stack') (h : HandlerId) (c : Change) (n : Note) :
    (announce h c n w stack).Alike L outer (announce h c n w' stack') :=
  .running ((worlds.change h c).note n) (.fanOut _ (worlds.listeners lawful h) none) waiting

theorem alike_finishReading (worlds : w.Alike L w')
    (waiting : List.Forall₂ (Frame.Awaits L) stack stack') (h : HandlerId) (purpose : Purpose)
    (taken : List Key) :
    (finishReading h purpose taken w stack).Alike L outer
      (finishReading h purpose taken w' stack') := by
  cases purpose with
  | query =>
      simp only [finishReading, worlds.keysOf]
      exact .answered worlds waiting (.same _ _)
  | move d =>
      simp only [finishReading, worlds.keysOf]
      split
      · exact .answered (worlds.note _) waiting (.same _ _)
      · exact alike_announce lawful worlds waiting h _ _

theorem alike_clear (worlds : w.Alike L w') (waiting : List.Forall₂ (Frame.Awaits L) stack stack')
    (h : HandlerId) : (clear h w stack).Alike L outer (clear h w' stack') := by
  simp only [clear, worlds.keysOf]
  split
  · exact .answered (worlds.note _) waiting (.same _ _)
  · exact alike_announce lawful worlds waiting h _ _

omit lawful in
theorem alike_finishMapping (worlds : w.Alike L w')
    (waiting : List.Forall₂ (Frame.Awaits L) stack stack') (d : Direction)
    (targets : List HandlerId) (keys : KeySet) {mapped mapped' : List KeySet}
    (same : KeySet.unionAll mapped' = KeySet.unionAll mapped) :
    (finishMapping d targets keys mapped w stack).Alike L outer
      (finishMapping d targets keys mapped' w' stack') := by
  simp only [finishMapping, same]
  split
  · exact .answered (worlds.note _) waiting (.same _ _)
  · exact .running (worlds.note _) (.same _ rfl) waiting

theorem alike_ask (worlds : w.Alike L w') (m : MapperId) (k : Key) :
    L.answer (ask m k w).1 (ask m k w').1 ∧ Script.Alike L (ask m k w).2.1 (ask m k w').2.1 ∧
      (ask m k w).2.2.Alike L (ask m k w').2.2 := by
  rw [ask, ask]
  obtain ⟨found, found'⟩ | ⟨s, s', found, found', same⟩ := rel_cases (worlds.mapper? m)
  · rw [found, found']
    exact ⟨lawful.unasked, .nil, worlds⟩
  · rw [found, found']
    simp only [same.asked, worlds.depth]
    exact ⟨same.answers _ _, same.scripts _ _,
      (worlds.record (.question m k w.depth same.origin)).asked m⟩

/-- A mapper that has answered goes on alike. -/
theorem alike_resumeMapping (worlds : w.Alike L w')
    (waiting : List.Forall₂ (Frame.Awaits L) stack stack') (t : TranslatorId) (d : Direction)
    (m : MapperId) (targets : List HandlerId) (keys : KeySet) (k : Key) (pending : List Key)
    {mapped mapped' : List KeySet} (same : KeySet.unionAll mapped' = KeySet.unionAll mapped)
    {a a' : Answer} (answers : L.answer a a') :
    (resumeMapping t d m targets keys k pending mapped a w stack).Alike L outer
      (resumeMapping t d m targets keys k pending mapped' a' w' stack') := by
  obtain ⟨message, rfl, rfl⟩ | ⟨fine, fine', rfl, rfl, keys'⟩ := lawful.answers answers
  · simp only [resumeMapping, worlds.source]
    exact .answered (worlds.note _) waiting (.same _ _)
  · have goesOn : ∀ (o : Option KeySet) (sets : List KeySet) (v : World) (below : List Frame),
        resumeMapping t d m targets keys k pending sets (.ok o) v below =
          running v (.mapping t d m targets keys pending (o.toList ++ sets) none :: below) := by
      intro o sets v below
      cases o <;> rfl
    have mem : ∀ (o : Option KeySet) (sets : List KeySet) (k : Key),
        k ∈ KeySet.unionAll (o.toList ++ sets) ↔
          (∃ s, o = some s ∧ k ∈ s) ∨ k ∈ KeySet.unionAll sets := by
      intro o sets k
      simp [or_and_right, exists_or]
    have grown : KeySet.unionAll (fine'.toList ++ mapped') =
        KeySet.unionAll (fine.toList ++ mapped) :=
      KeySet.ext_mem fun k => by rw [mem, mem, same, keys']
    rw [goesOn, goesOn]
    exact .running worlds (.mapping _ _ _ _ _ _ grown _ _) waiting

/-- A frame that is handed a reply goes on alike. -/
theorem alike_resume (worlds : w.Alike L w')
    (waiting : List.Forall₂ (Frame.Awaits L) stack stack') {f f' : Frame} (awaits : f.Awaits L f')
    {r r' : Reply} (replies : r.Alike L f.due? r') :
    (resume f r w stack).Alike L outer (resume f' r' w' stack') := by
  have faults := replies.fault?
  cases awaits with
  | script alike rest first =>
      simp only [resume, faults]
      exact .running (worlds.record (.performed alike replies)) (.script rest _) waiting
  | reading h purpose filter alike rest taken =>
      exact .running (worlds.record (.performed alike replies)) (.reading _ _ _ rest _) waiting
  | fanOut e l rest first =>
      simp only [resume, faults]
      split
      · exact .running (worlds.note _) (.fanOut e rest _) waiting
      · exact .running worlds (.fanOut e rest _) waiting
  | mapping t d m targets keys k pending same answers =>
      exact alike_resumeMapping lawful worlds waiting t d m targets keys k pending same answers
  | same f plain =>
      cases f with
      | script | reading | fanOut | mapping => cases plain
      | clearing h => exact .running worlds (.same _ rfl) waiting
      | call kind h =>
          simp only [resume, worlds.depth]
          have left := (worlds.deepen (w.depth - 1)).record (.same (.exit (.call kind h)) rfl)
          exact .answered left waiting (replies.of_none _)
      | callback propagate fault =>
          simp only [resume, faults, worlds.faultOf]
          exact .answered worlds waiting (.same _ _)
      | forward t =>
          exact .answered (worlds.record (.same (.exit .forward) rfl)) waiting (replies.of_none _)
      | forwarding d keys targets pending first =>
          simp only [resume, faults]
          exact .running worlds (.same _ rfl) waiting
      | resetTargets t pending first =>
          simp only [resume, faults]
          exact .running worlds (.same _ rfl) waiting
      | swap t m =>
          simp only [resume, worlds.source]
          exact .answered ((worlds.setMapper t m).note _) waiting (replies.of_none _)

end Lawful

end Config

end HighlightSync
