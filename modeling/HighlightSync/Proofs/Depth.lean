import HighlightSync.Proofs.History

/-!
# Depth accounting

The depth is one counter for all handlers. A call that is accepted counts it up, and the
frame that leaves the call counts it down, on whatever way the body of the call ended.

Every move of a session stays on its level, or makes a call, or leaves one (`Shift`,
`Next.shift`). Hence in all that is reached the depth is the number of calls on the stack,
every depth in the journal is the number of calls that were entered and not left before
(`Accounted`), and a handler refuses a call exactly when as many calls are open as its
limit says.
-/

namespace HighlightSync

/-- Whether the frame leaves a call, which is open until then. -/
def Frame.isCall : Frame → Bool
  | .call _ _ => true
  | _ => false

namespace Record

/-- Whether a call is entered. -/
def entersCall : Record → Bool
  | .enter (.call _ _) => true
  | _ => false

/-- Whether a call is left. -/
def leavesCall : Record → Bool
  | .exit (.call _ _) => true
  | _ => false

/-- The depth of the cascade that was seen. -/
def depth? : Record → Option Nat
  | .callback _ _ depth _ | .keyRead _ _ depth | .question _ _ _ depth => some depth
  | _ => none

/-- A record that enters and leaves no call and saw no depth but the given one. -/
structure Level (depth : Nat) (r : Record) : Prop where
  enters : r.entersCall = false
  leaves : r.leavesCall = false
  seen : ∀ n ∈ r.depth?, n = depth

end Record

/-- As many calls were entered as were left, and `depth` more. A call that is refused is
entered and left at once. -/
def Tally (records : List Record) (depth : Nat) : Prop :=
  records.countP Record.entersCall = records.countP Record.leavesCall + depth

/-- Every depth that was seen is the tally of the records before. -/
def Seen (records : List Record) : Prop :=
  ∀ before r after n, records = before ++ r :: after → n ∈ r.depth? → Tally before n

theorem Seen.concat {records : List Record} {r : Record} (h : Seen records)
    (last : ∀ n ∈ r.depth?, Tally records n) : Seen (records ++ [r]) := by
  intro before r' after n cut mem
  obtain rfl | ⟨after, x, rfl⟩ := List.eq_nil_or_concat' after
  · obtain ⟨rfl, same⟩ := List.append_inj' cut rfl
    cases same
    exact last n mem
  · rw [← List.cons_append, ← List.append_assoc] at cut
    exact h before r' after n (List.append_inj' cut rfl).1 mem

namespace Tally

variable {records : List Record} {depth : Nat}

theorem level {r : Record} (h : Tally records depth) (level : r.Level depth) :
    Tally (records ++ [r]) depth := by
  simpa [Tally, level.enters, level.leaves] using h

theorem note (h : Tally records depth) (n : Note) : Tally (records ++ [.note n]) depth :=
  h.level ⟨rfl, rfl, by simp [Record.depth?]⟩

theorem enter (h : Tally records depth) (kind : ChangeKind) (g : HandlerId) :
    Tally (records ++ [.enter (.call kind g)]) (depth + 1) := by
  simp only [Tally, List.countP_append, List.countP_singleton, Record.entersCall,
    Record.leavesCall] at h ⊢
  simp
  omega

theorem leave (h : Tally records (depth + 1)) (kind : ChangeKind) (g : HandlerId) :
    Tally (records ++ [.exit (.call kind g)]) depth := by
  simp only [Tally, List.countP_append, List.countP_singleton, Record.entersCall,
    Record.leavesCall] at h ⊢
  simp
  omega

/-- Records on one level keep the tally, and see it. -/
theorem append {more : List Record} (h : Tally records depth) (seen : Seen records)
    (levels : ∀ r ∈ more, r.Level depth) :
    Tally (records ++ more) depth ∧ Seen (records ++ more) := by
  induction more generalizing records with
  | nil => simpa using ⟨h, seen⟩
  | cons r more ih =>
      have level := levels r List.mem_cons_self
      have seen := seen.concat fun n mem => level.seen n mem ▸ h
      have both := ih (h.level level) seen fun r mem => levels r (List.mem_cons_of_mem _ mem)
      rwa [List.append_assoc] at both

end Tally

/-- The depth limit of a handler, if it has one. -/
def Layout.limit? (l : Layout) (h : HandlerId) : Option Nat :=
  (l.handler h).bind fun s => s.settings.depthLimit

namespace World

theorem limit?_layout (w : World) (h : HandlerId) :
    w.layout.limit? h = (w.handler? h).bind fun s => s.settings.depthLimit := by
  simp only [Layout.limit?, layout]
  cases w.handler? h <;> rfl

theorem refuses?_eq_some_iff {w : World} {h : HandlerId} {depth limit : Nat} :
    ((w.handler? h).bind fun s => s.settings.refuses? depth) = some limit ↔
      w.layout.limit? h = some limit ∧ limit ≤ depth := by
  rw [limit?_layout]
  cases w.handler? h with
  | none => simp
  | some s => exact Settings.refuses?_eq_some_iff

/-- No handler has settings that are at fault, and names stand for handlers that are there. -/
structure Admissible (w : World) : Prop where
  settings : ∀ h s, w.handler? h = some s → s.settings.fault? = none
  named : ∀ name h, (name, .handler h) ∈ w.names → (w.handler? h).isSome = true

theorem Admissible.of_same {w v : World} (admissible : w.Admissible)
    (handlers : v.handlers = w.handlers) (names : v.names = w.names) : v.Admissible := by
  have same : v.handler? = w.handler? := by
    funext h
    rw [handler?, handlers, handler?]
  exact ⟨same ▸ admissible.settings, names ▸ same ▸ admissible.named⟩

theorem mem_names_of_handlerNamed? {w : World} {name : String} {h : HandlerId}
    (named : w.handlerNamed? name = some h) : (name, .handler h) ∈ w.names := by
  rw [handlerNamed?] at named
  split at named
  · rename_i g found
    cases named
    obtain ⟨front, back, split, -⟩ := List.lookup_eq_some_iff.mp found
    exact split ▸ List.mem_append_right _ List.mem_cons_self
  · cases named

theorem Admissible.present {w : World} (admissible : w.Admissible) {name : String}
    {h : HandlerId} (named : w.handlerNamed? name = some h) : (w.handler? h).isSome = true :=
  admissible.named name h (mem_names_of_handlerNamed? named)

theorem Admissible.limit?_ne_zero {w : World} (admissible : w.Admissible) (h : HandlerId) :
    w.layout.limit? h ≠ some 0 := by
  rw [limit?_layout]
  intro zero
  obtain ⟨s, hs, limit⟩ := Option.bind_eq_some_iff.mp zero
  exact Settings.fault?_eq_none_iff.mp (admissible.settings h s hs) limit

/-- A world leads to another by work that neither enters nor leaves a call. -/
structure Level (w v : World) : Prop where
  depth : v.depth = w.depth
  journal : ∃ more, v.journal.toList = w.journal.toList ++ more ∧ ∀ r ∈ more, r.Level w.depth
  admissible : w.Admissible → v.Admissible

namespace Level

variable {w v u : World}

theorem of_same (handlers : v.handlers = w.handlers) (names : v.names = w.names)
    (depth : v.depth = w.depth) (journal : v.journal = w.journal) : w.Level v where
  depth := depth
  journal := ⟨[], by simp [journal], by simp⟩
  admissible admissible := admissible.of_same handlers names

theorem refl (w : World) : w.Level w := .of_same rfl rfl rfl rfl

theorem trans (first : w.Level v) (second : v.Level u) : w.Level u where
  depth := second.depth.trans first.depth
  journal := by
    obtain ⟨more, grown, level⟩ := first.journal
    obtain ⟨more', grown', level'⟩ := second.journal
    refine ⟨more ++ more', by rw [grown', grown, List.append_assoc], fun r mem => ?_⟩
    obtain mem | mem := List.mem_append.mp mem
    · exact level r mem
    · exact first.depth ▸ level' r mem
  admissible := second.admissible ∘ first.admissible

theorem record (w : World) {r : Record} (level : r.Level w.depth) : w.Level (w.record r) where
  depth := rfl
  journal := ⟨[r], toList_journal_record w r, by simpa using level⟩
  admissible admissible := admissible.of_same rfl rfl

theorem note (w : World) (n : Note) : w.Level (w.note n) :=
  .record w ⟨rfl, rfl, by simp [Record.depth?]⟩

theorem noted (level : w.Level v) (n : Note) : w.Level (v.note n) := level.trans (.note v n)

theorem congr (level : w.Level v) (handlers : u.handlers = v.handlers) (names : u.names = v.names)
    (depth : u.depth = v.depth) (journal : u.journal = v.journal) : w.Level u :=
  level.trans (.of_same handlers names depth journal)

theorem modifyHandler (w : World) (h : HandlerId) {f : HandlerState → HandlerState}
    (same : ∀ s, (f s).settings = s.settings) : w.Level (w.modifyHandler h f) where
  depth := rfl
  journal := ⟨[], by simp [World.modifyHandler], by simp⟩
  admissible admissible := by
    refine ⟨fun g s hs => ?_, fun name g named => ?_⟩
    · rw [handler?_modifyHandler] at hs
      split at hs
      · obtain ⟨s', hs', rfl⟩ := Option.map_eq_some_iff.mp hs
        rw [same]
        exact admissible.settings g s' hs'
      · exact admissible.settings g s hs
    · have present := admissible.named name g named
      rw [handler?_modifyHandler]
      split
      · rwa [Option.isSome_map]
      · exact present

theorem modifyTranslator (w : World) (t : TranslatorId) (f : TranslatorState → TranslatorState) :
    w.Level (w.modifyTranslator t f) :=
  .of_same rfl rfl rfl rfl

theorem forget (w : World) (name : String) : w.Level (w.forget name) where
  depth := rfl
  journal := ⟨[], by simp [World.forget], by simp⟩
  admissible admissible :=
    ⟨admissible.settings, fun other h named =>
      admissible.named other h (List.mem_filter.mp named).1⟩

theorem bind (w : World) (name : String) {s : Subject}
    (present : ∀ h, s = .handler h → (w.handler? h).isSome = true) :
    w.Level (w.bind name s) where
  depth := rfl
  journal := ⟨[], by simp [World.bind], by simp⟩
  admissible admissible := by
    refine ⟨admissible.settings, fun other h named => ?_⟩
    obtain named | new := List.mem_append.mp named
    · exact admissible.named other h named
    · cases List.mem_singleton.mp new
      exact present h rfl

theorem setRegistry (w : World) (h : HandlerId) (r : Registry Listener) :
    w.Level (w.setRegistry h r) :=
  .modifyHandler w h fun _ => rfl

theorem addHandler (w : World) {settings : Settings} (sound : settings.fault? = none) :
    w.Level (w.addHandler settings).2 where
  depth := rfl
  journal := ⟨[], by simp [World.addHandler], by simp⟩
  admissible admissible := by
    have stored : ∀ h, (w.addHandler settings).2.handler? h =
        if h.number = w.handlers.next then some ⟨settings, ∅, ∅⟩ else w.handler? h := fun h =>
      Store.get?_push w.handlers _ h.number
    refine ⟨fun h s hs => ?_, fun name h named => ?_⟩
    · rw [stored] at hs
      split at hs
      · cases hs
        exact sound
      · exact admissible.settings h s hs
    · have present := admissible.named name h named
      rw [stored]
      split
      · rfl
      · exact present

theorem attach (w : World) (h : HandlerId) (l : Listener) : w.Level (w.attach h l).2 := by
  simp only [World.attach]
  split
  · exact .refl w
  · exact (setRegistry w h _).noted _

theorem detach (w : World) (h : HandlerId) (id : ListenerId) : w.Level (w.detach h id).2 := by
  simp only [World.detach]
  split
  · exact (setRegistry w h _).noted _
  · exact .refl w

theorem detachListener (w : World) (h : HandlerId) (l : Listener) :
    w.Level (w.detachListener h l).2 := by
  rw [World.detachListener]
  split
  · exact detach w h _
  · exact .refl w

theorem release (w : World) (target : Target) : w.Level (w.release target) :=
  (detach w _ _).noted _

theorem foldl_release (targets : List Target) (w : World) :
    w.Level (targets.foldl World.release w) := by
  induction targets generalizing w with
  | nil => exact .refl w
  | cons target targets ih => exact (release w target).trans (ih _)

theorem removeAllTargets (w : World) (t : TranslatorId) (s : TranslatorState) :
    w.Level (w.removeAllTargets t s) :=
  (modifyTranslator w t _).trans (foldl_release s.targets _)

theorem dropTranslator (w : World) (t : TranslatorId) (s : TranslatorState) :
    w.Level (w.dropTranslator t s) :=
  (((removeAllTargets w t s).trans (detach _ _ _)).noted _).trans (modifyTranslator _ t _)

theorem addTranslator (w : World) (source : HandlerId) : w.Level (w.addTranslator source).2 :=
  ((attach w source (.sourceLink ⟨w.translators.next⟩)).noted (.translatorAttached source)).congr
    rfl rfl rfl rfl

theorem introduce (w : World) (name : String) (source : HandlerId) :
    w.Level (w.introduce name source) :=
  (addTranslator w source).trans (bind _ name (by simp))

theorem addTarget (w : World) (t : TranslatorId) (s : TranslatorState) (h : HandlerId) :
    w.Level (w.addTarget t s h).2 := by
  rw [World.addTarget]
  split
  · exact .refl w
  · split
    · exact .refl w
    · exact ((attach w h _).noted _).trans (modifyTranslator _ t _)

theorem removeTarget (w : World) (t : TranslatorId) (s : TranslatorState) (h : HandlerId) :
    w.Level (w.removeTarget t s h).2 := by
  rw [World.removeTarget]
  split
  · exact (modifyTranslator w t _).trans (release _ _)
  · exact .refl w

end Level

/-- An action stays on its level, and makes no handler whose settings are at fault. -/
theorem Effect.level {w v : World} {a : Action Op} (h : w.Effect a v) : w.Level v := by
  cases h with
  | nothing => exact .refl w
  | createHandler _ sound =>
      refine (Level.addHandler w sound).trans (.bind _ _ ?_)
      rintro h ⟨⟩
      rw [World.addHandler, handler?, Store.get?_push, if_pos rfl]
      rfl
  | dropHandler => exact .forget w _
  | createListener => exact .of_same rfl rfl rfl rfl
  | addListener => exact .attach w _ _
  | removeListener => exact .detachListener w _ _
  | removeListenerId => exact .detach w _ _
  | removeAllListeners => exact .setRegistry w _ _
  | createTranslator => exact .introduce w _ _
  | createMapped => exact (Level.introduce w _ _).congr rfl rfl rfl rfl
  | addTarget => exact .addTarget w _ _ _
  | removeTarget => exact .removeTarget w _ _ _
  | removeAllTargets => exact .removeAllTargets w _ _

end World

namespace Config

/-- The number of calls that are open: accepted and not left yet. -/
def openCalls (stack : List Frame) : Nat := stack.countP Frame.isCall

@[simp] theorem openCalls_nil : openCalls [] = 0 := rfl

@[simp] theorem openCalls_call (kind : ChangeKind) (h : HandlerId) (stack : List Frame) :
    openCalls (.call kind h :: stack) = openCalls stack + 1 :=
  List.countP_cons_of_pos rfl

@[simp] theorem openCalls_cons {f : Frame} (stack : List Frame) (other : f.isCall = false) :
    openCalls (f :: stack) = openCalls stack :=
  List.countP_cons_of_neg (by simp [other])

/-- What a move does to the depth: it stays on the level, or makes a call after some work on
the level, or leaves the innermost call. -/
inductive Shift (c : Config) : Config → Prop where
  | level {d} : c.world.Level d.world → openCalls d.stack = openCalls c.stack → Shift c d
  | call {kind h body v below} : c.world.Level v → openCalls below = openCalls c.stack →
      body.isCall = false → Shift c (openCall kind h body v below)
  | leave {kind h stack} (r : Reply) : c.stack = .call kind h :: stack →
      Shift c (answered ({ c.world with depth := c.world.depth - 1 }.record
        (.exit (.call kind h))) stack r)

section Shift

variable (w : World) (stack : List Frame) (reply : Option Reply)

/-- An operation begins on the level it is performed on, or by a call. -/
theorem Begins.shift {w : World} {stack : List Frame} {op : Op} {d : Config}
    (h : Begins w stack op d) : Shift ⟨w, stack, reply⟩ d := by
  cases h with
  | refused => exact .level (.refl w) rfl
  | act effect => exact .level effect.level rfl
  | move => exact .call (.refl w) rfl rfl
  | reset => exact .call (.refl w) rfl rfl
  | isHighlighted => exact .level (.refl w) (openCalls_cons _ rfl)
  | clearMapper => exact .call (.refl w) (openCalls_cons _ rfl) rfl
  | @setMapper name spec =>
      exact .call (v := (w.addMapperOf spec).2) (.of_same rfl rfl rfl rfl)
        (openCalls_cons _ rfl) rfl
  | @dropTranslator name t s =>
      exact .level ((World.Level.dropTranslator w t s).trans (.forget _ name)) rfl

/-- A listener that is told of an event sees the depth; a reset link may then make a call. -/
theorem shift_tell (l : Listener) (e : Event) : Shift ⟨w, stack, reply⟩ (tell l e w stack) := by
  have seen : ∀ heeded, w.Level (w.record (.callback l e w.depth heeded)) := fun _ =>
    .record w ⟨rfl, rfl, by simp [Record.depth?]⟩
  cases l with
  | view name =>
      simp only [tell, tellView]
      split
      · exact .level (.refl w) rfl
      · rename_i v _
        split
        · exact .level ((seen !v.behavior.deaf).congr rfl rfl rfl rfl) rfl
        · exact .level ((seen !v.behavior.deaf).congr rfl rfl rfl rfl) (openCalls_cons _ rfl)
  | sourceLink t =>
      simp only [tell]
      split
      · exact .level (seen true) rfl
      · split
        · cases e.change with
          | move d keys =>
              have entered : w.Level ((w.record (.callback (.sourceLink t) e w.depth true)).record
                  (.enter .forward)) :=
                (seen true).trans (.record _ ⟨rfl, rfl, by simp [Record.depth?]⟩)
              simp only [tellForward]
              split
              · exact .level entered (openCalls_cons _ rfl)
              · exact .level entered (openCalls_cons _ rfl)
              · exact .level entered (openCalls_cons _ rfl)
          | reset => exact .level (seen true) (openCalls_cons _ rfl)
        · exact .level (seen true) rfl
  | resetLink t =>
      simp only [tell]
      split
      · split
        · exact .call (seen true) rfl rfl
        · exact .level (seen true) rfl
      · exact .level (seen true) rfl

theorem level_announce (h : HandlerId) (c : Change) (n : Note) :
    w.Level (announce h c n w stack).world :=
  World.Level.noted (.modifyHandler w h (f := fun s => { s with keys := c.apply s.keys })
    fun _ => rfl) n

theorem level_ask (m : MapperId) (k : Key) : w.Level (ask m k w).2.2 := by
  rw [ask]
  split
  · exact .refl w
  · refine World.Level.trans (.record w ⟨rfl, rfl, ?_⟩) (.of_same rfl rfl rfl rfl)
    simp [Record.depth?]

/-- A frame that goes on stays on the level or makes a call. -/
theorem shift_advance (f : Frame) : Shift (running w (f :: stack)) (advance f w stack) := by
  cases f with
  | script pending first =>
      cases pending with
      | nil => exact .level (.refl w) rfl
      | cons op ops => exact (begins_perform op w _).shift none
  | reading h purpose filter pulls taken =>
      cases pulls with
      | nil =>
          cases purpose with
          | query => exact .level (.refl w) rfl
          | move d =>
              simp only [advance, finishReading]
              split
              · exact .level (.note w _) rfl
              · exact .level (level_announce w stack h _ _) rfl
      | cons pull pulls =>
          cases pull with
          | act op => exact (begins_perform op w _).shift none
          | key k => exact .level (.record w ⟨rfl, rfl, by simp [Record.depth?]⟩) rfl
  | clearing h =>
      simp only [advance, clear]
      split
      · exact .level (.note w _) rfl
      · exact .level (level_announce w stack h _ _) rfl
  | fanOut e pending first =>
      cases pending with
      | nil => exact .level (.refl w) rfl
      | cons l pending => exact shift_tell w _ none l e
  | mapping t d m targets keys pending mapped held =>
      cases pending with
      | nil =>
          simp only [advance, finishMapping]
          split
          · exact .level (.note w _) rfl
          · exact .level (.note w _) rfl
      | cons k pending => exact .level (level_ask w m k) rfl
  | forwarding d keys targets pending first =>
      cases pending with
      | nil => exact .level (.refl w) rfl
      | cons h pending => exact .call (.refl w) rfl rfl
  | resetTargets t pending first =>
      cases pending with
      | nil => exact .level (.refl w) rfl
      | cons h pending => exact .call (.refl w) rfl rfl
  | call kind h => exact .level (.refl w) rfl
  | callback propagate fault => exact .level (.refl w) rfl
  | forward t => exact .level (.refl w) rfl
  | swap t m => exact .level (.refl w) rfl

/-- A frame that is handed a reply stays on the level, unless it leaves a call. -/
theorem shift_resume (f : Frame) (r : Reply) :
    Shift (answered w (f :: stack) r) (resume f r w stack) := by
  have performed : ∀ op, w.Level (w.record (.performed op r)) := fun _ =>
    .record w ⟨rfl, rfl, by simp [Record.depth?]⟩
  cases f with
  | script pending first =>
      cases pending with
      | nil => exact .level (.refl w) rfl
      | cons op ops => exact .level (performed op) rfl
  | reading h purpose filter pulls taken =>
      cases pulls with
      | nil => exact .level (.refl w) rfl
      | cons pull pulls =>
          cases pull with
          | act op => exact .level (performed op) rfl
          | key k => exact .level (.refl w) rfl
  | clearing h => exact .level (.refl w) rfl
  | call kind h => exact .leave r rfl
  | fanOut e pending first =>
      simp only [resume]
      split
      · exact .level (.note w _) rfl
      · exact .level (.refl w) rfl
  | callback propagate fault => exact .level (.refl w) rfl
  | forward t => exact .level (.record w ⟨rfl, rfl, by simp [Record.depth?]⟩) rfl
  | mapping t d m targets keys pending mapped held =>
      cases pending with
      | nil => exact .level (.refl w) rfl
      | cons k pending =>
          cases held with
          | none => exact .level (.refl w) rfl
          | some answer =>
              simp only [resume, resumeMapping]
              split
              · exact .level (.note w _) rfl
              · exact .level (.refl w) rfl
              · exact .level (.refl w) rfl
  | forwarding d keys targets pending first => exact .level (.refl w) rfl
  | resetTargets t pending first => exact .level (.refl w) rfl
  | swap t m => exact .level (World.Level.noted (.modifyTranslator w t _) _) rfl

end Shift

theorem Next.shift {c d : Config} (h : Next c d) : Shift c d := by
  cases h with
  | perform op rest =>
      obtain ⟨w, stack, reply⟩ := c
      cases atRest_iff.mp rest
      exact (begins_perform op w []).shift reply
  | step hs =>
      obtain ⟨w, stack, reply⟩ := c
      cases stack with
      | nil => cases hs
      | cons f stack =>
          cases reply with
          | none =>
              cases hs
              exact shift_advance w stack f
          | some r =>
              cases hs
              exact shift_resume w stack f r

theorem admissible_openCall {w : World} (admissible : w.Admissible) (kind : ChangeKind)
    (h : HandlerId) (body : Frame) (stack : List Frame) :
    (openCall kind h body w stack).world.Admissible := by
  rw [openCall]
  split
  · exact admissible.of_same rfl rfl
  · exact admissible.of_same rfl rfl

theorem Next.admissible {c d : Config} (h : Next c d) (admissible : c.world.Admissible) :
    d.world.Admissible := by
  cases h.shift with
  | level level _ => exact level.admissible admissible
  | call level _ _ => exact admissible_openCall (level.admissible admissible) _ _ _ _
  | leave _ _ => exact admissible.of_same rfl rfl

theorem Path.admissible {P : Config → Prop} {c d : Config} (h : Path P c d)
    (start : c.world.Admissible) : d.world.Admissible :=
  h.keeps (I := fun c => c.world.Admissible) start fun _ _ _ _ next before => next.admissible before

theorem openCall_of_accepts {kind : ChangeKind} {h : HandlerId} {body : Frame} {w : World}
    {stack : List Frame} (accepts : ∀ limit, w.layout.limit? h = some limit → w.depth < limit) :
    openCall kind h body w stack =
      running { w.record (.enter (.call kind h)) with depth := w.depth + 1 }
        (body :: .call kind h :: stack) := by
  simp only [openCall, World.handler?_record, World.depth_record]
  split
  · rename_i limit refuses
    obtain ⟨is, reached⟩ := World.refuses?_eq_some_iff.mp refuses
    exact absurd (accepts limit is) (Nat.not_lt.mpr reached)
  · rfl

theorem openCall_of_refuses {kind : ChangeKind} {h : HandlerId} {body : Frame} {w : World}
    {stack : List Frame} {limit : Nat} (is : w.layout.limit? h = some limit)
    (reached : limit ≤ w.depth) :
    openCall kind h body w stack =
      answered (((w.record (.enter (.call kind h))).note (.cascadeRefused h w.depth limit)).record
        (.exit (.call kind h))) stack (.fault (.cascadeTooDeep limit)) := by
  have refuses := World.refuses?_eq_some_iff.mpr ⟨is, reached⟩
  simp only [openCall, World.handler?_record, World.depth_record, refuses]

/-- The journal tells of as many calls that were not left as the depth says, and so it did whenever
a depth was seen. -/
structure Recorded (w : World) : Prop where
  tally : Tally w.journal.toList w.depth
  seen : Seen w.journal.toList

/-- The depth is accounted for: it is the number of calls on the stack, the journal tells of
as many calls that were not left, and so it did whenever a depth was seen. -/
structure Accounted (c : Config) : Prop where
  depth : c.world.depth = openCalls c.stack
  recorded : Recorded c.world
  admissible : c.world.Admissible

section Moves

variable {c d : Config} {w v : World}

theorem depth_openCall {stack : List Frame} (depth : w.depth = openCalls stack)
    (kind : ChangeKind) (h : HandlerId) {body : Frame} (other : body.isCall = false) :
    (openCall kind h body w stack).world.depth =
      openCalls (openCall kind h body w stack).stack := by
  rw [openCall]
  split
  · exact depth
  · simp only [running, openCalls_cons _ other, openCalls_call, World.depth_record, depth]

theorem Next.depth (h : Next c d) (depth : c.world.depth = openCalls c.stack) :
    d.world.depth = openCalls d.stack := by
  cases h.shift with
  | level level calls => rw [level.depth, calls, depth]
  | call level calls other => exact depth_openCall (by rw [level.depth, calls, depth]) _ _ other
  | leave r innermost =>
      rw [innermost, openCalls_call] at depth
      simp only [answered, World.depth_record, depth, Nat.add_sub_cancel]

theorem Recorded.level (recorded : Recorded w) (level : w.Level v) : Recorded v := by
  obtain ⟨more, grown, levels⟩ := level.journal
  obtain ⟨tally, seen⟩ := recorded.tally.append recorded.seen levels
  exact ⟨by rw [grown, level.depth]; exact tally, grown ▸ seen⟩

theorem Recorded.openCall (recorded : Recorded w) (kind : ChangeKind) (h : HandlerId)
    (body : Frame) (stack : List Frame) : Recorded (openCall kind h body w stack).world := by
  have entered := recorded.tally.enter kind h
  have seen := recorded.seen.concat (r := .enter (.call kind h)) (by simp [Record.depth?])
  rw [Config.openCall]
  split
  · rename_i limit _
    refine ⟨?_, ?_⟩
    · simp only [answered, World.toList_journal_record, World.note_eq_record]
      exact (entered.note (.cascadeRefused h w.depth limit)).leave kind h
    · simp only [answered, World.toList_journal_record, World.note_eq_record]
      exact (seen.concat (by simp [Record.depth?])).concat (by simp [Record.depth?])
  · refine ⟨?_, ?_⟩
    · simp only [running, World.toList_journal_record]
      exact entered
    · simp only [running, World.toList_journal_record]
      exact seen

theorem Recorded.leave (recorded : Recorded w) (kind : ChangeKind) (h : HandlerId) {n : Nat}
    (depth : w.depth = n + 1) :
    Recorded ({ w with depth := w.depth - 1 }.record (.exit (.call kind h))) := by
  have tally := recorded.tally
  rw [depth] at tally
  refine ⟨?_, ?_⟩
  · simp only [World.toList_journal_record, World.depth_record, depth, Nat.add_sub_cancel]
    exact tally.leave kind h
  · simp only [World.toList_journal_record]
    exact recorded.seen.concat (by simp [Record.depth?])

theorem Next.recorded (h : Next c d) (depth : c.world.depth = openCalls c.stack)
    (recorded : Recorded c.world) : Recorded d.world := by
  cases h.shift with
  | level level _ => exact recorded.level level
  | call level _ _ => exact (recorded.level level).openCall _ _ _ _
  | leave _ innermost =>
      rw [innermost, openCalls_call] at depth
      exact recorded.leave _ _ depth

theorem Accounted.next (h : c.Accounted) (next : Next c d) : d.Accounted :=
  ⟨next.depth h.depth, next.recorded h.depth h.recorded, next.admissible h.admissible⟩

end Moves

theorem Path.accounted {P : Config → Prop} {c d : Config} (h : Path P c d)
    (start : c.Accounted) : d.Accounted :=
  h.keeps start fun _ _ _ _ next accounted => accounted.next next

theorem Reached.accounted {c : Config} (h : Reached c) : c.Accounted := by
  have empty : (∅ : World).journal.toList = [] := rfl
  refine Path.accounted h ⟨rfl, ⟨rfl, fun before r after n cut => ?_⟩, fun g s hs => ?_, ?_⟩
  · simp [empty] at cut
  · cases (Store.get?_empty g.number).symm.trans hs
  · exact fun name g named => nomatch named

theorem depth_of_accounted {kind : ChangeKind} {h : HandlerId} {body : Frame} {w : World}
    {stack : List Frame} (accounted : (openCall kind h body w stack).Accounted)
    (other : body.isCall = false) : w.depth = openCalls stack := by
  have depth := accounted.depth
  rw [openCall] at depth
  split at depth
  · exact depth
  · simpa [running, other] using depth

theorem accepts_of_admissible {w v : World} (admissible : w.Admissible) (flat : v.depth = 0)
    {h : HandlerId} (limits : v.layout.limit? h = w.layout.limit? h) {limit : Nat}
    (is : v.layout.limit? h = some limit) : v.depth < limit := by
  rw [flat, Nat.pos_iff_ne_zero]
  rintro rfl
  exact admissible.limit?_ne_zero h (limits ▸ is)

/-- In all that a session comes to that began with its depth accounted for, as when nothing has
happened yet, and so at every moment of it, the depth is the number of open calls, and every depth
seen by a callback, a question or the reading of a key was the number of calls entered and not left
before. Whatever call is made next is refused exactly when at least as many calls are open as the
limit of its handler says; then it is entered and left with a note between, and nothing else
happens. No limit is zero. At rest the depth is zero, and an operation that addresses a handler
begins with an open call on it. -/
theorem depth_exact {b c : Config} (start : b.Accounted) (path : Path (fun _ => True) b c) :
    c.world.depth = openCalls c.stack ∧ Seen c.world.journal.toList ∧
    (∀ kind h body w stack, body.isCall = false → Next c (openCall kind h body w stack) →
      (∀ limit, w.layout.limit? h = some limit → limit ≤ openCalls stack →
        openCall kind h body w stack =
          answered (((w.record (.enter (.call kind h))).note
            (.cascadeRefused h (openCalls stack) limit)).record (.exit (.call kind h))) stack
            (.fault (.cascadeTooDeep limit))) ∧
      ((∀ limit, w.layout.limit? h = some limit → openCalls stack < limit) →
        openCall kind h body w stack =
          running { w.record (.enter (.call kind h)) with depth := openCalls stack + 1 }
            (body :: .call kind h :: stack))) ∧
    (∀ h, c.world.layout.limit? h ≠ some 0) ∧
    (c.AtRest → c.world.depth = 0 ∧ ∀ op h, addressee? c.world op = some h →
      ∃ kind body w below, perform op c.world [] = running w (body :: .call kind h :: below) ∧
        openCalls below = 0) := by
  have accounted := path.accounted start
  refine ⟨accounted.depth, accounted.recorded.seen, ?_, accounted.admissible.limit?_ne_zero, ?_⟩
  · intro kind h body w stack other next
    have depth := depth_of_accounted (accounted.next next) other
    rw [← depth]
    exact ⟨fun limit is at_ => openCall_of_refuses is at_, openCall_of_accepts⟩
  · intro rest
    have flat : c.world.depth = 0 := by rw [accounted.depth, atRest_iff.mp rest, openCalls_nil]
    have accepts : ∀ {v : World} {kind h body below}, v.depth = c.world.depth →
        v.layout.limit? h = c.world.layout.limit? h → openCalls below = 0 →
        ∃ kind' body' w below', openCall kind h body v below =
          running w (body' :: .call kind' h :: below') ∧ openCalls below' = 0 :=
      fun {v kind h body below} depth limits free =>
        ⟨kind, body, _, below, openCall_of_accepts fun _ =>
          accepts_of_admissible accounted.admissible (depth.trans flat) limits, free⟩
    refine ⟨flat, fun op h addressed => ?_⟩
    cases op with
    | move d name feed =>
        simp only [perform, onHandler, show c.world.handlerNamed? name = some h from addressed]
        exact accepts rfl rfl rfl
    | reset name =>
        simp only [perform, onHandler, show c.world.handlerNamed? name = some h from addressed]
        exact accepts rfl rfl rfl
    | swapMapper name spec =>
        obtain ⟨t, named, source⟩ := Option.bind_eq_some_iff.mp addressed
        obtain ⟨s, found, rfl⟩ := Option.map_eq_some_iff.mp source
        simp only [perform, onTranslator, named, found]
        cases spec with
        | none => exact accepts rfl rfl rfl
        | some spec => exact accepts rfl rfl rfl
    | _ => cases addressed

section Examples

/-- A view that resets the handler it watches, which takes part in no cascade but its own. -/
def reentrant : List (Action Op) :=
  [.createHandler "h" ⟨none, some 1⟩,
    .createListener "v" { onlooker with
      script := fun κ => if κ = .highlight then some [.reset "h"] else none
      times := 1 },
    .addListener "h" "v"]

/-- Whether a script is about to reset the first handler of a world. -/
def isResetting (c : Config) : Bool :=
  match c.stack, c.reply with
  | .script (.reset name :: _) _ :: _, none => decide (c.world.handlerNamed? name = some ⟨1⟩)
  | _, _ => false

theorem next_of_isResetting {c : Config} (h : isResetting c = true) :
    Next c (openReset ⟨1⟩ c.world c.stack) := by
  rw [isResetting] at h
  split at h
  · rename_i name ops first below top reply
    obtain ⟨w, stack, reply'⟩ := c
    cases top
    cases reply
    refine .step ?_
    simp only [step, advance, perform, onHandler, of_decide_eq_true h]
  · cases h

/-- A reset from within the only call that the handler takes part in is refused. -/
theorem depth_exact_reentrant :
    ∃ w stack, openCalls stack = 1 ∧
      openReset ⟨1⟩ w stack =
        answered (((w.record (.enter (.call .reset ⟨1⟩))).note (.cascadeRefused ⟨1⟩ 1 1)).record
          (.exit (.call .reset ⟨1⟩))) stack (.fault (.cascadeTooDeep 1)) := by
  obtain ⟨reply, built⟩ := reached_built reentrant
  have runs : (follow (fun _ => true) 3
      (perform (.move .highlight "h" ⟨none, [.key (.int 1)]⟩) (.built reentrant) [])).any
      (fun c => isResetting c && decide (c.world.layout.limit? ⟨1⟩ = some 1) &&
        decide (c.world.depth = 1)) = true := by
    decide +kernel
  obtain ⟨c, followed, passes⟩ := (Option.any_eq_true _ _).mp runs
  simp only [Bool.and_eq_true, decide_eq_true_eq] at passes
  obtain ⟨⟨resetting, limit⟩, depth⟩ := passes
  have reached := Reached.steps (.tail built (.perform _ (atRest_iff.mpr rfl)) trivial)
    (steps_of_follow followed)
  obtain ⟨calls, -, guarded, -⟩ := depth_exact (Reached.accounted (.refl trivial)) reached
  have one : openCalls c.stack = 1 := calls.symm.trans depth
  have refused := (guarded .reset ⟨1⟩ (.clearing ⟨1⟩) c.world c.stack rfl
    (next_of_isResetting resetting)).1 1 limit (Nat.le_of_eq one.symm)
  rw [one] at refused
  exact ⟨c.world, c.stack, one, refused⟩

end Examples

end Config

end HighlightSync
