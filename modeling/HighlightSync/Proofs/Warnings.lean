import HighlightSync.Proofs.Frames
import HighlightSync.Proofs.Rearranging

/-!
# Warnings account for failures

There are three ways in which something fails: a handler refuses a call, a mapper has no answer, and
a listener reports a fault (`Failure`). Which of them a session meets in its next move is known from
what is on the stack, without a look at the journal (`Stage.failure?`): who is called while how many
calls are open, what the mapper has answered, and what came of a callback.

Every failure is noted once, where it is met, whether anybody passes it on or not, and nothing else
is warned of (`Config.meets_step`). So at every moment the warnings of a session are its failures,
in order (`Stage.warnings_eq_failures`).
-/

namespace HighlightSync

/-- Something that fails: a handler refuses a call while some calls are open, a mapper that
translates for a source fails at a key, or a listener that was told of a change of a handler reports
a fault. -/
inductive Failure where
  | refused (h : HandlerId) (openCalls limit : Nat)
  | unmapped (source : HandlerId) (k : Key) (message : String)
  | reported (l : Listener) (h : HandlerId) (f : Fault)
  deriving DecidableEq

/-- A note as it is shown: how important it is, where it comes from, its text and its fields. -/
structure LogEntry where
  level : Level
  area : Area
  text : String
  fields : List (String × Field)

/-- How a note is shown. -/
def Note.entry (n : Note) : LogEntry := ⟨n.level, n.area, n.message, n.fields⟩

namespace Failure

/-- The note that a failure leaves. -/
def note : Failure → Note
  | .refused h depth limit => .cascadeRefused h depth limit
  | .unmapped source k message => .mapperFailed source k message
  | .reported _ h f => .listenerFailed h f

/-- The warning that a failure is worth. -/
def entry : Failure → LogEntry
  | .refused _ openCalls limit =>
      ⟨.warn, .cascade, "highlight cascade too deep, refusing mutation",
        [("depth", .number openCalls), ("max_depth", .number limit)]⟩
  | .unmapped source k message =>
      ⟨.warn, .translator, "key mapper failed, event not translated",
        [("source", .text source.render), ("key", .text k.render), ("error", .text message)]⟩
  | .reported _ h f =>
      ⟨.warn, .handler, "highlight listener failed",
        [("handler", .text h.render), ("error", .text f.message)]⟩

/-- How a failure shows in the replies before and after the move in which it is met: the callback
of a listener has ended with the fault, and a refused call and a failed translation end with
theirs. -/
def Shows (before after : Option Reply) : Failure → Prop
  | .refused _ _ limit => after = some (.fault (.cascadeTooDeep limit))
  | .unmapped _ _ message => after = some (.fault (.mapper message))
  | .reported _ _ f => before.bind Reply.fault? = some f

theorem entry_note (f : Failure) : f.note.entry = f.entry := by cases f <;> rfl

theorem warning?_note (f : Failure) : (Record.note f.note).warning? = some f.note := by
  cases f <;> rfl

end Failure

/-- The handler that a listener calls when it is told of an event: a reset link passes a reset back
to the source of its translator. -/
def Listener.callee? (w : World) (stack : List Frame) (e : Event) : Listener → Option HandlerId
  | .resetLink t =>
      match e.change with
      | .reset => ((w.translator? t).map TranslatorState.source).filter (w.isHeld stack)
      | .move _ _ => none
  | _ => none

namespace Frame

/-- The handler that a frame calls when it goes on. -/
def callee? (w : World) (stack : List Frame) : Frame → Option HandlerId
  | .script (op :: _) _ | .reading _ _ _ (.act op :: _) _ => Config.addressee? w op
  | .fanOut e (l :: _) _ => l.callee? w stack e
  | .forwarding _ _ _ (h :: _) _ | .resetTargets _ (h :: _) _ => some h
  | _ => none

/-- What has failed when a frame is handed a reply: the callback of a listener has ended with it, or
the mapper has held back its answer until then. -/
def failure? (w : World) (r : Reply) : Frame → Option Failure
  | .fanOut e (l :: _) _ => r.fault?.map (.reported l e.source)
  | .mapping t _ _ _ _ (k :: _) _ (some (.error message)) =>
      some (.unmapped ((w.translator? t).elim ⟨0⟩ TranslatorState.source) k message)
  | _ => none

end Frame

/-- The refusal of a call on a handler while some calls are open, if it is refused. -/
def World.refusal? (w : World) (openCalls : Nat) (h : HandlerId) : Option Failure :=
  ((w.handler? h).bind fun s => s.settings.refuses? openCalls).map (.refused h openCalls)

/-- What fails in the next step. -/
def Config.failure? (c : Config) : Option Failure :=
  match c.stack, c.reply with
  | [], _ => none
  | f :: _, none => (f.callee? c.world c.stack).bind (c.world.refusal? (openCalls c.stack))
  | f :: _, some r => f.failure? c.world r

namespace Stage

/-- What fails in the next move. -/
def failure? (s : Stage) : Option Failure :=
  match s.underway, s.todo with
  | none, [] => none
  | none, op :: _ => (Config.addressee? s.config.world op).bind (s.config.world.refusal? 0)
  | some _, _ => s.config.failure?

/-- Where a session has come to after a number of moves. -/
def after : Nat → Stage → Stage
  | 0, s => s
  | n + 1, s => s.next?.elim s (after n)

/-- What has failed in a number of moves. -/
def failures : Nat → Stage → List Failure
  | 0, _ => []
  | n + 1, s => s.next?.elim [] fun d => s.failure?.toList ++ failures n d

end Stage

namespace Config

/-- From a world and the reply given there a session has come to a configuration. Nothing was warned
of but a failure, if there was one, and that shows. -/
structure Meets (w : World) (reply : Option Reply) (failure : Option Failure) (d : Config) :
    Prop where
  warnings : d.world.warnings = w.warnings ++ (failure.map Failure.note).toList
  shows : ∀ f, failure = some f → f.Shows reply d.reply

namespace Meets

variable {w : World} {reply : Option Reply} {d : Config}

theorem nothing (same : d.world.warnings = w.warnings) : Meets w reply none d where
  warnings := by rw [same, Option.map_none, Option.toList_none, List.append_nil]
  shows := nofun

theorem quiet {r : Record} (quiet : r.warning? = none) (same : d.world = w.record r) :
    Meets w reply none d :=
  nothing (same ▸ w.warnings_record_of_quiet quiet)

theorem noted {f : Failure} (same : d.world.warnings = (w.note f.note).warnings)
    (shows : f.Shows reply d.reply) : Meets w reply (some f) d where
  warnings := by
    rw [same, World.note_eq_record, World.warnings_record, f.warning?_note]
    rfl
  shows _ is := Option.some.inj is ▸ shows

theorem congr {failure : Option Failure} {v : World} (h : Meets w reply failure d)
    (same : v.warnings = w.warnings) : Meets v reply failure d :=
  ⟨same ▸ h.warnings, h.shows⟩

end Meets

variable {w : World} {stack : List Frame} {reply : Option Reply}

theorem meets_openCall (kind : ChangeKind) (h : HandlerId) (body : Frame) (w : World)
    (stack : List Frame) :
    Meets w reply (w.refusal? w.depth h) (openCall kind h body w stack) := by
  have entered := w.warnings_record_of_quiet (r := .enter (.call kind h)) rfl
  simp only [openCall, World.handler?_record, World.depth_record, World.refusal?]
  cases (w.handler? h).bind fun s => s.settings.refuses? w.depth with
  | none => exact .nothing entered
  | some limit =>
      refine Meets.congr (w := w.record (.enter (.call kind h))) ?_ entered.symm
      exact .noted (f := .refused h w.depth limit) (World.warnings_record_of_quiet _ rfl) rfl

/-- An operation warns of nothing but the refusal of its call. -/
theorem Begins.meets {op : Op} {w : World} {stack : List Frame} {d : Config}
    (h : Begins w stack op d) :
    Meets w reply ((addressee? w op).bind (w.refusal? w.depth)) d := by
  cases h with
  | refused nobody =>
      rw [nobody]
      exact .nothing rfl
  | act effect => exact .nothing effect.rearranges.warnings
  | move named =>
      simp only [addressee?, named]
      exact meets_openCall _ _ _ w stack
  | reset named =>
      simp only [addressee?, named]
      exact meets_openCall _ _ _ w stack
  | isHighlighted => exact .nothing rfl
  | clearMapper named found =>
      simp only [addressee?, named, found, Option.bind_some, Option.map_some]
      exact meets_openCall _ _ _ w _
  | @setMapper name spec t s named found =>
      simp only [addressee?, named, found, Option.bind_some, Option.map_some]
      exact (meets_openCall _ s.source _ (w.addMapperOf spec).2 _).congr rfl
  | @dropTranslator name t s =>
      have drops : w.Rearranges (fun _ => true) (w.dropTranslator t s) :=
        .dropTranslator (fun _ => rfl) w t s
      exact .nothing drops.warnings

theorem warnings_tellForward (t : TranslatorId) (s : TranslatorState) (d : Direction)
    (keys : KeySet) (w : World) (stack : List Frame) :
    (tellForward t s d keys w stack).world.warnings = w.warnings := by
  have entered := World.warnings_record_of_quiet w (r := .enter .forward) rfl
  simp only [tellForward]
  split <;> exact entered

/-- A listener that is told warns of nothing but the refusal of its call. -/
theorem meets_tell (l : Listener) (e : Event) (w : World) (stack : List Frame) :
    Meets w reply ((l.callee? w stack e).bind (w.refusal? w.depth)) (tell l e w stack) := by
  have told := fun heeded =>
    World.warnings_record_of_quiet w (r := .callback l e w.depth heeded) rfl
  cases l with
  | view name =>
      simp only [tell, tellView, Listener.callee?]
      split
      · exact .nothing rfl
      · split <;> exact .nothing (told _)
  | sourceLink t =>
      simp only [tell, Listener.callee?]
      split
      · exact .nothing (told _)
      · split
        · cases e.change with
          | move d keys => exact .nothing ((warnings_tellForward t _ d keys _ stack).trans (told _))
          | reset => exact .nothing (told _)
        · exact .nothing (told _)
  | resetLink t =>
      have absent : ∀ stack' r, Meets w reply none (answered
        (w.record (.callback (.resetLink t) e w.depth true)) stack' r) :=
        fun _ _ => .nothing (told true)
      simp only [tell, Listener.callee?, World.translator?_record]
      cases w.translator? t with
      | none => cases e.change <;> exact absent _ _
      | some s =>
          cases e.change with
          | move d keys => exact absent _ _
          | reset =>
              have opened : Meets _ reply _ _ := meets_openCall .reset s.source (.clearing s.source)
                (w.record (.callback (.resetLink t) e w.depth true)) stack
              have holds : (w.record (.callback (.resetLink t) e w.depth true)).isHeld stack
                  s.source = w.isHeld stack s.source := rfl
              simp only [holds, Option.map_some, Option.filter_some]
              split
              · exact opened.congr (told true).symm
              · exact absent _ _

theorem warnings_ask (m : MapperId) (k : Key) (w : World) :
    (ask m k w).2.2.warnings = w.warnings := by
  rw [ask]
  split
  · rfl
  · exact World.warnings_record_of_quiet w (r := .question m _ k w.depth) rfl

theorem warnings_announce (h : HandlerId) (c : Change) (n : Note)
    (quiet : (Record.note n).warning? = none) (w : World) (stack : List Frame) :
    (announce h c n w stack).world.warnings = w.warnings :=
  World.warnings_record_of_quiet _ quiet

/-- A frame that goes on warns of nothing but the refusal of its call. -/
theorem meets_advance (f : Frame) (w : World) (stack : List Frame) :
    Meets w reply ((f.callee? w (f :: stack)).bind (w.refusal? w.depth)) (advance f w stack) := by
  cases f with
  | script pending first =>
      cases pending with
      | nil => exact .nothing rfl
      | cons op ops => exact (begins_perform op w _).meets
  | reading h purpose filter pulls taken =>
      cases pulls with
      | nil =>
          cases purpose with
          | query => exact .nothing rfl
          | move d =>
              simp only [advance, finishReading]
              split
              · exact .quiet rfl rfl
              · exact .nothing (warnings_announce h _ (.moved h d _) rfl w stack)
      | cons pull pulls =>
          cases pull with
          | act op => exact (begins_perform op w _).meets
          | key k => exact .quiet rfl rfl
  | clearing h =>
      simp only [advance, clear]
      split
      · exact .quiet rfl rfl
      · exact .nothing (warnings_announce h _ (.cleared h _) rfl w stack)
  | fanOut e pending first =>
      cases pending with
      | nil => exact .nothing rfl
      | cons l pending => exact meets_tell l e w _
  | mapping t d m targets keys pending mapped held =>
      cases pending with
      | nil =>
          simp only [advance, finishMapping]
          split <;> exact .quiet rfl rfl
      | cons k pending => exact .nothing (warnings_ask m k w)
  | forwarding d keys targets pending first =>
      cases pending with
      | nil => exact .nothing rfl
      | cons h pending => exact meets_openCall d.kind h _ w _
  | resetTargets t pending first =>
      cases pending with
      | nil => exact .nothing rfl
      | cons h pending => exact meets_openCall .reset h _ w _
  | _ => exact .nothing rfl

/-- A frame that is handed a reply warns of nothing but the failure that the reply tells of, unless
there was nobody left for it to tell. -/
theorem meets_resume {f : Frame} (waits : ∀ e first, f ≠ .fanOut e [] first) (r : Reply)
    (w : World) (stack : List Frame) : Meets w (some r) (f.failure? w r) (resume f r w stack) := by
  cases f with
  | script pending first =>
      cases pending with
      | nil => exact .nothing rfl
      | cons op ops => exact .quiet rfl rfl
  | reading h purpose filter pulls taken =>
      cases pulls with
      | nil => exact .nothing rfl
      | cons pull pulls =>
          cases pull with
          | act op => exact .quiet rfl rfl
          | key k => exact .nothing rfl
  | fanOut e pending first =>
      cases pending with
      | nil => exact (waits e first rfl).elim
      | cons l pending =>
          simp only [resume, Frame.failure?]
          cases faulty : r.fault? with
          | none => exact .nothing rfl
          | some fault => exact .noted (f := .reported l e.source fault) rfl faulty
  | mapping t d m targets keys pending mapped held =>
      cases pending with
      | nil => exact .nothing rfl
      | cons k pending =>
          cases held with
          | none => exact .nothing rfl
          | some answer =>
              simp only [resume, resumeMapping]
              split
              · exact .noted (f := .unmapped _ k _) rfl rfl
              · exact .nothing rfl
              · exact .nothing rfl
  | call kind h =>
      exact .nothing (World.warnings_record_of_quiet { w with depth := w.depth - 1 } rfl)
  | forward t => exact .quiet rfl rfl
  | swap t m => exact .nothing (World.warnings_record_of_quiet (w.setMapper t m) rfl)
  | _ => exact .nothing rfl

section Attentive

/-- The frames that wait for a reply, and the innermost one if it has its reply. -/
def waiting (c : Config) : List Frame := c.reply.elim c.stack.tail fun _ => c.stack

/-- Whoever fans out an event and waits for a reply has somebody left to tell, the one whose
callback will end with the reply. -/
def Attentive (c : Config) : Prop := ∀ e first, .fanOut e [] first ∉ c.waiting

variable {c d : Config}

theorem waiting_subset (c : Config) : c.waiting ⊆ c.stack := by
  obtain ⟨w, stack, reply⟩ := c
  cases reply with
  | none => exact (List.tail_sublist stack).subset
  | some r => exact List.Subset.refl _

theorem Opens.not_mem {pushed : List Frame} (opens : Opens w pushed) (e : Event)
    (pending : List Listener) (first : Option Fault) : .fanOut e pending first ∉ pushed := by
  have bodies : ∀ {body : Frame} {kind h}, body.Prepares kind h → body ≠ .fanOut e pending first :=
    fun prepares same => by
      subst same
      exact prepares
  cases opens with
  | call prepares => simp [(bodies prepares).symm]
  | swap _ prepares => simp [(bodies prepares).symm]
  | _ => simp

/-- Where frames have begun above one that fans out nothing or has somebody left to tell, all that
wait are attentive if those below are. -/
theorem attentive_of_raises {f : Frame} {pushed : List Frame}
    (after : d.stack = pushed ++ f :: stack) (opens : Opens w pushed)
    (below : ∀ e first, .fanOut e [] first ∉ stack)
    (other : ∀ e first, f ≠ .fanOut e [] first) : d.Attentive := by
  intro e first mem
  have listed := waiting_subset d mem
  rw [after, List.mem_append, List.mem_cons] at listed
  obtain begun | same | deeper := listed
  · exact opens.not_mem e [] first begun
  · exact other e first same.symm
  · exact below e first deeper

theorem Attentive.step (attentive : c.Attentive) (h : c.step = some d) : d.Attentive := by
  obtain ⟨w, stack, reply⟩ := c
  cases stack with
  | nil => cases h
  | cons f stack =>
      have below : ∀ e first, .fanOut e [] first ∉ stack := fun e first mem =>
        attentive e first (by
          cases reply with
          | none => exact mem
          | some r => exact List.mem_cons_of_mem _ mem)
      -- Only a frame that fans out tells a listener more, and then waits for it.
      by_cases fans : ∃ e pending first, f = .fanOut e pending first
      · obtain ⟨e, pending, first, rfl⟩ := fans
        cases reply with
        | some r =>
            cases h
            exact below
        | none =>
            cases pending with
            | nil =>
                cases h
                exact below
            | cons l pending =>
                cases h
                obtain ⟨pushed, after, opens⟩ :=
                  raises_tell l e w (.fanOut e (l :: pending) first :: stack)
                exact attentive_of_raises after opens below nofun
      · cases step_evolves h with
        | ends g rest before after replied =>
            cases before
            intro e first mem
            exact below e first (after ▸ waiting_subset d mem)
        | onward g g' pushed rest before after leads opens =>
            cases before
            refine attentive_of_raises after opens below fun e first same => fans ?_
            subst same
            cases leads with
            | refl => exact ⟨_, _, _, rfl⟩
            | fanOut => exact ⟨_, _, _, rfl⟩
        | announces g e rest before prepares waits after =>
            cases before
            intro e' first mem
            rw [waiting, waits, after] at mem
            exact below e' first mem
        | begins before _ => cases before

theorem Next.attentive (next : Next c d) (attentive : c.Attentive) : d.Attentive := by
  cases next with
  | step h => exact attentive.step h
  | perform op rest =>
      obtain ⟨pushed, after, opens⟩ := (begins_perform op c.world []).raises
      intro e first mem
      have listed := waiting_subset _ mem
      rw [after, List.append_nil] at listed
      exact opens.not_mem e [] first listed

end Attentive

/-- A step warns of what fails in it, and of nothing else. -/
theorem meets_step {c d : Config} (depth : c.world.depth = openCalls c.stack)
    (attentive : c.Attentive) (h : c.step = some d) : Meets c.world c.reply c.failure? d := by
  obtain ⟨w, stack, reply⟩ := c
  cases stack with
  | nil => cases h
  | cons f stack =>
      cases reply with
      | none =>
          cases h
          have meets : Meets w none _ _ := meets_advance f w stack
          rw [show w.depth = _ from depth] at meets
          exact meets
      | some r =>
          cases h
          exact meets_resume (fun e first same => attentive e first (same ▸ List.mem_cons_self)) r w
            stack

end Config

namespace Stage

variable {s d : Stage} {w : World} {ops : List Op}

/-- The depth is the number of open calls, whoever waits is attentive, and between operations
all is at rest. -/
structure Regular (s : Stage) : Prop where
  depth : s.config.world.depth = Config.openCalls s.config.stack
  attentive : s.config.Attentive
  rests : s.underway = none → s.config.AtRest

/-- A session stays regular. -/
theorem Regular.next? (regular : s.Regular) (next : s.next? = some d) : d.Regular := by
  obtain ⟨depth, attentive, rests⟩ := regular
  obtain ⟨past, underway, todo, c⟩ := s
  rw [Stage.next?] at next
  split at next
  · cases next
  · rename_i op todo idle _
    cases next
    have begins : Config.Next c _ := .perform op (rests idle)
    exact ⟨begins.depth depth, begins.attentive attentive, fun idle => by cases idle⟩
  · split at next
    · rename_i step
      cases next
      exact ⟨(Config.Next.step step).depth depth, attentive.step step, fun idle => by cases idle⟩
    · rename_i ended
      cases next
      exact ⟨depth, attentive, fun _ => ended⟩

theorem Regular.startIn (flat : w.depth = 0) (ops : List Op) : (startIn w ops).Regular :=
  ⟨flat, fun e first => by simp [Stage.startIn, Config.waiting], fun _ => Config.atRest_iff.mpr rfl⟩

/-- A move warns of what fails in it, and of nothing else. -/
theorem meets_next? (regular : s.Regular) (next : s.next? = some d) :
    Config.Meets s.config.world s.config.reply s.failure? d.config := by
  obtain ⟨depth, attentive, rests⟩ := regular
  obtain ⟨past, underway, todo, c⟩ := s
  cases underway with
  | none =>
      rw [Config.atRest_iff.mp (rests rfl), Config.openCalls_nil] at depth
      cases todo with
      | nil => cases next
      | cons op todo =>
          cases next
          have meets : Config.Meets c.world c.reply _ _ :=
            (Config.begins_perform op c.world []).meets
          rw [depth] at meets
          exact meets
  | some op =>
      cases step : c.step with
      | some e =>
          cases (next?_of_step step).symm.trans next
          exact Config.meets_step depth attentive step
      | none =>
          cases (next?_of_atRest step).symm.trans next
          have calm : c.failure? = none := by
            rw [Config.failure?, Config.atRest_iff.mp step]
          have meets : Config.Meets c.world c.reply c.failure? c := calm ▸ .nothing rfl
          exact meets

theorem Regular.after (regular : s.Regular) (n : Nat) : (s.after n).Regular := by
  induction n generalizing s with
  | zero => exact regular
  | succ n ih =>
      cases next : s.next? with
      | none =>
          rw [Stage.after, next]
          exact regular
      | some d =>
          rw [Stage.after, next]
          exact ih (regular.next? next)

theorem warnings_after (regular : s.Regular) (n : Nat) :
    (s.after n).config.world.warnings =
      s.config.world.warnings ++ (s.failures n).map Failure.note := by
  induction n generalizing s with
  | zero => exact (List.append_nil _).symm
  | succ n ih =>
      cases next : s.next? with
      | none => simp [after, failures, next]
      | some d =>
          have first := (meets_next? regular next).warnings
          have rest := ih (regular.next? next)
          simp only [after, failures, next, Option.elim_some, List.map_append]
          rw [rest, first, List.append_assoc]
          cases s.failure? <;> rfl

/-- The warnings of a session are its failures. After any number of moves in any world, with
whatever scripts, mappers and lazy input, it has warned of every call refused so far, of every
answer that a mapper failed to give, and of every fault that a listener reported, once each and in
order, and of nothing else. In the move in which a failure is met, it shows: a refused call and a
failed translation end with their faults, and the callback of a listener has ended with the fault
that it reported. -/
theorem warnings_eq_failures (flat : w.depth = 0) (ops : List Op) (n : Nat) :
    ((startIn w ops).after n).config.world.warnings.map Note.entry =
        w.warnings.map Note.entry ++ ((startIn w ops).failures n).map Failure.entry ∧
      ∀ d f, ((startIn w ops).after n).next? = some d →
        ((startIn w ops).after n).failure? = some f →
          f.Shows ((startIn w ops).after n).config.reply d.config.reply := by
  have begins : (startIn w ops).Regular := .startIn flat ops
  refine ⟨?_, fun d f next is => (meets_next? (begins.after n) next).shows f is⟩
  rw [warnings_after begins n, List.map_append, List.map_map]
  exact congrArg _ (List.map_congr_left fun f _ => f.entry_note)

/-- A session in which much goes wrong at once. One view passes keys on to a handler that takes part
in no cascade but its own, and makes nothing of the refusal; another reports a fault; and the mapper
of a translator fails. -/
def stumbling : List Op :=
  [.act (.createHandler "h" .plain), .act (.createHandler "g" ⟨none, some 1⟩),
    .act (.createListener "s" { onlooker with
      script := fun _ => some [.move .highlight "g" ⟨none, [.key (.int 1)]⟩]
      times := 1 }),
    .act (.createListener "v" { onlooker with
      fault := fun _ => some (.given (.listener "v" "no")) }),
    .act (.addListener "h" "s"), .act (.addListener "h" "v"),
    .act (.createTranslator "t" "h"
      (some (.computed ⟨.identity, [.int 1], "no entry"⟩ none [] 0))),
    .act (.addTarget "t" "g"), .move .highlight "h" ⟨none, [.key (.int 1)]⟩]

/-- Only one of four failures comes back, that of the view, but the log has them all. -/
theorem warnings_eq_failures_stumbling :
    let s := (startIn ∅ stumbling).after 60
    s.next?.isNone = true ∧
      (s.past.getLast?.bind fun a => a.reply.fault?) = some (.listener "v" "no") ∧
      s.config.world.warnings.map Note.entry =
        [Failure.refused ⟨2⟩ 1 1, .reported (.view "v") ⟨1⟩ (.listener "v" "no"),
          .unmapped ⟨1⟩ (.int 1) "no entry",
          .reported (.sourceLink ⟨1⟩) ⟨1⟩ (.mapper "no entry")].map Failure.entry ∧
      ∃ d, ((startIn ∅ stumbling).after 20).next? = some d ∧
        d.config.reply = some (.fault (.cascadeTooDeep 1)) := by
  have failures : (startIn ∅ stumbling).failures 60 =
      [Failure.refused ⟨2⟩ 1 1, .reported (.view "v") ⟨1⟩ (.listener "v" "no"),
        .unmapped ⟨1⟩ (.int 1) "no entry",
        .reported (.sourceLink ⟨1⟩) ⟨1⟩ (.mapper "no entry")] := by decide +kernel
  have onward : ((startIn ∅ stumbling).after 20).next?.isSome = true := by decide +kernel
  obtain ⟨d, next⟩ := Option.isSome_iff_exists.mp onward
  have refused : ((startIn ∅ stumbling).after 20).failure? = some (.refused ⟨2⟩ 1 1) := by
    decide +kernel
  refine ⟨by decide +kernel, by decide +kernel, ?_, d, next, ?_⟩
  · exact failures ▸ (warnings_eq_failures rfl stumbling 60).1
  · exact (warnings_eq_failures rfl stumbling 20).2 d _ next refused

end Stage

end HighlightSync
