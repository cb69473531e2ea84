import HighlightSync.Proofs.Depth
import HighlightSync.Proofs.Faults

/-!
# The first failure is the one that is returned

Three things can fail while a call is under way: a callback reports a fault, a mapper cannot
answer, or a nested call is refused (`Config.Fails`). Each is the matter of one step, and the
step leaves the fault as a reply. No other step makes a fault (`Reports`), and no step loses
the first one, although callbacks, targets and the swap of a mapper go on after a fault. So
the first failure in time is the fault that the whole operation returns, however deep in the
cascade it happened (`returns_first_failure`).
-/

namespace HighlightSync

/-- The reply of a call: all went well, or there was a fault. -/
def Reply.IsOutcome (r : Reply) : Prop := r = .outcome r.fault?

theorem Reply.isOutcome_outcome (f : Option Fault) : (outcome f).IsOutcome := by
  rw [IsOutcome, fault?_outcome]

namespace Config

/-- Something fails in the next step: a listener that is told of an event reports a fault, or
one whose callback ends, or a mapper cannot answer, or a call is refused. -/
inductive Fails (c : Config) : Fault → Prop where
  | told {w e l pending first below d f} :
      c = running w (.fanOut e (l :: pending) first :: below) → c.step = some d →
      d.reply = some (.fault f) → Fails c f
  | callback {w propagate own below r d f} :
      c = answered w (.callback propagate own :: below) r → c.step = some d →
      d.reply = some (.fault f) → Fails c f
  | question {w t d m targets keys k pending mapped message below r} :
      c = answered w (.mapping t d m targets keys (k :: pending) mapped
        (some (.error message)) :: below) r → Fails c (.mapper message)
  | refused {kind h body w stack limit} : c.step = some (openCall kind h body w stack) →
      w.layout.limit? h = some limit → limit ≤ w.depth → Fails c (.cascadeTooDeep limit)

theorem Fails.reply {c d : Config} {f : Fault} (h : c.Fails f) (hs : c.step = some d) :
    d.reply = some (.fault f) := by
  cases h with
  | told _ leads reports =>
      cases hs.symm.trans leads
      exact reports
  | callback _ leads reports =>
      cases hs.symm.trans leads
      exact reports
  | question is =>
      subst is
      cases hs
      rfl
  | refused calls is reached =>
      cases hs.symm.trans calls
      rw [openCall_of_refuses is reached]
      rfl

theorem Fails.not_atRest {c : Config} {f : Fault} (h : c.Fails f) : ¬ c.AtRest := by
  intro rest
  rw [AtRest] at rest
  cases h with
  | told _ leads _ => cases rest.symm.trans leads
  | callback _ leads _ => cases rest.symm.trans leads
  | question is =>
      subst is
      cases rest
  | refused calls _ _ => cases rest.symm.trans calls

/-- What a step does to replies and faults: calls are answered as calls are, and a fault where
there was none is that of a failure. -/
structure Reports (c d : Config) : Prop where
  outcome : (∀ r ∈ c.reply, r.IsOutcome) → ∀ r ∈ d.reply, r.IsOutcome
  source : c.fault? = none → d.fault? = none ∨ ∃ f, c.Fails f ∧ d.fault? = some f

namespace Reports

variable {c : Config} {w : World} {stack : List Frame}

theorem running (clean : c.fault? = none → faultIn stack = none) :
    c.Reports (running w stack) where
  outcome _ r mem := by cases mem
  source none := .inl ((fault?_running w stack).trans (clean none))

theorem answered {x : Option Fault} (clean : c.fault? = none → faultIn stack = none)
    (fails : c.fault? = none → ∀ f ∈ x, c.Fails f) :
    c.Reports (answered w stack (.outcome x)) where
  outcome _ r mem := by
    cases mem
    exact Reply.isOutcome_outcome x
  source none := by
    have same : (Config.answered w stack (.outcome x)).fault? = x := by
      rw [fault?_answered, clean none, Reply.fault?_outcome, Option.none_or]
    cases x with
    | none => exact .inl same
    | some f => exact .inr ⟨f, fails none f rfl, same⟩

theorem done (clean : c.fault? = none → faultIn stack = none) :
    c.Reports (Config.answered w stack .done) :=
  answered (x := none) clean (by simp)

end Reports

section Steps

variable {c : Config} {w : World} {stack : List Frame}

theorem reports_openCall {kind : ChangeKind} {h : HandlerId} {body : Frame}
    (step : c.step = some (openCall kind h body w stack)) (silent : body.fault? = none)
    (clean : c.fault? = none → faultIn stack = none) :
    c.Reports (openCall kind h body w stack) := by
  by_cases accepts : ∀ limit, w.layout.limit? h = some limit → w.depth < limit
  · rw [openCall_of_accepts accepts]
    refine .running fun none => ?_
    rw [faultIn_cons silent, faultIn_cons rfl, clean none]
  · simp only [not_forall, Nat.not_lt] at accepts
    obtain ⟨limit, is, reached⟩ := accepts
    have fails : c.Fails (.cascadeTooDeep limit) := .refused step is reached
    rw [openCall_of_refuses is reached]
    exact .answered (x := some (.cascadeTooDeep limit)) clean (by simpa using fun _ => fails)

/-- A listener that is told of an event reports a fault only as a failure. -/
theorem reports_tell {e : Event} {l : Listener} {pending : List Listener} {first : Option Fault}
    {below : List Frame} {d : Config}
    (stack : c = running w (.fanOut e (l :: pending) first :: below)) (step : c.step = some d) :
    c.Reports d := by
  have clean : c.fault? = none → faultIn (.fanOut e (l :: pending) first :: below) = none := by
    rw [stack, fault?_running]
    exact id
  have tells : tell l e w (.fanOut e (l :: pending) first :: below) = d := by
    rw [stack] at step
    exact Option.some.inj step
  cases l with
  | view name =>
      simp only [tell, tellView] at tells
      split at tells
      · exact tells ▸ .done clean
      · split at tells
        · subst tells
          refine .answered clean fun _ f reported => .told stack step ?_
          exact congrArg (fun fault => some (Reply.outcome fault)) reported
        · subst tells
          exact .running fun none => (faultIn_cons rfl _).trans
            ((faultIn_cons rfl _).trans (clean none))
  | sourceLink t =>
      simp only [tell] at tells
      split at tells
      · exact tells ▸ .done clean
      · split at tells
        · split at tells
          · simp only [tellForward] at tells
            have entered : c.fault? = none → faultIn (.forward t ::
                .fanOut e (.sourceLink t :: pending) first :: below) = none := fun none =>
              (faultIn_cons rfl _).trans (clean none)
            split at tells
            · exact tells ▸ .done entered
            · exact tells ▸ .done entered
            · exact tells ▸ .running fun none => (faultIn_cons rfl _).trans (entered none)
          · exact tells ▸ .running fun none => (faultIn_cons rfl _).trans (clean none)
        · exact tells ▸ .done clean
  | resetLink t =>
      simp only [tell] at tells
      split at tells
      · split at tells
        · subst tells
          exact reports_openCall step rfl clean
        · exact tells ▸ .done clean
      · exact tells ▸ .done clean

/-- A frame that goes on reports a fault that it has kept, or fails. -/
theorem reports_advance {κ : ChangeKind} {f : Frame} (cascades : f.CascadesOrSwaps κ) :
    (running w (f :: stack)).Reports (advance f w stack) := by
  have below : (running w (f :: stack)).fault? = none → faultIn stack = none := by
    rw [fault?_running]
    exact fun none => (Option.or_eq_none_iff.mp none).1
  have here : (running w (f :: stack)).fault? = none → faultIn (f :: stack) = none := by
    rw [fault?_running]
    exact id
  have own : (running w (f :: stack)).fault? = none → f.fault? = none := by
    rw [fault?_running]
    exact fun none => (Option.or_eq_none_iff.mp none).2
  have ends : (running w (f :: stack)).Reports (answered w stack (.outcome f.fault?)) :=
    .answered below fun none g mem => by cases (own none).symm.trans mem
  have announces : ∀ h c n, (running w (f :: stack)).Reports (announce h c n w stack) :=
    fun _ _ _ => .running fun none => (faultIn_cons rfl _).trans (below none)
  obtain cascades | ⟨t, m, rfl⟩ := cascades
  case inr => exact .done here
  cases f with
  | script pending first =>
      cases cascades
      exact ends
  | reading h purpose filter pulls taken =>
      obtain ⟨⟨d, rfl, -⟩, rfl, ks, rfl⟩ := cascades
      cases ks with
      | nil =>
          simp only [advance, List.map_nil, finishReading]
          split
          · exact .done below
          · exact announces _ _ _
      | cons k ks => exact .running fun none => (faultIn_cons rfl _).trans (below none)
  | clearing h =>
      simp only [advance, clear]
      split
      · exact .done below
      · exact announces _ _ _
  | fanOut e pending first =>
      cases pending with
      | nil => exact ends
      | cons l pending => exact reports_tell rfl rfl
  | mapping t d m targets keys pending mapped held =>
      cases pending with
      | nil =>
          simp only [advance, finishMapping]
          split
          · exact .done below
          · exact .running fun none => (faultIn_cons rfl _).trans (below none)
      | cons k pending =>
          exact .running fun none => (faultIn_cons rfl _).trans (here none)
  | forwarding d keys targets pending first =>
      cases pending with
      | nil => exact ends
      | cons h pending => exact reports_openCall rfl rfl here
  | resetTargets t pending first =>
      cases pending with
      | nil => exact ends
      | cons h pending => exact reports_openCall rfl rfl here
  | call kind h => exact .done here
  | callback propagate fault => exact .done here
  | forward t => exact .done here
  | swap t m => cases cascades

/-- A frame that is handed a reply passes it on, keeps its fault, or fails. -/
theorem reports_resume {κ : ChangeKind} {f : Frame} {r : Reply}
    (cascades : f.CascadesOrSwaps κ) :
    (answered w (f :: stack) r).Reports (resume f r w stack) := by
  have clean : (answered w (f :: stack) r).fault? = none →
      faultIn stack = none ∧ f.fault? = none ∧ r.fault? = none := by
    rw [fault?_answered, faultIn, Option.or_eq_none_iff, Option.or_eq_none_iff, and_assoc]
    exact id
  have passes : ∀ v, (answered w (f :: stack) r).Reports (answered v stack r) := fun v =>
    { outcome := fun before r' mem => by
        cases mem
        exact before r rfl
      source := fun none => .inl (by
        obtain ⟨below, -, reply⟩ := clean none
        rw [fault?_answered, below, reply]
        rfl) }
  have waits : ∀ {v g}, (f.fault? = none → r.fault? = none → g.fault? = none) →
      (answered w (f :: stack) r).Reports (running v (g :: stack)) := fun same =>
    .running fun none => by
      obtain ⟨below, own, reply⟩ := clean none
      rw [faultIn_cons (same own reply), below]
  have both : ∀ first : Option Fault, first = none → r.fault? = none →
      first.or r.fault? = none := fun first own reply => by rw [own, reply]; rfl
  obtain cascades | ⟨t, m, rfl⟩ := cascades
  case inr => exact passes _
  cases f with
  | script pending first =>
      cases cascades
      exact .answered (fun none => (clean none).1) fun none g mem => by
        cases (clean none).2.1.symm.trans mem
  | reading h purpose filter pulls taken =>
      obtain ⟨-, -, ks, rfl⟩ := cascades
      cases ks <;> exact waits fun _ _ => rfl
  | clearing h => exact waits fun _ _ => rfl
  | call kind h => exact passes _
  | fanOut e pending first => exact waits (both first)
  | callback propagate fault =>
      refine .answered (fun none => (clean none).1) fun _ g reported => .callback rfl rfl ?_
      exact congrArg (fun fault => some (Reply.outcome fault)) reported
  | forward t => exact passes _
  | mapping t d m targets keys pending mapped held =>
      cases pending with
      | nil => exact waits fun _ _ => rfl
      | cons k pending =>
          cases held with
          | none => exact waits fun _ _ => rfl
          | some answer =>
              cases answer with
              | error message =>
                  exact .answered (x := some (.mapper message)) (fun none => (clean none).1)
                    fun _ g mem => by
                      cases mem
                      exact .question rfl
              | ok fine =>
                  cases fine <;> exact waits fun _ _ => rfl
  | forwarding d keys targets pending first => exact waits (both first)
  | resetTargets t pending first => exact waits (both first)
  | swap t m => cases cascades

end Steps

/-- A cascade is under way, maybe of an operation that replaces a mapper at its end. Views and
the mappers that it asks run nothing, no frame dismisses a fault, and replies are those of
calls. -/
structure Undergoes (κ : ChangeKind) (c : Config) : Prop where
  views : c.world.IdleViews
  mappers : κ ≠ .reset → c.world.IdleMappers
  frames : ∀ f ∈ c.stack, f.CascadesOrSwaps κ
  faithful : Faithful c
  outcome : ∀ r ∈ c.reply, r.IsOutcome

namespace Undergoes

variable {κ : ChangeKind} {c d : Config}

theorem reports (h : Undergoes κ c) (hs : c.step = some d) : c.Reports d := by
  obtain ⟨w, stack, reply⟩ := c
  cases stack with
  | nil => cases hs
  | cons f stack =>
      have top := h.frames f List.mem_cons_self
      cases reply with
      | none =>
          cases hs
          exact reports_advance top
      | some r =>
          cases hs
          exact reports_resume top

/-- Views, mappers and the kinds of frames stay as they are. -/
theorem goesOn (h : Undergoes κ c) (hs : c.step = some d) :
    d.world.IdleViews ∧ (κ ≠ .reset → d.world.IdleMappers) ∧
      ∀ f ∈ d.stack, f.CascadesOrSwaps κ := by
  obtain ⟨w, stack, reply⟩ := c
  cases stack with
  | nil => cases hs
  | cons f stack =>
      have below : ∀ g ∈ stack, g.CascadesOrSwaps κ := fun g mem =>
        h.frames g (List.mem_cons_of_mem f mem)
      have grown : Grows (Frame.Cascades κ) stack d → ∀ g ∈ d.stack, g.CascadesOrSwaps κ := by
        rintro ⟨pushed, grown, all⟩ g mem
        rw [grown] at mem
        exact (List.mem_append.mp mem).elim (fun mem => .inl (all g mem)) (below g)
      obtain top | ⟨t, m, rfl⟩ := h.frames f List.mem_cons_self
      · have layout : d.world.layout = w.layout ∧ Grows (Frame.Cascades κ) stack d := by
          cases reply with
          | none =>
              cases hs
              exact ⟨layout_advance w stack top.due?, cascades_advance h.views h.mappers top⟩
          | some r =>
              cases hs
              refine ⟨layout_resume w stack ?_ r, cascades_resume top r⟩
              rintro t m rfl
              exact top
        exact ⟨h.views.of_layout layout.1, fun moves => (h.mappers moves).of_layout layout.1,
          grown layout.2⟩
      · cases reply with
        | none =>
            cases hs
            exact ⟨h.views, h.mappers, h.frames⟩
        | some r =>
            cases hs
            exact ⟨h.views, h.mappers, below⟩

theorem step (h : Undergoes κ c) (hs : c.step = some d) : Undergoes κ d := by
  obtain ⟨views, mappers, frames⟩ := h.goesOn hs
  exact ⟨views, mappers, frames, (h.faithful.step hs h.views h.mappers h.frames).faithful,
    (h.reports hs).outcome h.outcome⟩

theorem fault_step (h : Undergoes κ c) (hs : c.step = some d) {f : Fault}
    (is : c.fault? = some f) : d.fault? = some f := by
  obtain ⟨-, failure, fault, -⟩ := h.faithful.step hs h.views h.mappers h.frames
  rw [fault, is, Option.some_or]

theorem fault_of_fails (h : Undergoes κ c) (hs : c.step = some d) (clean : c.fault? = none)
    {f : Fault} (fails : c.Fails f) : d.fault? = some f := by
  have reply := fails.reply hs
  obtain none | ⟨g, fails', is⟩ := (h.reports hs).source clean
  · rw [fault?, reply, Option.or_eq_none_iff] at none
    cases none.2
  · cases reply.symm.trans (fails'.reply hs)
    exact is

theorem steps (h : Undergoes κ c) {n : Nat} (run : Steps n c d) : Undergoes κ d := by
  induction run with
  | refl => exact h
  | cons hs _ ih => exact ih (h.step hs)

theorem fault_steps (h : Undergoes κ c) {n : Nat} (run : Steps n c d) {f : Fault}
    (is : c.fault? = some f) : d.fault? = some f := by
  induction run with
  | refl => exact is
  | cons hs _ ih => exact ih (h.step hs) (h.fault_step hs is)

/-- A run without a fault at its beginning ends without a fault if nothing failed in it, and
otherwise with the fault of what failed first. -/
theorem fault_of_run (h : Undergoes κ c) (clean : c.fault? = none) {n : Nat} (run : Steps n c d)
    (rest : d.AtRest) :
    (d.fault? = none ∧ ∀ i b f, Steps i c b → ¬ b.Fails f) ∨
      ∃ i b f, Steps i c b ∧ b.Fails f ∧ (∀ j e g, j < i → Steps j c e → ¬ e.Fails g) ∧
        d.fault? = some f := by
  induction run with
  | refl c =>
      refine .inl ⟨clean, fun i b f steps fails => ?_⟩
      obtain ⟨-, rfl⟩ := steps.of_atRest rest
      exact fails.not_atRest rest
  | @cons n c e d hs run ih =>
      by_cases now : ∃ f, c.Fails f
      · obtain ⟨f, fails⟩ := now
        have stays := (h.step hs).fault_steps run (h.fault_of_fails hs clean fails)
        exact .inr ⟨0, c, f, .refl c, fails,
          fun j _ _ before => absurd before (Nat.not_lt_zero j), stays⟩
      · have clean' : e.fault? = none := by
          obtain none | ⟨f, fails, -⟩ := (h.reports hs).source clean
          · exact none
          · exact absurd ⟨f, fails⟩ now
        have later : ∀ {i b}, Steps i c b → ∀ f, b.Fails f → ∃ j, i = j + 1 ∧ Steps j e b := by
          intro i b steps f fails
          cases steps with
          | refl => exact absurd ⟨f, fails⟩ now
          | cons hs' steps =>
              cases hs.symm.trans hs'
              exact ⟨_, rfl, steps⟩
        obtain ⟨none, never⟩ | ⟨i, b, f, steps, fails, first, is⟩ := ih (h.step hs) clean' rest
        · refine .inl ⟨none, fun i b f steps fails => ?_⟩
          obtain ⟨j, -, steps⟩ := later steps f fails
          exact never j b f steps fails
        · refine .inr ⟨i + 1, b, f, .cons hs steps, fails, fun j e g before steps fails => ?_, is⟩
          obtain ⟨k, rfl, steps'⟩ := later steps g fails
          exact first k e g (Nat.lt_of_succ_lt_succ before) steps' fails

end Undergoes

/-- The keys of an operation that moves some are simply given. -/
def IsPlain : Op → Prop
  | .move _ _ feed => feed.filter = none ∧ ∃ keys : List Key, feed.pulls = keys.map .key
  | _ => True

theorem undergoes_openCall {κ kind : ChangeKind} {h : HandlerId} {body : Frame} {v : World}
    {base : List Frame} (accepts : ∀ limit, v.layout.limit? h = some limit → v.depth < limit)
    (views : v.IdleViews) (mappers : κ ≠ .reset → v.IdleMappers) (cascades : body.Cascades κ)
    (script : body.isScript = false) (silent : body.fault? = none)
    (swaps : ∀ f ∈ base, ∃ t m, f = .swap t m) (clean : faultIn base = none) :
    Undergoes κ (openCall kind h body v base) ∧ (openCall kind h body v base).fault? = none := by
  rw [openCall_of_accepts accepts]
  refine ⟨⟨views, mappers, ?_, .runs script ?_, nofun⟩, ?_⟩
  · exact List.forall_mem_cons.mpr ⟨.inl cascades, List.forall_mem_cons.mpr
      ⟨.inl trivial, fun f mem => .inr (swaps f mem)⟩⟩
  · refine List.forall_mem_cons.mpr ⟨trivial, fun f mem => ?_⟩
    obtain ⟨t, m, rfl⟩ := swaps f mem
    trivial
  · rw [fault?_running, faultIn_cons silent, faultIn_cons rfl, clean]

/-- An operation from outside that addresses a handler begins a cascade. -/
theorem undergoes_perform {w : World} (admissible : w.Admissible) (flat : w.depth = 0)
    (views : w.IdleViews) (mappers : w.IdleMappers) {op : Op} {h : HandlerId}
    (addressed : addressee? w op = some h) (plain : IsPlain op) :
    ∃ κ, Undergoes κ (perform op w []) ∧ (perform op w []).fault? = none := by
  have accepts : ∀ {v : World} {h limit}, v.depth = w.depth →
      v.layout.limit? h = w.layout.limit? h → v.layout.limit? h = some limit → v.depth < limit :=
    fun depth limits => accepts_of_admissible admissible (depth.trans flat) limits
  cases op with
  | move d name feed =>
      obtain ⟨filter, pulls⟩ := feed
      obtain ⟨rfl, keys, rfl⟩ := plain
      simp only [perform, onHandler, show w.handlerNamed? name = some h from addressed]
      exact ⟨d.kind, undergoes_openCall (fun _ => accepts rfl rfl) views (fun _ => mappers)
        ⟨⟨d, rfl, rfl⟩, rfl, keys, rfl⟩ rfl rfl (by simp) rfl⟩
  | reset name =>
      simp only [perform, onHandler, show w.handlerNamed? name = some h from addressed]
      exact ⟨.reset, undergoes_openCall (fun _ => accepts rfl rfl) views (fun _ => mappers) rfl rfl
        rfl (by simp) rfl⟩
  | swapMapper name spec =>
      obtain ⟨t, named, source⟩ := Option.bind_eq_some_iff.mp addressed
      obtain ⟨s, found, rfl⟩ := Option.map_eq_some_iff.mp source
      simp only [perform, onTranslator, named, found]
      cases spec with
      | none =>
          exact ⟨.reset, undergoes_openCall (fun _ => accepts rfl rfl) views (fun _ => mappers) rfl
            rfl rfl (by simp) rfl⟩
      | some spec =>
          exact ⟨.reset, undergoes_openCall (fun _ => accepts rfl rfl) views
            (fun moves => absurd rfl moves) rfl rfl rfl (by simp) rfl⟩
  | _ => cases addressed

/-- In a world at rest, however it came about, in which views and mappers run nothing but may
fail as they like, a highlight, an unhighlight, a reset or the replacement of a mapper that comes
to a reply is answered well exactly if nothing failed, and otherwise by the fault of what failed
first. -/
theorem returns_first_failure {w w' : World} (admissible : w.Admissible) (flat : w.depth = 0)
    (views : w.IdleViews) (mappers : w.IdleMappers) {op : Op} {h : HandlerId}
    (addressed : addressee? w op = some h) (plain : IsPlain op) {n : Nat} {r : Reply}
    (run : Steps n (perform op w []) (answered w' [] r)) :
    (r = .done ↔ ∀ i c f, Steps i (perform op w []) c → ¬ c.Fails f) ∧
      (r ≠ .done → ∃ i c f, Steps i (perform op w []) c ∧ c.Fails f ∧
        (∀ j b g, j < i → Steps j (perform op w []) b → ¬ b.Fails g) ∧ r = .fault f) := by
  obtain ⟨κ, undergoes, clean⟩ := undergoes_perform admissible flat views mappers addressed plain
  have outcome : r = .outcome r.fault? := (undergoes.steps run).outcome r rfl
  have fault : (answered w' [] r).fault? = r.fault? := Option.none_or
  obtain ⟨none, never⟩ | ⟨i, c, f, steps, fails, first, is⟩ :=
    undergoes.fault_of_run clean run (atRest_iff.mpr rfl)
  · have well : r = .done := by rw [outcome, ← fault, none]; rfl
    exact ⟨iff_of_true well never, absurd well⟩
  · have faulty : r = .fault f := by rw [outcome, ← fault, is]; rfl
    have unwell : r ≠ .done := by rw [faulty]; nofun
    exact ⟨iff_of_false unwell fun never => never i c f steps fails,
      fun _ => ⟨i, c, f, steps, fails, first, faulty⟩⟩

section Examples

/-- A view that runs nothing, and reports a fault whenever the second key moves. -/
def wary (name : String) : Behavior :=
  { Behavior.passive with
    fault := fun _ e =>
      if e.change.touches (some (.int 2)) then some (.given (.listener name "no")) else none }

/-- A mapper that answers one question only. -/
def tiring : MapperState :=
  ⟨fun n k => if n = 0 then .ok (some (.singleton k)) else .error "tired", fun _ _ => [], .table, 0⟩

/-- A handler with two targets, the first of which is watched by a view and the source by
another. -/
def outpost : List (Action Op) :=
  [.createHandler "a" .plain, .createHandler "b" .plain, .createHandler "c" .plain,
    .createListener "near" onlooker, .createListener "far" onlooker,
    .createTranslator "t" "a" (some echo), .addTarget "t" "b",
    .createTranslator "u" "a" (some echo), .addTarget "u" "c", .addListener "b" "far",
    .addListener "a" "near"]

/-- The handlers with views that are wary, and a mapper that tires. -/
def besieged : World :=
  { World.built outpost with
    views := [("near", ⟨wary "near", 0, 0⟩), ("far", ⟨wary "far", 0, 0⟩)]
    mappers := ⟨#[.ofSpec echo, tiring]⟩ }

/-- Both views fail and the second mapper, and the fault is that of the view further down, which
fails first. -/
theorem returns_first_failure_besieged :
    ∃ n w', Steps n (perform (.move .highlight "a" ⟨none, [.key (.int 1), .key (.int 2)]⟩) besieged
        []) (answered w' [] (.fault (.listener "far" "no"))) ∧
      ∃ i c, Steps i (perform (.move .highlight "a" ⟨none, [.key (.int 1), .key (.int 2)]⟩)
          besieged []) c ∧
        c.Fails (.listener "far" "no") ∧ ∀ j b g, j < i →
          Steps j (perform (.move .highlight "a" ⟨none, [.key (.int 1), .key (.int 2)]⟩)
            besieged []) b → ¬ b.Fails g := by
  obtain ⟨reply, reached⟩ := reached_built outpost
  have admissible : besieged.Admissible := reached.accounted.admissible.of_same rfl rfl
  have views : besieged.IdleViews := by
    intro name v found n e ops script
    rw [World.view?, besieged, List.lookup_cons, List.lookup_cons] at found
    split at found
    · cases found
      cases script
    · split at found
      · cases found
        cases script
      · cases found
  have mappers : besieged.IdleMappers := by
    intro m s found n k
    have same : s = .ofSpec echo ∨ s = tiring := by
      simpa [besieged, World.mapper?] using Store.mem_of_get? found
    obtain rfl | rfl := same <;> rfl
  have runs : ((perform (.move .highlight "a" ⟨none, [.key (.int 1), .key (.int 2)]⟩) besieged
      []).run 200).any (fun c => decide (c.reply.bind Reply.fault? = some (.listener "far" "no"))) =
        true := by
    decide +kernel
  obtain ⟨n, ⟨w', stack, reply'⟩, steps, rest, found⟩ := exists_steps_of_run runs
  cases atRest_iff.mp rest
  obtain ⟨r, rfl, fault⟩ := Option.bind_eq_some_iff.mp (of_decide_eq_true found)
  have addressed : addressee? besieged
      (.move .highlight "a" ⟨none, [.key (.int 1), .key (.int 2)]⟩) = some ⟨1⟩ := by
    decide +kernel
  obtain ⟨-, failed⟩ := returns_first_failure admissible (by decide +kernel) views mappers addressed
    ⟨rfl, [.int 1, .int 2], rfl⟩ steps
  have unwell : r ≠ .done := by
    rintro rfl
    cases fault
  obtain ⟨i, c, f, steps', fails, first, rfl⟩ := failed unwell
  cases fault
  exact ⟨n, w', steps, i, c, steps', fails, first⟩

end Examples

end Config

end HighlightSync
