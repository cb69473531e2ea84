import HighlightSync.Proofs.Delivery

/-!
# Histories

A session moves by steps and, whenever it is at rest, by a new operation (`Next`). Every
move is a delivery (`Next.delivers`) and keeps the world sound, and in one move the list of
those registered on a handler turns over at most once (`Next.rewires`); most steps leave all
registries alone (`step_layout`, `step_extends`).

`Path P c d` says that a session came from `c` to `d` while `P` held throughout. What a
listener received from a handler meanwhile is the row of changes that its callbacks carried
(`World.received`).
-/

namespace HighlightSync

/-- The operation that a frame performs when it goes on. -/
def Frame.due? : Frame → Option Op
  | .script (op :: _) _ => some op
  | .reading _ _ _ (.act op :: _) _ => some op
  | _ => none

theorem Frame.tells_of_due? {f : Frame} {op : Op} (h : f.due? = some op) :
    f.tells = [] ∧ f.waiting.tells = [] := by
  cases f with
  | fanOut e pending first => cases h
  | _ => exact ⟨rfl, rfl⟩

namespace World

theorem Extends.trans {w v u : World} (h : w.Extends v) (g : v.Extends u) : w.Extends u := by
  refine ⟨g.registries.trans h.registries, fun name hv => g.views name (h.views name hv),
    fun i hi => g.handlers i (h.handlers i hi), ?_⟩
  intro t s hs i hi
  obtain ⟨s', hs', hi'⟩ | hi := g.targets t s hs i hi
  · exact (h.targets t s' hs' i hi').imp id (g.handlers i)
  · exact .inr hi

theorem Extends.refl (w : World) : w.Extends w := .of_same rfl rfl rfl

/-- What an operation does to a world at once, as far as the layout goes. -/
inductive Alters (w : World) : Op → World → Prop where
  | still {op v} (same : v.layout = w.layout) : w.Alters op v
  | act {a v} (effect : w.Effect a v) : w.Alters (.act a) v
  | mapper {name spec v} (same : v.layout = (w.addMapperOf spec).2.layout) :
      w.Alters (.swapMapper name (some spec)) v
  | dropTranslator {name t s} (named : w.translatorNamed? name = some t)
      (found : w.translator? t = some s) :
      w.Alters (.dropTranslator name) ((w.dropTranslator t s).forget name)

/-- An operation rewires at most once. -/
theorem Alters.rewires {w v : World} {op : Op} (h : w.Alters op v) : w.Rewires v := by
  cases h with
  | still same => exact (Extends.of_layout same).rewires
  | act effect => exact effect.rewires
  | mapper same => exact ((Extends.addMapperOf w _).trans (.of_layout same)).rewires
  | dropTranslator => exact (shrinks_dropTranslator w _ _).rewires.extend (.forget _ _)

end World

namespace Config

section Layout

variable (w : World) (stack : List Frame)

theorem layout_openCall (kind : ChangeKind) (h : HandlerId) (body : Frame) :
    (openCall kind h body w stack).world.layout = w.layout := by
  simp only [openCall]
  split <;> rfl

theorem layout_tell (l : Listener) (e : Event) : (tell l e w stack).world.layout = w.layout := by
  cases l with
  | view name =>
      simp only [tell, tellView]
      split
      · rfl
      · split
        · exact World.layout_modifyView (w.record _) name fun _ => rfl
        · exact World.layout_modifyView (w.record _) name fun _ => rfl
  | sourceLink t =>
      simp only [tell]
      split
      · rfl
      · split
        · cases e.change with
          | move d keys =>
              simp only [tellForward]
              split <;> rfl
          | reset => rfl
        · rfl
  | resetLink t =>
      simp only [tell]
      split
      · split
        · exact layout_openCall (w.record _) stack _ _ _
        · rfl
      · rfl

theorem layout_announce (h : HandlerId) (c : Change) (n : Note) :
    (announce h c n w stack).world.layout = w.layout :=
  w.layout_change h c

theorem layout_ask (m : MapperId) (k : Key) : (ask m k w).2.2.layout = w.layout := by
  rw [ask]
  split
  · rfl
  · exact World.layout_modifyMapper (w.record _) m (· + 1)

/-- A frame that goes on without performing an operation keeps the layout. -/
theorem layout_advance {f : Frame} (h : f.due? = none) :
    (advance f w stack).world.layout = w.layout := by
  cases f with
  | script pending first =>
      cases pending with
      | nil => rfl
      | cons op ops => cases h
  | reading g purpose filter pulls taken =>
      cases pulls with
      | nil =>
          cases purpose with
          | query => rfl
          | move d =>
              simp only [advance, finishReading]
              split
              · rfl
              · exact layout_announce _ _ _ _ _
      | cons pull pulls =>
          cases pull with
          | act op => cases h
          | key k => rfl
  | clearing g =>
      simp only [advance, clear]
      split
      · rfl
      · exact layout_announce _ _ _ _ _
  | fanOut e pending first =>
      cases pending with
      | nil => rfl
      | cons l pending => exact layout_tell _ _ l e
  | mapping t d m targets keys pending mapped held =>
      cases pending with
      | nil =>
          simp only [advance, finishMapping]
          split <;> rfl
      | cons k pending => exact layout_ask w m k
  | forwarding d keys targets pending first =>
      cases pending with
      | nil => rfl
      | cons g pending => exact layout_openCall _ _ _ _ _
  | resetTargets t pending first =>
      cases pending with
      | nil => rfl
      | cons g pending => exact layout_openCall _ _ _ _ _
  | _ => rfl

/-- A frame that is handed a reply keeps the layout, unless it puts a mapper in place. -/
theorem layout_resume {f : Frame} (h : ∀ t m, f ≠ .swap t m) (r : Reply) :
    (resume f r w stack).world.layout = w.layout := by
  cases f with
  | script pending first => cases pending <;> rfl
  | reading g purpose filter pulls taken =>
      cases pulls with
      | nil => rfl
      | cons pull pulls => cases pull <;> rfl
  | fanOut e pending first =>
      simp only [resume]
      split <;> rfl
  | mapping t d m targets keys pending mapped held =>
      cases pending with
      | nil => rfl
      | cons k pending =>
          cases held with
          | none => rfl
          | some answer =>
              simp only [resume, resumeMapping]
              split <;> rfl
  | swap t m => exact absurd rfl (h t m)
  | _ => rfl

theorem Begins.alters {op : Op} {d : Config} (h : Begins w stack op d) : w.Alters op d.world := by
  cases h with
  | refused => exact .still rfl
  | act effect => exact .act effect
  | move => exact .still (layout_openCall _ _ _ _ _)
  | reset => exact .still (layout_openCall _ _ _ _ _)
  | isHighlighted => exact .still rfl
  | clearMapper => exact .still (layout_openCall _ _ _ _ _)
  | setMapper => exact .mapper (layout_openCall _ _ _ _ _)
  | dropTranslator named found => exact .dropTranslator named found

theorem alters_perform (op : Op) : w.Alters op (perform op w stack).world :=
  (begins_perform op w stack).alters

end Layout

/-- A frame that is to perform an operation does so when it goes on. -/
theorem advance_of_due {f : Frame} {op : Op} (w : World) (stack : List Frame)
    (due : f.due? = some op) : advance f w stack = perform op w (f :: stack) := by
  cases f with
  | script pending first =>
      cases pending with
      | nil => cases due
      | cons o ops =>
          cases due
          rfl
  | reading g purpose filter pulls taken =>
      cases pulls with
      | nil => cases due
      | cons pull pulls =>
          cases pull with
          | key k => cases due
          | act o =>
              cases due
              rfl
  | _ => cases due

/-- A step keeps the layout, or it puts a mapper in place, or it performs the operation of a
script or of lazy input. -/
theorem step_layout {c d : Config} (h : c.step = some d) :
    d.world.layout = c.world.layout ∨ (∃ t m n, d.world = (c.world.setMapper t m).note n) ∨
      ∃ f stack op, c = running c.world (f :: stack) ∧ f.due? = some op ∧
        d = perform op c.world (f :: stack) := by
  obtain ⟨w, stack, reply⟩ := c
  cases stack with
  | nil => cases h
  | cons f stack =>
      cases reply with
      | some r =>
          cases h
          cases f with
          | swap t m => exact .inr (.inl ⟨t, m, _, rfl⟩)
          | _ => exact .inl (layout_resume w stack (by simp) r)
      | none =>
          cases h
          cases due : f.due? with
          | none => exact .inl (layout_advance w stack due)
          | some op => exact .inr (.inr ⟨f, stack, op, rfl, due, advance_of_due w stack due⟩)

/-- A step leaves all registries alone, or it performs an operation. -/
theorem step_extends {c d : Config} (h : c.step = some d) :
    c.world.Extends d.world ∨
      ∃ f stack op, c = running c.world (f :: stack) ∧ f.due? = some op ∧
        d = perform op c.world (f :: stack) := by
  obtain same | ⟨t, m, n, replaced⟩ | performs := step_layout h
  · exact .inl (.of_layout same)
  · exact .inl (replaced ▸ (World.Extends.setMapper c.world t m).trans (.note _ n))
  · exact .inr performs

/-- One move of a session: a step or, when there is none, a new operation. -/
inductive Next : Config → Config → Prop where
  | step {c d} : c.step = some d → Next c d
  | perform {c} (op : Op) : c.AtRest → Next c (perform op c.world [])

/-- The next move performs an operation: one from outside, or that of a script or of lazy
input. -/
def Performs (c : Config) : Prop :=
  c.AtRest ∨ ∃ f stack op, c = running c.world (f :: stack) ∧ f.due? = some op

theorem tells_of_atRest {c : Config} (h : c.AtRest) : c.tells = [] := by
  obtain ⟨w, stack, reply⟩ := c
  cases atRest_iff.mp h
  cases reply <;> rfl

namespace Next

variable {c d : Config}

theorem delivers (h : Next c d) : Delivers c d := by
  cases h with
  | step h => exact step_delivers h
  | perform op rest => exact .of_still ((begins_perform op _ _).still) (tells_of_atRest rest) rfl

theorem rewires (h : Next c d) : c.world.Rewires d.world := by
  cases h with
  | step h =>
      obtain ext | ⟨f, stack, op, -, -, rfl⟩ := step_extends h
      · exact ext.rewires
      · exact (alters_perform _ _ op).rewires
  | perform op _ => exact (alters_perform _ _ op).rewires

/-- A move leaves all registries alone or it performs an operation, which tells nobody and
moves no key at once. -/
theorem extends_or_performs (h : Next c d) :
    c.world.Extends d.world ∨
      (c.Performs ∧ d.tells = c.tells ∧ d.world.observed = c.world.observed) := by
  cases h with
  | perform op rest =>
      have still := (begins_perform op c.world []).still
      exact .inr ⟨.inl rest, still.tells.trans (tells_of_atRest rest).symm, still.observed⟩
  | step h =>
      refine (step_extends h).imp id ?_
      rintro ⟨f, stack, op, performs, due, rfl⟩
      obtain ⟨silent, waits⟩ := Frame.tells_of_due? due
      have still := (begins_perform op c.world (f :: stack)).still.under waits
      refine ⟨.inr ⟨f, stack, op, performs, due⟩, still.tells.trans ?_, still.observed⟩
      rw [performs, tells_running, silent, List.nil_append]

end Next

/-- A session comes from one configuration to another while something holds throughout. -/
inductive Path (P : Config → Prop) (c : Config) : Config → Prop where
  | refl : P c → Path P c c
  | tail {d e} : Path P c d → Next d e → P e → Path P c e

namespace Path

variable {P Q : Config → Prop} {c d : Config}

theorem mono (h : Path P c d) (weaker : ∀ e, P e → Q e) : Path Q c d := by
  induction h with
  | refl hc => exact .refl (weaker c hc)
  | tail _ next he ih => exact .tail ih next (weaker _ he)

theorem trans {e : Config} (h : Path P c d) (g : Path P d e) : Path P c e := by
  induction g with
  | refl _ => exact h
  | tail _ next he ih => exact .tail ih next he

theorem head {b : Config} (next : Next b c) (hb : P b) (h : Path P c d) : Path P b d := by
  induction h with
  | refl hc => exact .tail (.refl hb) next hc
  | tail _ next' he ih => exact .tail ih next' he

theorem holds (h : Path P c d) : P d := by
  cases h with
  | refl hc => exact hc
  | tail _ _ hd => exact hd

theorem starts (h : Path P c d) : P c := by
  induction h with
  | refl hc => exact hc
  | tail _ _ _ ih => exact ih

/-- What holds at the beginning and is kept by moves holds at the end. -/
theorem keeps {I : Config → Prop} (h : Path P c d) (start : I c)
    (move : ∀ d e, P d → P e → Next d e → I d → I e) : I d := by
  induction h with
  | refl _ => exact start
  | tail before next he ih => exact move _ _ before.holds he next ih

theorem sound (h : Path P c d) (start : c.world.Sound) : d.world.Sound :=
  h.keeps (I := fun c => c.world.Sound) start fun _ _ _ _ next hw => (next.rewires hw).1

end Path

/-- A session that began in the empty world has come to a configuration. -/
def Reached (c : Config) : Prop := Path (fun _ => True) ⟨∅, [], none⟩ c

theorem Reached.sound {c : Config} (h : Reached c) : c.world.Sound :=
  Path.sound h (.of_bare rfl rfl)

theorem Reached.steps {c d : Config} (h : Reached c) {n : Nat} (run : Steps n c d) : Reached d := by
  induction run with
  | refl _ => exact h
  | cons hs _ ih => exact ih (.tail h (.step hs) trivial)

/-- Take a number of steps, each from a configuration that passes a test, to another that
passes it. -/
def follow (p : Config → Bool) : Nat → Config → Option Config
  | 0, c => if p c then some c else none
  | n + 1, c => if p c then c.step.bind (follow p n) else none

theorem steps_of_follow {p : Config → Bool} {n : Nat} {c d : Config}
    (h : follow p n c = some d) : Steps n c d := by
  induction n generalizing c with
  | zero =>
      rw [follow] at h
      split at h
      · cases h
        exact .refl _
      · cases h
  | succ n ih =>
      rw [follow] at h
      split at h
      · obtain ⟨e, hs, he⟩ := Option.bind_eq_some_iff.mp h
        exact .cons hs (ih he)
      · cases h

theorem path_of_follow {p : Config → Bool} {I : Config → Prop} {n : Nat} {c d : Config}
    (h : follow p n c = some d) (start : I c) (keeps : ∀ c d, c.step = some d → I c → I d) :
    Path (fun c => p c = true ∧ I c) c d := by
  induction n generalizing c with
  | zero =>
      rw [follow] at h
      split at h
      · cases h
        exact .refl ⟨‹_›, start⟩
      · cases h
  | succ n ih =>
      rw [follow] at h
      split at h
      · obtain ⟨e, hs, he⟩ := Option.bind_eq_some_iff.mp h
        exact .head (.step hs) ⟨‹_›, start⟩ (ih he (keeps c e hs start))
      · cases h

end Config

/-- How a view is specified that is told of everything and does nothing. -/
def onlooker : ListenerSpec Op := ⟨false, fun _ => none, 0, false, fun _ => none⟩

/-- How a mapper is specified that answers each key with itself. -/
def echo : MapperSpec Op := .computed ⟨.identity, [], ""⟩ none [] 0

/-- The world after some actions have been carried out in the empty one. -/
def World.built (actions : List (Action Op)) : World :=
  actions.foldl (fun w a => (w.execute a).2) ∅

theorem Config.reached_built (actions : List (Action Op)) :
    ∃ reply, Reached ⟨World.built actions, [], reply⟩ := by
  suffices go : ∀ w reply, Reached ⟨w, [], reply⟩ →
      ∃ reply, Reached ⟨actions.foldl (fun w a => (w.execute a).2) w, [], reply⟩ from
    go ∅ none (.refl trivial)
  induction actions with
  | nil => exact fun w reply h => ⟨reply, h⟩
  | cons a actions ih =>
      intro w reply h
      exact ih _ _ (.tail h (.perform (.act a) (atRest_iff.mpr rfl)) trivial)

/-- The changes of a handler that a row of callbacks carries to a listener. -/
def changesTold (l : Listener) (h : HandlerId) (tells : List (Listener × Event)) : List Change :=
  tells.filterMap fun t => if t.1 = l ∧ t.2.source = h then some t.2.change else none

section ChangesTold

variable {l m : Listener} {h g : HandlerId} {c : Change} {e : Event}
variable {tells : List (Listener × Event)}

@[simp] theorem changesTold_nil : changesTold l h [] = [] := rfl

@[simp] theorem changesTold_append (more : List (Listener × Event)) :
    changesTold l h (tells ++ more) = changesTold l h tells ++ changesTold l h more :=
  List.filterMap_append

theorem changesTold_cons_self :
    changesTold l h ((l, ⟨h, c⟩) :: tells) = c :: changesTold l h tells := by
  simp [changesTold]

theorem changesTold_cons_of_ne (other : ¬ (m = l ∧ e.source = h)) :
    changesTold l h ((m, e) :: tells) = changesTold l h tells := by
  simp [changesTold, other]

theorem mem_changesTold : c ∈ changesTold l h tells ↔ (l, ⟨h, c⟩) ∈ tells := by
  simp only [changesTold, List.mem_filterMap]
  constructor
  · rintro ⟨⟨m, source, change⟩, mem, found⟩
    split at found
    · rename_i same
      obtain ⟨rfl, rfl⟩ := same
      cases found
      exact mem
    · cases found
  · intro mem
    exact ⟨_, mem, by simp⟩

theorem changesTold_eq_nil_iff : changesTold l h tells = [] ↔ ∀ c, (l, ⟨h, c⟩) ∉ tells := by
  simp only [List.eq_nil_iff_forall_not_mem, mem_changesTold]

theorem changesTold_map_of_ne (listeners : List Listener) (other : e.source ≠ h) :
    changesTold l h (listeners.map (·, e)) = [] := by
  rw [changesTold_eq_nil_iff]
  intro c mem
  obtain ⟨m, -, same⟩ := List.mem_map.mp mem
  cases same
  exact other rfl

theorem changesTold_map {listeners : List Listener} (once : listeners.Nodup)
    (registered : l ∈ listeners) :
    changesTold l h (listeners.map (·, ⟨h, c⟩)) = [c] := by
  induction listeners with
  | nil => cases registered
  | cons m listeners ih =>
      obtain ⟨new, once⟩ := List.nodup_cons.mp once
      rw [List.map_cons]
      by_cases same : m = l
      · subst same
        rw [changesTold_cons_self, changesTold_eq_nil_iff.mpr]
        intro c' told
        obtain ⟨m', mem, same⟩ := List.mem_map.mp told
        cases same
        exact new mem
      · rw [changesTold_cons_of_ne fun e => same e.1]
        exact ih once ((List.mem_cons.mp registered).resolve_left fun e => same e.symm)

end ChangesTold

namespace World

/-- The callbacks since an earlier world. -/
def heardSince (start w : World) : List (Listener × Event) := w.heard.drop start.heard.length

/-- The events announced since an earlier world. -/
def announcedSince (start w : World) : List Event := w.announced.drop start.announced.length

theorem heardSince_append {start w v : World} {more : List (Listener × Event)}
    (before : start.heard <+: w.heard) (grown : v.heard = w.heard ++ more) :
    start.heardSince v = start.heardSince w ++ more := by
  rw [heardSince, grown, List.drop_append_of_le_length before.length_le, heardSince]

theorem announcedSince_append {start w v : World} {more : List Event}
    (before : start.announced <+: w.announced) (grown : v.announced = w.announced ++ more) :
    start.announcedSince v = start.announcedSince w ++ more := by
  rw [announcedSince, grown, List.drop_append_of_le_length before.length_le, announcedSince]

/-- The changes of a handler that a listener was told of since an earlier world. -/
def received (l : Listener) (h : HandlerId) (start w : World) : List Change :=
  changesTold l h (start.heardSince w)

theorem received_congr {l : Listener} {h : HandlerId} {start w v : World}
    (same : v.heard = w.heard) : start.received l h v = start.received l h w := by
  rw [received, heardSince, same]
  rfl

@[simp] theorem received_self (l : Listener) (h : HandlerId) (w : World) :
    w.received l h w = [] := by
  simp [received, heardSince]

end World

namespace Config

theorem received_append {l : Listener} {h : HandlerId} {start w v : World}
    {more : List (Listener × Event)} (before : start.heard <+: w.heard)
    (grown : v.heard = w.heard ++ more) :
    start.received l h v = start.received l h w ++ changesTold l h more := by
  rw [World.received, World.heardSince_append before grown, changesTold_append, World.received]

end Config

end HighlightSync
