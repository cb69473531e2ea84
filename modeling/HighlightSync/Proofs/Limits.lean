import HighlightSync.Proofs.Unison

/-!
# Limits that are not reached

The settings of handlers can be changed throughout a session, in the world that it begins in and in
all operations, those of scripts and of lazy input included (`Op.resettle`, `World.resettle`).
Nothing but refusals depends on depth limits. So if settings are changed in such a way that faulty
ones stay faulty and no limit gets stricter, a session in which nothing is refused goes on as before
(`lawful_resettled`).

Without limits (`Settings.unlimited`) nothing is refused at all. A session in which no limit is
reached is the same as the session without limits (`Stage.agree_without_limits`): keys, listeners
and targets, callbacks, replies and reports, at every moment.
-/

namespace HighlightSync

/-- The settings without a depth limit. Settings at fault make no handler, and stay as they are. -/
def Settings.unlimited (s : Settings) : Settings :=
  if s.fault? = none then { s with depthLimit := none } else s

namespace Settings

theorem depthLimit_unlimited {s : Settings} (sound : s.fault? = none) :
    s.unlimited.depthLimit = none := by
  rw [unlimited, if_pos sound]

@[simp] theorem fault?_unlimited (s : Settings) : s.unlimited.fault? = s.fault? := by
  rw [unlimited]
  split
  · rename_i sound
    rw [sound]
    simp
  · rfl

@[simp] theorem unlimited_unlimited (s : Settings) : s.unlimited.unlimited = s.unlimited := by
  by_cases sound : s.fault? = none
  · simp [unlimited, sound]
  · simp [unlimited, sound]

theorem refuses?_unlimited (s : Settings) (depth : Nat) :
    s.unlimited.refuses? depth = s.refuses? depth ∨ (s.refuses? depth).isSome = true := by
  by_cases sound : s.fault? = none
  · cases refused : s.refuses? depth with
    | some limit => exact .inr rfl
    | none => exact .inl (by rw [refuses?, depthLimit_unlimited sound, Option.filter_none])
  · exact .inl (by rw [unlimited, if_neg sound])

end Settings

section Resettle

variable (f : Settings → Settings)

mutual

/-- The operation with other settings for all handlers that it makes, those of the scripts and the
lazy input that it holds included. Nothing else differs. -/
def Op.resettle : Op → Op
  | .act a => .act (Action.resettle a)
  | .move d name feed => .move d name (Feed.resettle feed)
  | .reset name => .reset name
  | .isHighlighted name feed => .isHighlighted name (Feed.resettle feed)
  | .swapMapper name spec => .swapMapper name (MapperSpec.resettle? spec)
  | .dropTranslator name => .dropTranslator name

/-- The action with other settings. -/
def Action.resettle : Action Op → Action Op
  | .createHandler name s => .createHandler name (f s)
  | .createListener name spec => .createListener name (ListenerSpec.resettle spec)
  | .createTranslator name source spec =>
      .createTranslator name source (MapperSpec.resettle? spec)
  | a => a

/-- The specification of a view, with other settings in its scripts. -/
def ListenerSpec.resettle : ListenerSpec Op → ListenerSpec Op
  | ⟨deaf, script, times, propagate, fault⟩ =>
      ⟨deaf, fun kind => Script.resettle? (script kind), times, propagate, fault⟩

/-- A script, if there is one, with other settings. -/
def Script.resettle? : Option (List Op) → Option (List Op)
  | none => none
  | some ops => some (Script.resettle ops)

/-- A script with other settings. -/
def Script.resettle : List Op → List Op
  | [] => []
  | op :: ops => Op.resettle op :: Script.resettle ops

/-- The specification of a mapper, if there is one, with other settings in its script. -/
def MapperSpec.resettle? : Option (MapperSpec Op) → Option (MapperSpec Op)
  | none => none
  | some spec => some (MapperSpec.resettle spec)

/-- The specification of a mapper, with other settings in its script. -/
def MapperSpec.resettle : MapperSpec Op → MapperSpec Op
  | .table t => .table t
  | .computed formula label script times => .computed formula label (Script.resettle script) times

/-- Lazy input with other settings. -/
def Feed.resettle : Feed Op → Feed Op
  | ⟨filter, pulls⟩ => ⟨filter, Pulls.resettle pulls⟩

/-- The steps of lazy input, with other settings. -/
def Pulls.resettle : List (Pull Op) → List (Pull Op)
  | [] => []
  | pull :: pulls => Pull.resettle pull :: Pulls.resettle pulls

/-- A step of lazy input, with other settings. -/
def Pull.resettle : Pull Op → Pull Op
  | .act op => .act (Op.resettle op)
  | .key k => .key k

end

theorem Script.resettle_eq_map (ops : List Op) :
    Script.resettle f ops = ops.map (Op.resettle f) := by
  induction ops with
  | nil => rfl
  | cons op ops ih => rw [Script.resettle, ih, List.map_cons]

/-- A store of changed values. -/
def Store.map {α β : Type u} (g : α → β) (s : Store α) : Store β := ⟨s.items.map g⟩

/-- Sessions may differ in the settings that handlers are given: those of the second are made of
those of the first. -/
def resettled : Likeness where
  aside _ := false
  settings s s' := s' = f s
  lenient := True
  answer := Eq
  origin := Eq
  id := Eq
  count := Eq
  registry := Eq

end Resettle

theorem inUnison_resettled (f : Settings → Settings) : (resettled f).InUnison :=
  ⟨fun _ => rfl, rfl, rfl, rfl⟩

section Alike

variable (f : Settings → Settings)

mutual

theorem Op.alike_resettle : (op : Op) → op.Alike (resettled f) (op.resettle f)
  | .act a => by
      rw [Op.resettle]
      exact .act (Action.alike_resettle a)
  | .move d name ⟨filter, pulls⟩ => by
      rw [Op.resettle, Feed.resettle]
      exact .move d name filter (Pulls.alike_resettle pulls)
  | .reset name => by
      rw [Op.resettle]
      exact .reset name
  | .isHighlighted name ⟨filter, pulls⟩ => by
      rw [Op.resettle, Feed.resettle]
      exact .isHighlighted name filter (Pulls.alike_resettle pulls)
  | .swapMapper name spec => by
      rw [Op.resettle]
      exact .swapMapper name (MapperSpec.alike_resettle? spec)
  | .dropTranslator name => by
      rw [Op.resettle]
      exact .dropTranslator name

theorem Action.alike_resettle :
    (a : Action Op) → a.Alike (resettled f) (Script.Alike (resettled f)) (a.resettle f)
  | .createHandler name s => by
      rw [Action.resettle]
      exact .createHandler name rfl
  | .createListener name spec => by
      rw [Action.resettle]
      exact .createListener rfl (ListenerSpec.alike_resettle spec)
  | .createTranslator name source spec => by
      rw [Action.resettle]
      exact .createTranslator name source (MapperSpec.alike_resettle? spec)
  | .dropHandler _ | .inspectHandler _ | .contains _ _ | .keys _ | .depth | .threadDepth
  | .addListener _ _ | .removeListener _ _ | .removeListenerId _ _ | .removeAllListeners _
  | .addTarget _ _ | .removeTarget _ _ | .removeAllTargets _ | .inspectTranslator _
  | .unknown _ => .same _ rfl

theorem ListenerSpec.alike_resettle : (spec : ListenerSpec Op) →
    spec.Alike (Script.Alike (resettled f)) (spec.resettle f)
  | ⟨deaf, script, times, propagate, fault⟩ => by
      rw [ListenerSpec.resettle]
      exact .mk deaf times propagate fault fun kind => Script.alike_resettle? (script kind)

theorem Script.alike_resettle? : (ops : Option (List Op)) →
    Option.Rel (Script.Alike (resettled f)) ops (Script.resettle? f ops)
  | none => by
      rw [Script.resettle?]
      exact .none
  | some ops => by
      rw [Script.resettle?]
      exact .some (Script.alike_resettle ops)

theorem Script.alike_resettle :
    (ops : List Op) → Script.Alike (resettled f) ops (Script.resettle f ops)
  | [] => by
      rw [Script.resettle]
      exact .nil
  | op :: ops => by
      rw [Script.resettle]
      exact .both (Op.alike_resettle op) (Script.alike_resettle ops)

theorem MapperSpec.alike_resettle? : (spec : Option (MapperSpec Op)) →
    MapperSpec.Alike (resettled f) (Script.Alike (resettled f)) spec (MapperSpec.resettle? f spec)
  | none => by
      rw [MapperSpec.resettle?]
      exact .none
  | some (.table t) => by
      rw [MapperSpec.resettle?, MapperSpec.resettle]
      exact .some (fun _ _ => rfl) (fun _ _ => .nil) rfl
  | some (.computed formula label script times) => by
      rw [MapperSpec.resettle?, MapperSpec.resettle]
      refine .some (fun _ _ => rfl) (fun n k => ?_) rfl
      by_cases more : n < times
      · simpa only [MapperState.ofSpec, if_pos more] using Script.alike_resettle script
      · simpa only [MapperState.ofSpec, if_neg more] using .nil

theorem Pulls.alike_resettle :
    (pulls : List (Pull Op)) → Pulls.Alike (resettled f) pulls (Pulls.resettle f pulls)
  | [] => by
      rw [Pulls.resettle]
      exact .nil
  | .act op :: pulls => by
      rw [Pulls.resettle, Pull.resettle]
      exact .both (.act (Op.alike_resettle op)) (Pulls.alike_resettle pulls)
  | .key k :: pulls => by
      rw [Pulls.resettle, Pull.resettle]
      exact .both (.key k) (Pulls.alike_resettle pulls)

end

end Alike

section Worlds

variable (f : Settings → Settings)

/-- The reply shows other settings, and is one to the operation with other settings. -/
def Record.resettle : Record → Record
  | .performed op r => .performed (op.resettle f) (r.resettle f)
  | r => r

/-- The view with other settings in its scripts. -/
def ViewState.resettle (v : ViewState) : ViewState :=
  { v with behavior.script := fun n e => Script.resettle? f (v.behavior.script n e) }

/-- The mapper with other settings in its scripts. -/
def MapperState.resettle (m : MapperState) : MapperState :=
  { m with script := fun n k => Script.resettle f (m.script n k) }

/-- The world with other settings: those of handlers, and those that scripts hold. -/
def World.resettle (w : World) : World :=
  { w with
    handlers := w.handlers.map (HandlerState.resettle f)
    mappers := w.mappers.map (MapperState.resettle f)
    views := w.views.map fun v => (v.1, v.2.resettle f)
    journal := w.journal.map (Record.resettle f) }

theorem Store.alike_map {α : Type u} {R : α → α → Prop} {g : α → α} (related : ∀ a, R a (g a))
    (s : Store α) : s.Alike R (s.map g) where
  size := by simp [Store.size, Store.map]
  get n := by
    rw [Store.get?, Store.get?, Store.map]
    split
    · exact .none
    · rw [Array.getElem?_map]
      cases s.items[n - 1]? with
      | none => exact .none
      | some a => exact .some (related a)

theorem Store.alike_refl {α : Type u} {R : α → α → Prop} (related : ∀ a, R a a) (s : Store α) :
    s.Alike R s where
  size := rfl
  get n := by
    cases s.get? n with
    | none => exact .none
    | some a => exact .some (related a)

theorem World.view?_resettle (w : World) (name : String) :
    (w.resettle f).view? name = (w.view? name).map (ViewState.resettle f) := by
  rw [view?, view?, resettle]
  induction w.views with
  | nil => rfl
  | cons v vs ih =>
      rw [List.map_cons, List.lookup_cons, List.lookup_cons, ih]
      split <;> rfl

theorem Reply.alike_resettle (op : Option Op) (r : Reply) :
    r.Alike (resettled f) op (r.resettle f) := by
  cases r with
  | created h s => exact .created op h rfl
  | handler info => exact .handler op _ _ rfl rfl
  | _ => exact .same op _

theorem Record.alike_resettle (r : Record) : r.Alike (resettled f) (r.resettle f) := by
  cases r with
  | performed op r => exact .performed (op.alike_resettle f) (r.alike_resettle f (some op))
  | _ => exact .same _ rfl

/-- A world is alike with other settings. -/
theorem World.alike_resettle (w : World) : w.Alike (resettled f) (w.resettle f) where
  handlers := Store.alike_map (fun _ => ⟨rfl, rfl, rfl⟩) _
  translators := Store.alike_refl
    (fun _ => ⟨rfl, rfl, List.forall₂_same.mpr fun _ _ => ⟨rfl, rfl⟩, rfl, rfl⟩) _
  mappers := Store.alike_map
    (fun m => ⟨fun _ _ => rfl, fun n k => Script.alike_resettle f (m.script n k), rfl, rfl⟩) _
  views name := by
    rw [view?_resettle]
    cases w.view? name with
    | none => exact .none
    | some v =>
        have behaviors : v.behavior.Alike (resettled f) (v.resettle f).behavior :=
          ⟨rfl, rfl, rfl, fun n e => Script.alike_resettle? f (v.behavior.script n e)⟩
        exact .some ⟨nofun, fun _ => ⟨behaviors, rfl, rfl⟩⟩
  names := rfl
  depth := rfl
  journal := by
    rw [resettle, Array.toList_map]
    induction w.journal.toList with
    | nil => exact .nil
    | cons r rs ih => exact .both (r.alike_resettle f) ih

end Worlds

section Lawful

variable {f : Settings → Settings}

theorem Reply.Alike.resettle_eq (stays : ∀ s, f (f s) = f s) {op : Option Op} {r r' : Reply}
    (alike : r.Alike (resettled f) op r') : r'.resettle f = r.resettle f := by
  cases alike with
  | same => rfl
  | created _ h settings =>
      cases settings
      exact congrArg (Reply.created h) (stays _)
  | registered _ ids =>
      cases ids
      rfl
  | handler _ h keys settings counts =>
      cases settings
      cases counts
      exact congrArg (fun s => Reply.handler ⟨h, s, keys, _⟩) (stays _)
  | removed _ aside => cases aside

/-- Settings do not show if faulty ones stay faulty and no limit gets stricter. -/
theorem lawful_resettled (fault : ∀ s, (f s).fault? = s.fault?)
    (looser : ∀ s depth, (f s).refuses? depth = s.refuses? depth ∨
      (s.refuses? depth).isSome = true) :
    (resettled f).Lawful (fun _ => True) (fun _ => True) :=
  (inUnison_resettled f).lawful
    (fun {s _} same => same ▸ fault s)
    (fun {s _} depth same => same ▸ (looser s depth).imp_right fun refused => ⟨trivial, refused⟩)
    (fun {a _} same => by
      cases same
      cases a with
      | error message => exact .inl ⟨message, rfl, rfl⟩
      | ok fine => exact .inr ⟨fine, fine, rfl, rfl, fun _ => .rfl⟩)
    rfl

end Lawful

namespace Stage

/-- A limit that is not reached changes nothing. Take the limits of all handlers out of a session:
of those that there are when it begins, and of all that are made later, by scripts and by lazy input
as well. Wherever the session comes to without a refusal, the one without limits comes to a stage
that is the same but for the limits; and if no refusal ever comes, it comes to no others. Where
one of them ends, so does the other. -/
theorem agree_without_limits (w : World) (ops : List Op) :
    let free := startIn (w.resettle Settings.unlimited) (ops.map (Op.resettle Settings.unlimited))
    (∀ s, Comes next? (startIn w ops) s → ¬ s.config.HasRefused →
      ∃ s', Comes next? free s' ∧ s.AgreeUpTo Settings.unlimited s' ∧
        (s.next? = none → s'.next? = none)) ∧
    ((∀ s, Comes next? (startIn w ops) s → ¬ s.config.HasRefused) →
      ∀ s', Comes next? free s' → ∃ s, Comes next? (startIn w ops) s ∧
        s.AgreeUpTo Settings.unlimited s' ∧ (s'.next? = none → s.next? = none)) := by
  have lawful := lawful_resettled Settings.fault?_unlimited Settings.refuses?_unlimited
  have worlds := w.alike_resettle Settings.unlimited
  have same : Script.Alike (resettled Settings.unlimited) ops
      (ops.map (Op.resettle Settings.unlimited)) :=
    Script.resettle_eq_map Settings.unlimited ops ▸ Script.alike_resettle _ ops
  have upToLimits : ∀ {s s' : Stage}, s.Agree (resettled Settings.unlimited) s' →
      s.AgreeUpTo Settings.unlimited s' := fun agree =>
    agree.agreeUpTo (inUnison_resettled _) (fun _ _ => id) fun _ _ _ =>
      Reply.Alike.resettle_eq Settings.unlimited_unlimited
  refine ⟨fun s run calm => ?_, fun calm s' run => ?_⟩
  · obtain ⟨s', goes, agree, ends⟩ := exists_agree_of_calm lawful worlds same run fun _ => calm
    exact ⟨s', goes, upToLimits agree, ends⟩
  · obtain ⟨s, goes, agree, ends⟩ :=
      exists_agree_swap_of_calm lawful worlds same (fun _ => calm) run
    exact ⟨s, goes, upToLimits agree, ends⟩

/-- A session that goes as deep as its limits allow: a view moves keys on the source of a
translator and makes a handler while the keys are read, the mapper is at it as well, and all is
taken back. -/
def delving : List Op :=
  [.act (.createHandler "h" ⟨none, some 3⟩), .act (.createHandler "g" ⟨none, some 4⟩),
    .act (.createListener "v" { onlooker with
      script := fun _ => some [.move .highlight "h"
        ⟨some .absent, [.act (.act (.createHandler "n" ⟨none, some 1⟩)), .key (.int 2)]⟩]
      times := 1
      propagate := true }),
    .act (.addListener "g" "v"),
    .act (.createTranslator "t" "h"
      (some (.computed ⟨.identity, [], ""⟩ none [.act .depth, .reset "g"] 1))),
    .act (.addTarget "t" "g"), .move .highlight "h" ⟨none, [.key (.int 1)]⟩, .reset "h"]

/-- Without limits the session delves no deeper, and nothing else comes of it. -/
theorem agree_without_limits_delving :
    let free := startIn ((∅ : World).resettle Settings.unlimited)
      (delving.map (Op.resettle Settings.unlimited))
    ∃ s, Comes next? (startIn ∅ delving) s ∧ s.next? = none ∧
      s.config.world.callbacks.map (fun told => told.2.2) = [1, 2, 3, 4, 4, 2, 1, 2, 2] ∧
      (∃ s', Comes next? free s' ∧ s'.next? = none ∧ s.AgreeUpTo Settings.unlimited s') ∧
      ∀ s', Comes next? free s' →
        ∃ d, Comes next? (startIn ∅ delving) d ∧ d.AgreeUpTo Settings.unlimited s' := by
  intro free
  have ends : (go (fun _ => True) 89 (startIn ∅ delving)).any (fun s =>
      s.next?.isNone && !decide s.config.HasRefused &&
        decide (s.config.world.callbacks.map (fun told => told.2.2) =
          [1, 2, 3, 4, 4, 2, 1, 2, 2])) = true := by decide +kernel
  obtain ⟨s, goes, atEnd⟩ := (Option.any_eq_true _ _).mp ends
  simp only [Bool.and_eq_true, Option.isNone_iff_eq_none, Bool.not_eq_true',
    decide_eq_false_iff_not, decide_eq_true_eq] at atEnd
  obtain ⟨⟨last, calm⟩, depths⟩ := atEnd
  have run : Comes next? (startIn ∅ delving) s :=
    Relation.ReflTransGen.mono (fun _ _ step => step.2) _ _ (goesBy_of_go goes)
  obtain ⟨there, back⟩ := agree_without_limits ∅ delving
  obtain ⟨s', run', agree, done⟩ := there s run calm
  refine ⟨s, run, last, depths, ⟨s', run', done last, agree⟩, fun s' run' => ?_⟩
  obtain ⟨d, came, agree, -⟩ := back (fun d before => calm_of_ends run last calm before) s' run'
  exact ⟨d, came, agree⟩

end Stage

end HighlightSync
