import HighlightSync.Proofs.Edits
import HighlightSync.Proofs.Nesting

/-!
# Reading before changing

Input may do anything while it is read: change the very handler that reads it, query it, reset it,
rewire it. All this goes on above the frame that reads. That frame itself takes up the steps of the
input one after the other, and changes nothing and tells nobody until none is left
(`step_reading_act`, `step_reading_key`). Only then is the set of the handler looked at and changed,
in one step, and those who are told afterwards are told of the difference to the set at that moment.

`Config.Reading` says so of the own steps of a reading, at any time and whatever goes on above it;
`reads_before_change` proves it of every call that moves keys and is accepted, and of every query.
-/

namespace HighlightSync

/-- What a step of lazy input hands over, when it is taken up at a set. -/
def Pull.yields? (filter : Option Presence) (s : KeySet) : Pull Op → Option Key
  | .act _ => none
  | .key k => if filter.all fun p => p.admits k s then some k else none

/-- The keys that are handed over, when each step of the input is taken up at a set. -/
def Feed.handed (feed : Feed Op) (pulls : List (Pull Op × KeySet)) : List Key :=
  pulls.filterMap fun p => p.1.yields? feed.filter p.2

theorem Feed.handed_concat (feed : Feed Op) (pulls : List (Pull Op × KeySet))
    (p : Pull Op × KeySet) :
    feed.handed (pulls ++ [p]) = feed.handed pulls ++ (p.1.yields? feed.filter p.2).toList := by
  rw [handed, handed, List.filterMap_append, List.filterMap_cons, List.filterMap_nil]
  cases p.1.yields? feed.filter p.2 <;> rfl

namespace Config

/-- The step of lazy input that the next step takes up, if it takes up one. -/
def pull? (c : Config) : Option (Pull Op) :=
  match c.stack, c.reply with
  | .reading _ _ _ (p :: _) _ :: _, none => some p
  | _, _ => none

/-- The steps of lazy input that are taken up, each with the set of a handler at that moment. -/
def pullsOf (h : HandlerId) (steps : List (Config × Config)) : List (Pull Op × KeySet) :=
  steps.filterMap fun s => s.1.pull?.map (·, s.1.world.keysOf h)

theorem pullsOf_concat (h : HandlerId) (steps : List (Config × Config)) (c d : Config) :
    pullsOf h (steps ++ [(c, d)]) =
      pullsOf h steps ++ (c.pull?.map (·, c.world.keysOf h)).toList := by
  rw [pullsOf, pullsOf, List.filterMap_append, List.filterMap_cons, List.filterMap_nil]
  cases c.pull? <;> rfl

/-- A step changes no keys of any handler, calls nobody back and announces nothing. -/
def Silent (s : Config × Config) : Prop := s.2.world.observed = s.1.world.observed

/-- The own steps of a reading come to the one from `a` to `b` when all the input is taken up, and
none of them was heard of before. The keys that were handed over are `keys`. -/
structure ReadThrough (h : HandlerId) (feed : Feed Op) (own before : List (Config × Config))
    (a b : Config) (after : List (Config × Config)) (keys : KeySet) : Prop where
  split : own = before ++ (a, b) :: after
  silent : ∀ s ∈ before, Silent s
  all : (pullsOf h before).map Prod.fst = feed.pulls
  handed : keys = .ofList (feed.handed (pullsOf h before))

/-- Once keys are read, those of them that move are announced in one step, from `a` to `b`: the set
of the handler changes then, as it was until then, and all who are told by the own steps after it
are told of just this. -/
structure MovesOnce (h : HandlerId) (d : Direction) (keys : KeySet) (below : List Frame)
    (a b : Config) (after : List (Config × Config)) : Prop where
  something : d.effect keys (a.world.keysOf h) ≠ ∅
  changes : b.world.keysOf h = d.apply keys (a.world.keysOf h)
  others : ∀ g, g ≠ h → b.world.keysOf g = a.world.keysOf g
  untold : b.world.heard = a.world.heard
  tells : b = running b.world (.fanOut ⟨h, .move d (d.effect keys (a.world.keysOf h))⟩
    (a.world.listeners h) none :: below)
  told : ∀ s ∈ after, s.2.world.keysOf = s.1.world.keysOf ∧ ∃ more,
    s.2.world.heard = s.1.world.heard ++ more ∧
    ∀ t ∈ more, t.2 = ⟨h, .move d (d.effect keys (a.world.keysOf h))⟩

theorem ReadThrough.pullsOf_eq {h : HandlerId} {feed : Feed Op}
    {own before after : List (Config × Config)} {a b : Config} {keys : KeySet}
    (through : ReadThrough h feed own before a b after keys)
    (length : (pullsOf h own).length = feed.pulls.length) : pullsOf h before = pullsOf h own := by
  have all := congrArg List.length through.all
  have split : pullsOf h own = pullsOf h before ++ pullsOf h ((a, b) :: after) := by
    rw [through.split, pullsOf, List.filterMap_append]
    rfl
  rw [List.length_map] at all
  rw [split, List.length_append] at length
  have rest : pullsOf h ((a, b) :: after) = [] := List.eq_nil_of_length_eq_zero (by omega)
  rw [split, rest, List.append_nil]

/-- What the own steps of a reading do. -/
inductive Reading (h : HandlerId) (feed : Feed Op) (purpose : Purpose) (below : List Frame)
    (own : List (Config × Config)) (c : Config) : Prop where
  /-- As long as input is left, nothing is changed. -/
  | unfinished (silent : ∀ s ∈ own, Silent s)
      (soFar : (pullsOf h own).map Prod.fst <+: feed.pulls)
      (goesOn : ∃ front pulls taken,
        c.stack = front ++ .reading h purpose feed.filter pulls taken :: below)
  /-- If nothing moves, nobody is told and the call ends well. -/
  | unmoved (before : List (Config × Config)) (a : Config) (keys : KeySet)
      (through : ReadThrough h feed own before a c [] keys) (d : Direction)
      (is : purpose = .move d) (nothing : d.effect keys (a.world.keysOf h) = ∅)
      (silent : Silent (a, c)) (ends : c = answered c.world below .done)
  /-- Otherwise the set changes at once, and those who are told are told of the change. -/
  | moved (before : List (Config × Config)) (a b : Config) (after : List (Config × Config))
      (keys : KeySet) (through : ReadThrough h feed own before a b after keys) (d : Direction)
      (is : purpose = .move d) (moves : MovesOnce h d keys below a b after)
  /-- A query is answered for the set as it is then. -/
  | queried (before : List (Config × Config)) (a : Config) (keys : KeySet)
      (through : ReadThrough h feed own before a c [] keys) (is : purpose = .query)
      (silent : Silent (a, c)) (answer : Bool) (ends : c = answered c.world below (.truth answer))
      (exact : answer = true ↔ ∀ k, k ∈ keys → k ∈ a.world.keysOf h)

section Steps

variable {c d : Config} {below : List Frame} {h : HandlerId} {purpose : Purpose}
variable {filter : Option Presence} {pulls : List (Pull Op)} {taken : List Key}

theorem step_reading_of_reply {op : Op} {rest : List (Pull Op)} (hs : c.step = some d)
    (top : c.stack = .reading h purpose filter (.act op :: rest) taken :: below)
    (replied : c.reply.isSome = true) :
    Silent (c, d) ∧ c.pull? = none ∧ d.reply = none ∧
      d.stack = .reading h purpose filter rest taken :: below := by
  obtain ⟨w, stack, reply⟩ := c
  cases top
  cases reply with
  | none => cases replied
  | some r =>
      cases hs
      exact ⟨w.observed_record rfl rfl, rfl, rfl, rfl⟩

theorem step_reading_act {op : Op} {rest : List (Pull Op)} (hs : c.step = some d)
    (top : c.stack = .reading h purpose filter (.act op :: rest) taken :: below)
    (idle : c.reply = none) :
    Silent (c, d) ∧ c.pull? = some (.act op) ∧ ∃ pushed,
      d.stack = pushed ++ .reading h purpose filter (.act op :: rest) taken :: below ∧
      Pends below d := by
  obtain ⟨w, stack, reply⟩ := c
  cases top
  cases idle
  cases hs
  have begins := begins_perform op w (.reading h purpose filter (.act op :: rest) taken :: below)
  exact ⟨begins.still.observed, rfl, begins.begun.pends⟩

theorem step_reading_key {k : Key} {rest : List (Pull Op)} (hs : c.step = some d)
    (top : c.stack = .reading h purpose filter (.key k :: rest) taken :: below)
    (idle : c.reply = none) :
    Silent (c, d) ∧ c.pull? = some (.key k) ∧ d.reply = none ∧ ∃ taken',
      d.stack = .reading h purpose filter rest taken' :: below ∧
      taken'.reverse = taken.reverse ++
        ((Pull.key k).yields? filter (c.world.keysOf h)).toList := by
  obtain ⟨w, stack, reply⟩ := c
  cases top
  cases idle
  cases hs
  refine ⟨w.observed_record rfl rfl, rfl, rfl, _, rfl, ?_⟩
  simp only [Pull.yields?]
  split <;> simp

theorem step_reading_query (hs : c.step = some d)
    (top : c.stack = .reading h .query filter [] taken :: below) (idle : c.reply = none) :
    Silent (c, d) ∧ ∃ answer, d = answered d.world below (.truth answer) ∧
      (answer = true ↔ ∀ k, k ∈ KeySet.ofList taken.reverse → k ∈ c.world.keysOf h) := by
  obtain ⟨w, stack, reply⟩ := c
  cases top
  cases idle
  cases hs
  refine ⟨rfl, _, rfl, ?_⟩
  rw [KeySet.isSubset_iff]
  simp only [KeySet.mem_ofList, List.mem_reverse]

theorem step_reading_of_nothing {dir : Direction} (hs : c.step = some d)
    (top : c.stack = .reading h (.move dir) filter [] taken :: below) (idle : c.reply = none)
    (nothing : dir.effect (.ofList taken.reverse) (c.world.keysOf h) = ∅) :
    Silent (c, d) ∧ d = answered d.world below .done := by
  obtain ⟨w, stack, reply⟩ := c
  cases top
  cases idle
  cases hs
  simp only [advance, finishReading, if_pos nothing]
  exact ⟨w.observed_note rfl, rfl⟩

/-- When nothing is left to read for a call, and something moves, this is announced. -/
theorem step_reading_of_something {dir : Direction} (hs : c.step = some d)
    (top : c.stack = .reading h (.move dir) filter [] taken :: below) (idle : c.reply = none)
    (present : (c.world.handler? h).isSome = true)
    (something : dir.effect (.ofList taken.reverse) (c.world.keysOf h) ≠ ∅) :
    MovesOnce h dir (.ofList taken.reverse) below c d [] := by
  obtain ⟨w, stack, reply⟩ := c
  cases top
  cases idle
  cases hs
  let moved := dir.effect (.ofList taken.reverse) (w.keysOf h)
  have announces : (Note.moved h dir moved).announced? = some ⟨h, .move dir moved⟩ := rfl
  have observed := observed_announce announces w below
  have keys := congrArg Observed.keys observed
  have opened : advance (.reading h (.move dir) filter [] taken) w below =
      announce h (.move dir moved) (.moved h dir moved) w below := by
    simp only [advance, finishReading]
    rw [if_neg something]
  have changed : ∀ g, (announce h (.move dir moved) (.moved h dir moved) w below).world.keysOf g =
      (w.change h (.move dir moved)).keysOf g := fun g => congrFun keys g
  rw [opened]
  refine ⟨something, ?_, fun g other => ?_, congrArg Observed.heard observed, rfl, by simp⟩
  · rw [changed, World.keysOf_change present, if_pos rfl]
    exact Direction.apply_effect dir (.ofList taken.reverse) (w.keysOf h)
  · rw [changed, World.keysOf_change_of_ne _ other]

/-- A fan-out tells of its event, and of nothing else. -/
theorem step_fanOut_of_event {e : Event} {pending : List Listener} {first : Option Fault}
    (hs : c.step = some d) (top : c.stack = .fanOut e pending first :: below) :
    (d.world.keysOf = c.world.keysOf ∧ ∃ more, d.world.heard = c.world.heard ++ more ∧
      ∀ t ∈ more, t.2 = e) ∧
    ((∃ pushed pending' first', d.stack = pushed ++ .fanOut e pending' first' :: below) ∨
      d.stack = below) := by
  obtain ⟨w, stack, reply⟩ := c
  cases top
  have silent : ∀ {v : World}, v.observed = w.observed → v.keysOf = w.keysOf ∧
      ∃ more, v.heard = w.heard ++ more ∧ ∀ t ∈ more, t.2 = e := by
    intro v same
    refine ⟨congrArg Observed.keys same, [], ?_, by simp⟩
    rw [List.append_nil]
    exact congrArg Observed.heard same
  cases reply with
  | some r =>
      cases hs
      refine ⟨silent ?_, .inl ⟨[], pending.tail, _, rfl⟩⟩
      simp only [resume]
      split
      · exact w.observed_note rfl
      · rfl
  | none =>
      cases pending with
      | nil =>
          cases hs
          exact ⟨silent rfl, .inr rfl⟩
      | cons l rest =>
          cases hs
          obtain ⟨pushed, grown, -⟩ := raises_tell l e w (.fanOut e (l :: rest) first :: below)
          refine ⟨?_, .inl ⟨pushed, _, _, grown⟩⟩
          obtain ⟨depth, heeded, still⟩ | ⟨-, -, -, still⟩ :=
            tell_cases w (.fanOut e (l :: rest) first :: below) l e
          · refine ⟨congrArg Observed.keys still.observed, [(l, e)], ?_, by simp⟩
            exact (congrArg Observed.heard still.observed).trans (World.heard_record _ _)
          · exact silent still.observed

end Steps

section Runs

variable {h : HandlerId} {feed : Feed Op} {purpose : Purpose} {below : List Frame}
variable {own : List (Config × Config)} {f : Frame} {c d : Config}

/-- What is still to be taken up of the input by a frame that has the given steps left: a frame that
waits has taken up the first of them, an operation, already. -/
def Remaining (below : List Frame) (c : Config) (pulls left : List (Pull Op)) : Prop :=
  (¬ Pends below c ∧ left = pulls) ∨ (Pends below c ∧ ∃ op, pulls = .act op :: left)

/-- The frame of a reading, after its own steps so far: it reads on, or it tells of what has
moved. -/
inductive Underway (h : HandlerId) (feed : Feed Op) (purpose : Purpose) (below : List Frame)
    (own : List (Config × Config)) (f : Frame) (c : Config) : Prop where
  | reading (pulls left : List (Pull Op)) (taken : List Key)
      (is : f = .reading h purpose feed.filter pulls taken) (remains : Remaining below c pulls left)
      (silent : ∀ s ∈ own, Silent s) (split : (pullsOf h own).map Prod.fst ++ left = feed.pulls)
      (handed : taken.reverse = feed.handed (pullsOf h own))
      (present : (c.world.handler? h).isSome = true)
  | telling (before : List (Config × Config)) (a b : Config) (after : List (Config × Config))
      (keys : KeySet) (through : ReadThrough h feed own before a b after keys) (d : Direction)
      (moving : purpose = .move d) (moves : MovesOnce h d keys below a b after)
      (pending : List Listener) (first : Option Fault)
      (is : f = .fanOut ⟨h, .move d (d.effect keys (a.world.keysOf h))⟩ pending first)

theorem Underway.nested (underway : Underway h feed purpose below own f c) (hs : c.step = some d)
    (pends : Pends below c) (pends' : Pends below d) : Underway h feed purpose below own f d := by
  cases underway with
  | telling before a b after keys through dir moving moves pending first is =>
      exact .telling before a b after keys through dir moving moves pending first is
  | reading pulls left taken is remains silent split handed present =>
      have present' := (step_keeps hs).handlers h present
      refine .reading pulls left taken is ?_ silent split handed present'
      obtain ⟨idle, -⟩ | ⟨-, waiting⟩ := remains
      · exact absurd pends idle
      · exact .inr ⟨pends', waiting⟩

/-- After its own steps a reading is under way, or over. -/
def Proceeds (h : HandlerId) (feed : Feed Op) (purpose : Purpose) (below : List Frame)
    (own : List (Config × Config)) (c : Config) : Prop :=
  (∃ pushed f, c.stack = pushed ++ f :: below ∧ Underway h feed purpose below own f c) ∨
    c.stack = below ∧ Reading h feed purpose below own c

namespace Underway

section Telling

variable {before after : List (Config × Config)} {a b : Config} {keys : KeySet} {dir : Direction}

theorem owned_tells {pending : List Listener} {first : Option Fault} (hs : c.step = some d)
    (through : ReadThrough h feed own before a b after keys) (moving : purpose = .move dir)
    (moves : MovesOnce h dir keys below a b after)
    (top : c.stack =
      .fanOut ⟨h, .move dir (dir.effect keys (a.world.keysOf h))⟩ pending first :: below) :
    Proceeds h feed purpose below (own ++ [(c, d)]) d := by
  obtain ⟨told, goesOn⟩ := step_fanOut_of_event hs top
  have through' : ReadThrough h feed (own ++ [(c, d)]) before a b (after ++ [(c, d)]) keys := by
    refine ⟨?_, through.silent, through.all, through.handed⟩
    rw [through.split, List.append_assoc, List.cons_append]
  have moves' : MovesOnce h dir keys below a b (after ++ [(c, d)]) :=
    { moves with
      told := List.forall_mem_append.mpr ⟨moves.told, List.forall_mem_singleton.mpr told⟩ }
  obtain ⟨pushed, pending', first', split⟩ | there := goesOn
  · exact .inl ⟨pushed, _, split, .telling before a b _ keys through' dir moving moves' pending'
      first' rfl⟩
  · exact .inr ⟨there, .moved before a b _ keys through' dir moving moves'⟩

end Telling

section Input

variable {taken : List Key} {left : List (Pull Op)} (hs : c.step = some d)
  (silent : ∀ s ∈ own, Silent s) (split : (pullsOf h own).map Prod.fst ++ left = feed.pulls)
  (handed : taken.reverse = feed.handed (pullsOf h own))
  (present : (c.world.handler? h).isSome = true)

include hs silent split handed present

theorem owned_finishes (idle : c.reply = none) (all : left = [])
    (top : c.stack = .reading h purpose feed.filter [] taken :: below) :
    Proceeds h feed purpose below (own ++ [(c, d)]) d := by
  subst all
  have through : ReadThrough h feed (own ++ [(c, d)]) own c d [] (.ofList taken.reverse) :=
    ⟨rfl, silent, by simpa using split, congrArg KeySet.ofList handed⟩
  cases purpose with
  | query =>
      obtain ⟨now, answer, ends, exact⟩ := step_reading_query hs top idle
      exact .inr ⟨congrArg Config.stack ends, .queried own c _ through rfl now answer ends exact⟩
  | move dir =>
      by_cases nothing : dir.effect (.ofList taken.reverse) (c.world.keysOf h) = ∅
      · obtain ⟨now, ends⟩ := step_reading_of_nothing hs top idle nothing
        exact .inr ⟨congrArg Config.stack ends, .unmoved own c _ through dir rfl nothing now ends⟩
      · have moves := step_reading_of_something hs top idle present nothing
        exact .inl ⟨[], _, congrArg Config.stack moves.tells,
          .telling own c d [] _ through dir rfl moves _ none rfl⟩

/-- It takes up the next of the input. -/
theorem owned_pulls {pull : Pull Op} {rest : List (Pull Op)} (idle : c.reply = none)
    (more : left = pull :: rest)
    (top : c.stack = .reading h purpose feed.filter (pull :: rest) taken :: below) :
    Proceeds h feed purpose below (own ++ [(c, d)]) d := by
  subst more
  have present' := (step_keeps hs).handlers h present
  have silent' : Silent (c, d) → ∀ s ∈ own ++ [(c, d)], Silent s := fun now =>
    List.forall_mem_append.mpr ⟨silent, List.forall_mem_singleton.mpr now⟩
  have taken_up : pullsOf h (own ++ [(c, d)]) =
      pullsOf h own ++ (c.pull?.map (·, c.world.keysOf h)).toList := pullsOf_concat h own c d
  cases pull with
  | act op =>
      obtain ⟨now, takes, pushed, split', pends⟩ := step_reading_act hs top idle
      rw [takes, Option.map_some, Option.toList_some] at taken_up
      refine .inl ⟨pushed, _, split', .reading (.act op :: rest) rest taken rfl
        (.inr ⟨pends, op, rfl⟩) (silent' now) ?_ ?_ present'⟩
      · rw [taken_up, ← split]
        simp
      · rw [taken_up, Feed.handed_concat, handed]
        simp [Pull.yields?]
  | key k =>
      obtain ⟨now, takes, idle', taken', top', kept⟩ := step_reading_key hs top idle
      rw [takes, Option.map_some, Option.toList_some] at taken_up
      refine .inl ⟨[], _, top', .reading rest rest taken' rfl
        (.inl ⟨(not_pends_iff top').mpr idle', rfl⟩) (silent' now) ?_ ?_ present'⟩
      · rw [taken_up, ← split]
        simp
      · rw [taken_up, Feed.handed_concat, kept, handed]

theorem owned_hears {op : Op} (replied : c.reply.isSome = true)
    (top : c.stack = .reading h purpose feed.filter (.act op :: left) taken :: below) :
    Proceeds h feed purpose below (own ++ [(c, d)]) d := by
  have taken_up : pullsOf h (own ++ [(c, d)]) =
      pullsOf h own ++ (c.pull?.map (·, c.world.keysOf h)).toList := pullsOf_concat h own c d
  obtain ⟨now, takes, idle', top'⟩ := step_reading_of_reply hs top replied
  rw [takes, Option.map_none, Option.toList_none, List.append_nil] at taken_up
  refine .inl ⟨[], _, top', .reading left left taken rfl
    (.inl ⟨(not_pends_iff top').mpr idle', rfl⟩) ?_ ?_ ?_ ((step_keeps hs).handlers h present)⟩
  · exact List.forall_mem_append.mpr ⟨silent, List.forall_mem_singleton.mpr now⟩
  · rw [taken_up]
    exact split
  · rw [taken_up]
    exact handed

end Input

theorem owned (underway : Underway h feed purpose below own f c) (top : c.stack = f :: below)
    (hs : c.step = some d) : Proceeds h feed purpose below (own ++ [(c, d)]) d := by
  have height : c.stack.length = below.length + 1 := congrArg List.length top
  cases underway with
  | telling before a b after keys through dir moving moves pending first is =>
      subst is
      exact owned_tells hs through moving moves top
  | reading pulls left taken is remains silent split handed present =>
      subst is
      obtain ⟨idle, rfl⟩ | ⟨pends, op, rfl⟩ := remains
      · rw [not_pends_iff top] at idle
        cases left with
        | nil => exact owned_finishes hs silent split handed present idle rfl top
        | cons pull rest => exact owned_pulls hs silent split handed present idle rfl top
      · exact owned_hears hs silent split handed present (pends height) top

end Underway

/-- Every reading that has begun does so to the end. -/
theorem reading_of_runsAbove {w : World} {steps : List (Config × Config)}
    (present : (w.handler? h).isSome = true)
    (run : RunsAbove below (running w (.reading h purpose feed.filter feed.pulls [] :: below))
      steps c) : Reading h feed purpose below (ownSteps below steps) c := by
  have start : Underway h feed purpose below [] (.reading h purpose feed.filter feed.pulls [])
      (running w (.reading h purpose feed.filter feed.pulls [] :: below)) := by
    refine .reading feed.pulls feed.pulls [] rfl (.inl ⟨fun pends => ?_, rfl⟩) (by simp) rfl rfl
      present
    cases pends rfl
  obtain ⟨front, f, split, underway⟩ | ⟨-, reading⟩ := run.keeps
    (P := Underway h feed purpose below) (Q := Reading h feed purpose below) rfl start
    (fun _ _ _ _ underway hs pends pends' => underway.nested hs pends pends')
    (fun _ _ _ _ underway top hs => underway.owned top hs)
  · cases underway with
    | telling before a b after keys through dir moving moves _ _ _ =>
        exact .moved before a b after keys through dir moving moves
    | reading pulls left taken is remains silent taken_up handed present =>
        refine .unfinished silent ⟨left, taken_up⟩ ⟨front, pulls, taken, ?_⟩
        rw [split, is]
  · exact reading

end Runs

theorem openCall_of_unanswered {kind : ChangeKind} {h : HandlerId} {body : Frame} {w : World}
    {stack : List Frame} (accepted : (openCall kind h body w stack).reply = none) :
    openCall kind h body w stack =
      running { w.record (.enter (.call kind h)) with depth := w.depth + 1 }
        (body :: .call kind h :: stack) := by
  simp only [openCall] at accepted ⊢
  split at accepted
  · cases accepted
  · rfl

/-- All input is read before anything is changed. In every call that moves keys on a handler and is
accepted, and in every query, for input of any kind and whatever reading it and telling listeners
sets going above: as long as input is left, the own steps change no set and tell nobody. When all of
it is taken up, the keys that it has handed over are compared with the set of the handler at that
moment. A query is answered by whether all are in it. A call moves those that are not yet where they
are to be: if there are none it changes nothing, tells nobody and ends well; otherwise the set
becomes the union, or the difference, in one step, and all whom the call tells afterwards are told
of exactly these keys. -/
theorem reads_before_change {h : HandlerId} {w : World} (present : (w.handler? h).isSome = true)
    (feed : Feed Op) (stack : List Frame) :
    (∀ d steps c, (openMove d h feed w stack).reply = none →
      RunsAbove (.call d.kind h :: stack) (openMove d h feed w stack) steps c →
      Reading h feed (.move d) (.call d.kind h :: stack)
        (ownSteps (.call d.kind h :: stack) steps) c ∧
      (c = answered c.world (.call d.kind h :: stack) .done →
        ∃ v, v.observed = c.world.observed ∧ c.step = some (answered v stack .done))) ∧
    (∀ name steps c, w.handlerNamed? name = some h →
      RunsAbove stack (perform (.isHighlighted name feed) w stack) steps c →
      Reading h feed .query stack (ownSteps stack steps) c) := by
  refine ⟨fun d steps c accepted run => ⟨?_, fun ends => ?_⟩, fun name steps c named run => ?_⟩
  · rw [openMove, openCall_of_unanswered accepted] at run
    apply reading_of_runsAbove ?_ run
    exact present
  · rw [ends]
    exact ⟨{ c.world with depth := c.world.depth - 1 }.record (.exit (.call d.kind h)),
      World.observed_record { c.world with depth := c.world.depth - 1 } rfl rfl, rfl⟩
  · simp only [perform, onHandler, named] at run
    exact reading_of_runsAbove present run

section Examples

/-- A handler that somebody watches. -/
def watched : List (Action Op) :=
  [.createHandler "h" .plain, .createListener "v" onlooker, .addListener "h" "v"]

/-- Input that keeps keys which are not highlighted, and highlights some itself while it is read, or
takes them back. -/
def wavering : Feed Op :=
  ⟨some .absent,
    [.act (.move .highlight "h" ⟨none, [.key (.int 1), .key (.int 2)]⟩), .key (.int 1),
      .act (.move .unhighlight "h" ⟨none, [.key (.int 1)]⟩), .key (.int 1), .key (.int 3),
      .key (.int 3)]⟩

/-- The sets of a handler before and after each step that changes it. -/
def turns (h : HandlerId) (steps : List (Config × Config)) : List (KeySet × KeySet) :=
  (steps.map fun s => (s.1.world.keysOf h, s.2.world.keysOf h)).filter fun t => decide (t.1 ≠ t.2)

theorem turns_of_silent {h : HandlerId} {steps : List (Config × Config)}
    (silent : ∀ s ∈ steps, Silent s) : turns h steps = [] := by
  rw [turns, List.filter_eq_nil_iff]
  intro t mem
  obtain ⟨s, mem', rfl⟩ := List.mem_map.mp mem
  have same : s.2.world.keysOf h = s.1.world.keysOf h :=
    congrFun (congrArg Observed.keys (silent s mem')) h
  simpa using same.symm

/-- A key that its own input has put in and taken out again is handed over at last, and one that is
handed over twice does not find itself in the set the second time. -/
theorem reads_before_change_wavering :
    ∃ steps c before a b after,
      RunsAbove [.call .highlight ⟨1⟩] (openMove .highlight ⟨1⟩ wavering (.built watched) [])
        steps c ∧
      ReadThrough ⟨1⟩ wavering (ownSteps [.call .highlight ⟨1⟩] steps) before a b after
        (.ofList [.int 1, .int 3]) ∧
      MovesOnce ⟨1⟩ .highlight (.ofList [.int 1, .int 3]) [.call .highlight ⟨1⟩] a b after ∧
      a.world.keysOf ⟨1⟩ = .ofList [.int 2] ∧
      b.world.keysOf ⟨1⟩ = .ofList [.int 1, .int 2, .int 3] := by
  let start := openMove .highlight ⟨1⟩ wavering (.built watched) []
  have runs : (pursue 1 60 [] start).any (fun r =>
      decide ((pullsOf ⟨1⟩ (ownSteps [.call .highlight ⟨1⟩] r.1)).length = 6) &&
      decide (wavering.handed (pullsOf ⟨1⟩ (ownSteps [.call .highlight ⟨1⟩] r.1)) =
        [.int 1, .int 3, .int 3]) &&
      decide (turns ⟨1⟩ (ownSteps [.call .highlight ⟨1⟩] r.1) =
        [(.ofList [.int 2], .ofList [.int 1, .int 2, .int 3])])) = true := by
    decide +kernel
  obtain ⟨⟨steps, c⟩, pursued, passes⟩ := (Option.any_eq_true _ _).mp runs
  simp only [Bool.and_eq_true, decide_eq_true_eq] at passes
  obtain ⟨⟨six, handed⟩, turned⟩ := passes
  have run : RunsAbove [.call .highlight ⟨1⟩] start steps c := runsAbove_of_pursue .refl pursued
  have present : ((World.built watched).handler? ⟨1⟩).isSome = true := by decide +kernel
  have accepted : start.reply = none := by decide +kernel
  have reading : Reading ⟨1⟩ wavering (.move .highlight) [.call .highlight ⟨1⟩]
      (ownSteps [.call .highlight ⟨1⟩] steps) c :=
    ((reads_before_change present wavering []).1 .highlight steps c accepted run).1
  have loud : ¬ ∀ s ∈ ownSteps [.call .highlight ⟨1⟩] steps, Silent s := by
    intro silent
    rw [turns_of_silent silent] at turned
    cases turned
  cases reading with
  | unfinished silent _ _ => exact absurd silent loud
  | unmoved before a keys through dir is nothing silent ends =>
      refine absurd ?_ loud
      rw [through.split]
      exact List.forall_mem_append.mpr ⟨through.silent, List.forall_mem_singleton.mpr silent⟩
  | queried _ _ _ _ is => cases is
  | moved before a b after keys through dir is moves =>
      cases is
      have keys : keys = .ofList [.int 1, .int 3] := by
        rw [through.handed, through.pullsOf_eq six, handed]
        decide +kernel
      subst keys
      have mem : (a.world.keysOf ⟨1⟩, b.world.keysOf ⟨1⟩) ∈
          turns ⟨1⟩ (ownSteps [.call .highlight ⟨1⟩] steps) := by
        refine List.mem_filter.mpr ⟨List.mem_map.mpr ⟨(a, b), ?_, rfl⟩, ?_⟩
        · rw [through.split]
          exact List.mem_append_right _ List.mem_cons_self
        · rw [decide_eq_true_eq, moves.changes]
          intro same
          exact moves.something (Direction.apply_eq_self_iff.mp same.symm)
      rw [turned, List.mem_singleton, Prod.mk.injEq] at mem
      exact ⟨steps, c, before, a, b, after, run, through, moves, mem.1, mem.2⟩

end Examples

end Config

end HighlightSync
