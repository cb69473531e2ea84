import HighlightSync.Proofs.Edits
import HighlightSync.Proofs.Frames
import HighlightSync.Proofs.Links
import HighlightSync.Proofs.Order

/-!
# Fan-outs

A call that changes its handler tells all those who are registered on the handler at that
moment of the change, in the order of their registration and each once, whatever goes on in
between: listeners may come and go, and the same handler may be called again from within and
start fan-outs of its own over other lists.

What belongs to the call itself is told apart from what goes on above it by the height of the
stack (`Within`): the frame right above the one that leaves the call is first the body of the
call and then its fan-out. The body changes the handler in one step at most, in which it gives
way to the fan-out (`step_prepares`), and the fan-out works off the list it was given
(`step_fanOut`). Both together are an invariant of the call (`FansOut`), and give the callbacks of
every call that has been opened (`told_of_call`).
-/

namespace HighlightSync

namespace World

/-- All views are still there. -/
def Remembers (w v : World) : Prop :=
  ∀ name, (w.view? name).isSome = true → (v.view? name).isSome = true

end World

namespace Config

theorem step_remembers {c d : Config} (h : c.step = some d) : c.world.Remembers d.world :=
  (step_keeps h).views

/-- A session goes on by steps while a call stays open, and `below` are the frames from the one
that leaves the call. Kept are the steps of the call itself in which the keys of a handler
change, and the callbacks of such steps, as opposed to those that go on above it. -/
inductive Within (below : List Frame) (h : HandlerId) (c : Config) :
    List (Config × Config) → List (Listener × Event) → Config → Prop where
  | refl : below <:+ c.stack → Within below h c [] [] c
  | nested {changes told d e} : Within below h c changes told d → d.step = some e →
      below <:+ e.stack → d.stack.length ≠ below.length + 1 → Within below h c changes told e
  | own {changes told d e} : Within below h c changes told d → d.step = some e →
      below <:+ e.stack → d.stack.length = below.length + 1 →
      Within below h c
        (changes ++ if e.world.keysOf h = d.world.keysOf h then [] else [(d, e)])
        (told ++ d.world.heardSince e.world) e

section Steps

variable {c d : Config} {f : Frame} {below : List Frame} {kind : ChangeKind} {h : HandlerId}

/-- The body of a call has done a step: it ends without a change, or goes on, or announces its
change to those who are registered. -/
def Prepared (kind : ChangeKind) (h : HandlerId) (below : List Frame) (c d : Config) : Prop :=
  (d.world.observed = c.world.observed ∧ ((d.stack = below ∧ d.reply.isSome = true) ∨
    ∃ pushed f, d.stack = pushed ++ f :: below ∧ f.Prepares kind h)) ∨
  ∃ change : Change, change.kind = kind ∧ change.Proper (c.world.keysOf h) ∧
    d.reply = none ∧ d.stack = .fanOut ⟨h, change⟩ (c.world.listeners h) none :: below ∧
    d.world.keysOf = (c.world.change h change).keysOf ∧ d.world.heard = c.world.heard

theorem prepared_announce {w : World} {reply : Option Reply} {stack : List Frame}
    {change : Change} {n : Note} (announces : n.announced? = some ⟨h, change⟩)
    (proper : change.Proper (w.keysOf h)) :
    Prepared change.kind h below ⟨w, stack, reply⟩ (announce h change n w below) := by
  have observed := observed_announce announces w below
  exact .inr ⟨change, rfl, proper, rfl, rfl, congrArg Observed.keys observed,
    congrArg Observed.heard observed⟩

theorem step_prepares_reading {dir : Direction} {filter : Option Presence}
    {pulls : List (Pull Op)} {taken : List Key} (hs : c.step = some d)
    (top : c.stack = .reading h (.move dir) filter pulls taken :: below) :
    Prepared dir.kind h below c d := by
  obtain ⟨w, stack, reply⟩ := c
  cases top
  have goesOn : ∀ pulls taken,
      (Frame.reading h (.move dir) filter pulls taken).Prepares dir.kind h :=
    fun _ _ => ⟨rfl, rfl⟩
  cases reply with
  | some r =>
      cases hs
      left
      cases pulls with
      | nil => exact ⟨rfl, .inr ⟨[], _, rfl, goesOn _ _⟩⟩
      | cons pull pulls =>
          cases pull with
          | act op => exact ⟨w.observed_record rfl rfl, .inr ⟨[], _, rfl, goesOn _ _⟩⟩
          | key k => exact ⟨rfl, .inr ⟨[], _, rfl, goesOn _ _⟩⟩
  | none =>
      cases hs
      cases pulls with
      | nil =>
          simp only [advance, finishReading]
          split
          · exact .inl ⟨w.observed_note rfl, .inl ⟨rfl, rfl⟩⟩
          · rename_i moves
            exact prepared_announce rfl ⟨moves, fun k mem => (Direction.mem_effect.mp mem).2⟩
      | cons pull pulls =>
          left
          cases pull with
          | act op =>
              have begins := begins_perform op w
                (.reading h (.move dir) filter (.act op :: pulls) taken :: below)
              obtain ⟨pushed, grown, -⟩ := begins.raises
              exact ⟨begins.still.observed, .inr ⟨pushed, _, grown, goesOn _ _⟩⟩
          | key k => exact ⟨w.observed_record rfl rfl, .inr ⟨[], _, rfl, goesOn _ _⟩⟩

theorem step_prepares_clearing (hs : c.step = some d) (top : c.stack = .clearing h :: below) :
    Prepared .reset h below c d := by
  obtain ⟨w, stack, reply⟩ := c
  cases top
  cases reply with
  | some r =>
      cases hs
      exact .inl ⟨rfl, .inr ⟨[], .clearing h, rfl, rfl, rfl⟩⟩
  | none =>
      cases hs
      simp only [advance, clear]
      split
      · exact .inl ⟨w.observed_note rfl, .inl ⟨rfl, rfl⟩⟩
      · rename_i nonempty
        exact prepared_announce rfl nonempty

theorem step_prepares (hs : c.step = some d) (top : c.stack = f :: below)
    (prepares : f.Prepares kind h) : Prepared kind h below c d := by
  cases f with
  | reading g purpose filter pulls taken =>
      cases purpose with
      | query => cases prepares
      | move dir =>
          obtain ⟨rfl, rfl⟩ := prepares
          exact step_prepares_reading hs top
  | clearing g =>
      obtain ⟨rfl, rfl⟩ := prepares
      exact step_prepares_clearing hs top
  | _ => cases prepares

/-- A fan-out ends when nobody is left, or tells the next, or goes on to those who are left. -/
theorem step_fanOut {e : Event} {pending : List Listener} {first : Option Fault}
    (hs : c.step = some d) (top : c.stack = .fanOut e pending first :: below)
    (known : ∀ name, .view name ∈ pending → (c.world.view? name).isSome = true) :
    d.world.keysOf = c.world.keysOf ∧
    ((c.reply = none ∧ pending = [] ∧ d.world.heard = c.world.heard ∧ d.stack = below ∧
        d.reply.isSome = true) ∨
      (c.reply = none ∧ ∃ l rest pushed, pending = l :: rest ∧
        d.world.heard = c.world.heard ++ [(l, e)] ∧
        d.stack = pushed ++ .fanOut e pending first :: below ∧
        (pushed = [] → d.reply.isSome = true)) ∨
      (c.reply.isSome = true ∧ d.world.heard = c.world.heard ∧ d.reply = none ∧
        ∃ first', d.stack = .fanOut e pending.tail first' :: below)) := by
  obtain ⟨w, stack, reply⟩ := c
  cases top
  cases reply with
  | some r =>
      have observed : d.world.observed = w.observed := by
        cases hs
        simp only [resume, running]
        split
        · exact w.observed_note rfl
        · rfl
      cases hs
      exact ⟨congrArg Observed.keys observed,
        .inr (.inr ⟨rfl, congrArg Observed.heard observed, rfl, _, rfl⟩)⟩
  | none =>
      cases pending with
      | nil =>
          cases hs
          exact ⟨rfl, .inl ⟨rfl, rfl, rfl, rfl, rfl⟩⟩
      | cons l rest =>
          cases hs
          obtain ⟨depth, heeded, still⟩ | ⟨name, rfl, unknown, -⟩ :=
            tell_cases w (.fanOut e (l :: rest) first :: below) l e
          · obtain ⟨pushed, grown, -⟩ := raises_tell l e w (.fanOut e (l :: rest) first :: below)
            have heard := congrArg Observed.heard still.observed
            refine ⟨congrArg Observed.keys still.observed, .inr (.inl ⟨rfl, l, rest, pushed, rfl,
              heard.trans (World.heard_record _ _), grown, ?_⟩)⟩
            -- A fan-out that went on at once would have the same listener to tell again.
            rintro rfl
            have tells := still.tells
            change (tell l e w _).reply.isSome = true
            change (tell l e w _).stack = _ at grown
            revert tells grown
            generalize tell l e w _ = after
            obtain ⟨v, stack, reply⟩ := after
            rintro tells rfl
            cases reply with
            | some r => rfl
            | none =>
                change (running v (.fanOut e (l :: rest) first :: below)).tells = _ at tells
                rw [tells_running, owed_cons, List.append_left_inj] at tells
                exact absurd (congrArg List.length tells) (by simp [Frame.tells, Frame.waiting])
          · have there := known name List.mem_cons_self
            rw [unknown] at there
            cases there

end Steps

/-- What a call has done so far. Before its handler has changed, and if it has not changed at
all, the call has told nobody; and a change was made in one step, those who were registered at
that step are told of it, and the listeners of the fan-out that are left are those who were not
told yet. -/
inductive FansOut (kind : ChangeKind) (h : HandlerId) (below : List Frame)
    (changes : List (Config × Config)) (told : List (Listener × Event)) (c : Config) : Prop where
  | quiet (nothing : changes = [] ∧ told = [])
      (goesOn : (c.stack = below ∧ c.reply.isSome = true) ∨ ∃ front f,
        c.stack = front ++ f :: below ∧
          (f.Prepares kind h ∨ ∃ e first, f = .fanOut e [] first))
  | changed (d e : Config) (change : Change) (one : changes = [(d, e)]) (sound : d.world.Sound)
      (isKind : change.kind = kind)
      (keys : e.world.keysOf h = change.apply (d.world.keysOf h))
      (goesOn : (c.stack = below ∧ c.reply.isSome = true ∧
          told = (d.world.listeners h).map (·, ⟨h, change⟩)) ∨
        ∃ front pending first, c.stack = front ++ .fanOut ⟨h, change⟩ pending first :: below ∧
          (∀ name, .view name ∈ pending → (c.world.view? name).isSome = true) ∧
          told ++ (if front = [] ∧ c.reply = none then pending else pending.tail).map
            (·, ⟨h, change⟩) = (d.world.listeners h).map (·, ⟨h, change⟩))

namespace FansOut

variable {kind : ChangeKind} {h : HandlerId} {below : List Frame}
variable {changes : List (Config × Config)} {told : List (Listener × Event)} {c d : Config}

/-- What goes on above the call leaves it where it is. -/
theorem nested (fans : FansOut kind h below changes told c) (hs : c.step = some d)
    (above : c.stack ≠ below) (height : c.stack.length ≠ below.length + 1) :
    FansOut kind h below changes told d := by
  have higher : ∀ {front f}, c.stack = front ++ f :: below →
      front ≠ [] ∧ ∃ front', d.stack = front' ++ f :: below ∧
        (front' = [] → d.reply.isSome = true) := by
    intro front f split
    cases front with
    | nil => exact absurd (congrArg List.length split) height
    | cons g front => exact ⟨by simp, step_above hs split⟩
  cases fans with
  | quiet nothing goesOn =>
      obtain ⟨there, -⟩ | ⟨front, f, split, idle⟩ := goesOn
      · exact absurd there above
      · obtain ⟨-, front', split', -⟩ := higher split
        exact .quiet nothing (.inr ⟨front', f, split', idle⟩)
  | changed d' e change one sound isKind keys goesOn =>
      obtain ⟨there, -⟩ | ⟨front, pending, first, split, known, balance⟩ := goesOn
      · exact absurd there above
      · obtain ⟨busy, front', split', replied⟩ := higher split
        refine .changed d' e change one sound isKind keys (.inr ⟨front', pending, first, split',
          fun name mem => step_remembers hs name (known name mem), ?_⟩)
        rw [if_neg fun waits => busy waits.1] at balance
        rw [if_neg fun waits => ?_]
        · exact balance
        · have some := replied waits.1
          rw [waits.2] at some
          cases some

theorem heardSince_of_same {w v : World} (same : v.heard = w.heard) : w.heardSince v = [] := by
  rw [World.heardSince, same, List.drop_length]

theorem heardSince_of_append {w v : World} {more : List (Listener × Event)}
    (grown : v.heard = w.heard ++ more) : w.heardSince v = more := by
  rw [World.heardSince, grown, List.drop_left]

theorem kept_of_still (keys : d.world.keysOf = c.world.keysOf)
    (heard : d.world.heard = c.world.heard) :
    (changes ++ if d.world.keysOf h = c.world.keysOf h then [] else [(c, d)]) = changes ∧
      told ++ c.world.heardSince d.world = told := by
  rw [if_pos (congrFun keys h), heardSince_of_same heard, List.append_nil, List.append_nil]
  exact ⟨rfl, rfl⟩

theorem own_of_empty {e : Event} {first : Option Fault} (hs : c.step = some d)
    (top : c.stack = .fanOut e [] first :: below) :
    FansOut kind h below ([] ++ if d.world.keysOf h = c.world.keysOf h then [] else [(c, d)])
      ([] ++ c.world.heardSince d.world) d := by
  obtain ⟨keys, ends | ⟨-, l, rest, pushed, more, -⟩ | ⟨-, heard, -, first', goesOn⟩⟩ :=
    step_fanOut hs top (by simp)
  · obtain ⟨-, -, heard, after⟩ := ends
    obtain ⟨same, nobody⟩ := kept_of_still keys heard
    rw [same, nobody]
    exact .quiet ⟨rfl, rfl⟩ (.inl after)
  · cases more
  · obtain ⟨same, nobody⟩ := kept_of_still keys heard
    rw [same, nobody]
    exact .quiet ⟨rfl, rfl⟩ (.inr ⟨[], _, goesOn, .inr ⟨_, _, rfl⟩⟩)

/-- The body gives way to the fan-out over those who are registered. -/
theorem own_of_announced {change : Change} (sound : c.world.Sound) (hs : c.step = some d)
    (isKind : change.kind = kind) (proper : change.Proper (c.world.keysOf h))
    (waits : d.reply = none)
    (top : d.stack = .fanOut ⟨h, change⟩ (c.world.listeners h) none :: below)
    (keys : d.world.keysOf = (c.world.change h change).keysOf)
    (heard : d.world.heard = c.world.heard) :
    FansOut kind h below ([] ++ if d.world.keysOf h = c.world.keysOf h then [] else [(c, d)])
      ([] ++ c.world.heardSince d.world) d := by
  rw [heardSince_of_same heard]
  by_cases present : (c.world.handler? h).isSome = true
  · have changed : d.world.keysOf h = change.apply (c.world.keysOf h) := by
      rw [keys, World.keysOf_change present, if_pos rfl]
    have moved : d.world.keysOf h ≠ c.world.keysOf h := changed ▸ proper.apply_ne
    rw [if_neg moved]
    refine .changed c d change rfl sound isKind changed
      (.inr ⟨[], _, none, top, fun name mem => ?_, ?_⟩)
    · exact step_remembers hs name (sound.views h name mem)
    · rw [if_pos ⟨rfl, waits⟩]
      rfl
  · -- A handler that does not exist has no keys that could change, and no listeners.
    have absent : c.world.handler? h = none := by simpa using present
    have nobody : c.world.listeners h = [] := by
      rw [World.listeners, World.registryOf_of_handler?_eq_none absent]
      rfl
    have same : d.world.keysOf h = c.world.keysOf h := by
      rw [keys]
      simp [World.keysOf, World.change, World.handler?_modifyHandler, absent]
    rw [if_pos same]
    exact .quiet ⟨rfl, rfl⟩ (.inr ⟨[], _, top, .inr ⟨_, _, by rw [nobody]⟩⟩)

theorem own_of_prepares {f : Frame} (sound : c.world.Sound) (hs : c.step = some d)
    (top : c.stack = f :: below) (prepares : f.Prepares kind h) :
    FansOut kind h below ([] ++ if d.world.keysOf h = c.world.keysOf h then [] else [(c, d)])
      ([] ++ c.world.heardSince d.world) d := by
  obtain ⟨observed, after⟩ | ⟨change, isKind, proper, waits, top, keys, heard⟩ :=
    step_prepares hs top prepares
  · obtain ⟨same, nobody⟩ := kept_of_still (congrArg Observed.keys observed)
      (congrArg Observed.heard observed)
    rw [same, nobody]
    refine .quiet ⟨rfl, rfl⟩ (after.imp id ?_)
    rintro ⟨pushed, f', split, prepares⟩
    exact ⟨pushed, f', split, .inl prepares⟩
  · exact own_of_announced sound hs isKind proper waits top keys heard

/-- The fan-out tells the next of those who were registered at the change from `a` to `b`, or goes
on, or has told all of them. -/
theorem own_of_fanOut {a b : Config} {change : Change} {pending : List Listener}
    {first : Option Fault} (sound : a.world.Sound) (isKind : change.kind = kind)
    (changed : b.world.keysOf h = change.apply (a.world.keysOf h)) (hs : c.step = some d)
    (top : c.stack = .fanOut ⟨h, change⟩ pending first :: below)
    (known : ∀ name, .view name ∈ pending → (c.world.view? name).isSome = true)
    (balance : told ++ (if c.reply = none then pending else pending.tail).map (·, ⟨h, change⟩) =
      (a.world.listeners h).map (·, ⟨h, change⟩)) :
    FansOut kind h below
      ([(a, b)] ++ if d.world.keysOf h = c.world.keysOf h then [] else [(c, d)])
      (told ++ c.world.heardSince d.world) d := by
  have known' : ∀ name, .view name ∈ pending → (d.world.view? name).isSome = true :=
    fun name mem => step_remembers hs name (known name mem)
  obtain ⟨keys, ⟨waits, rfl, heard, below, replied⟩ |
    ⟨waits, l, rest, pushed, rfl, heard, top, replied⟩ | ⟨replied, heard, waits, first', top⟩⟩ :=
    step_fanOut hs top known
  · obtain ⟨same, nobody⟩ := kept_of_still keys heard
    rw [same, nobody]
    exact .changed a b change rfl sound isKind changed
      (.inl ⟨below, replied, by simpa using balance⟩)
  · rw [if_pos (congrFun keys h), List.append_nil, heardSince_of_append heard]
    refine .changed a b change rfl sound isKind changed
      (.inr ⟨pushed, _, first, top, known', ?_⟩)
    rw [if_pos waits] at balance
    rw [if_neg, ← balance, List.append_assoc]
    · rfl
    · rintro ⟨rfl, none⟩
      have some := replied rfl
      rw [none] at some
      cases some
  · obtain ⟨same, nobody⟩ := kept_of_still keys heard
    rw [same, nobody]
    refine .changed a b change rfl sound isKind changed
      (.inr ⟨[], _, first', top, fun name mem => known' name (List.mem_of_mem_tail mem), ?_⟩)
    rw [if_neg fun none => ?_] at balance
    · rw [if_pos ⟨rfl, waits⟩]
      exact balance
    · rw [none] at replied
      cases replied

/-- What the call itself does keeps to the list of those who are registered when it changes its
handler. -/
theorem own (fans : FansOut kind h below changes told c) (sound : c.world.Sound)
    (hs : c.step = some d) (height : c.stack.length = below.length + 1) :
    FansOut kind h below
      (changes ++ if d.world.keysOf h = c.world.keysOf h then [] else [(c, d)])
      (told ++ c.world.heardSince d.world) d := by
  have not_below : c.stack ≠ below := fun there => by
    rw [there] at height
    omega
  have lowest : ∀ {front f}, c.stack = front ++ f :: below → front = [] := fun split => by
    have length := congrArg List.length split
    rw [height, List.length_append, List.length_cons] at length
    exact List.eq_nil_of_length_eq_zero (by omega)
  cases fans with
  | quiet nothing goesOn =>
      obtain ⟨rfl, rfl⟩ := nothing
      obtain ⟨there, -⟩ | ⟨front, f, split, idle⟩ := goesOn
      · exact absurd there not_below
      obtain rfl := lowest split
      obtain prepares | ⟨e, first, rfl⟩ := idle
      · exact own_of_prepares sound hs split prepares
      · exact own_of_empty hs split
  | changed a b change one before isKind changed goesOn =>
      subst one
      obtain ⟨there, -⟩ | ⟨front, pending, first, split, known, balance⟩ := goesOn
      · exact absurd there not_below
      obtain rfl := lowest split
      exact own_of_fanOut before isKind changed hs split known (by simpa using balance)

end FansOut

section Calls

variable {kind : ChangeKind} {h : HandlerId} {stack : List Frame} {c₀ c : Config}
variable {changes : List (Config × Config)} {told : List (Listener × Event)}

theorem FansOut.replied {below : List Frame} (fans : FansOut kind h below changes told c)
    (there : c.stack = below) : c.reply.isSome = true := by
  have not_above : ∀ {front f}, c.stack = front ++ f :: below → False := fun split => by
    have length := congrArg List.length (split.symm.trans there)
    rw [List.length_append, List.length_cons] at length
    omega
  cases fans with
  | quiet _ goesOn =>
      obtain ⟨-, replied⟩ | ⟨_, _, split, -⟩ := goesOn
      · exact replied
      · exact (not_above split).elim
  | changed _ _ _ _ _ _ _ goesOn =>
      obtain ⟨-, replied, -⟩ | ⟨_, _, _, split, -⟩ := goesOn
      · exact replied
      · exact (not_above split).elim

theorem not_suffix_of_replied {d : Config} (hs : c.step = some d)
    (there : c.stack = .call kind h :: stack) (replied : c.reply.isSome = true) :
    ¬ (.call kind h :: stack) <:+ d.stack := by
  obtain ⟨w, _, reply⟩ := c
  cases there
  cases reply with
  | none => cases replied
  | some r =>
      cases hs
      intro within
      have length := within.length_le
      change stack.length + 1 ≤ stack.length at length
      omega

theorem Within.fansOut (run : Within (.call kind h :: stack) h c₀ changes told c)
    (start : FansOut kind h (.call kind h :: stack) [] [] c₀) (sound : c₀.world.Sound) :
    FansOut kind h (.call kind h :: stack) changes told c ∧ c.world.Sound := by
  induction run with
  | refl _ => exact ⟨start, sound⟩
  | nested _ hs within height ih =>
      refine ⟨ih.1.nested hs (fun there => ?_) height, ((Next.step hs).rewires ih.2).1⟩
      exact not_suffix_of_replied hs there (ih.1.replied there) within
  | own _ hs _ height ih =>
      exact ⟨ih.1.own ih.2 hs height, ((Next.step hs).rewires ih.2).1⟩

theorem Within.isOpen {below : List Frame} (run : Within below h c₀ changes told c) :
    below <:+ c₀.stack ∧ below <:+ c.stack := by
  induction run with
  | refl within => exact ⟨within, within⟩
  | nested _ _ within _ ih => exact ⟨ih.1, within⟩
  | own _ _ within _ ih => exact ⟨ih.1, within⟩

/-- The callbacks of a call. To open a call changes no keys and tells nobody. As long as it is
open, its own steps either have changed nothing and told nobody, or one of them has made a change
of the handler, and those told are the first of the listeners that were registered at that
moment, in the order of their registration and each once, all with this change; and when the call
is left, all of them were told. This holds at any nesting, whatever goes on above the call. -/
theorem told_of_call {body : Frame} {w : World} (prepares : body.Prepares kind h)
    (sound : w.Sound) :
    (openCall kind h body w stack).world.keysOf = w.keysOf ∧
    (openCall kind h body w stack).world.heard = w.heard ∧
    ∀ changes told c,
      Within (.call kind h :: stack) h (openCall kind h body w stack) changes told c →
      (changes = [] ∧ told = []) ∨
      ∃ d e change, changes = [(d, e)] ∧ change.kind = kind ∧
        e.world.keysOf h = change.apply (d.world.keysOf h) ∧
        told <+: (d.world.listeners h).map (·, ⟨h, change⟩) ∧
        (c.stack = .call kind h :: stack →
          told = (d.world.listeners h).map (·, ⟨h, change⟩)) ∧
        (d.world.listeners h).Nodup ∧
        (∀ l, l ∈ d.world.listeners h ↔ ∃ id, d.world.Registered h id l) ∧
        ∀ b b' l m, b.world.Sound → l ∈ b.world.listeners h → m ∉ b.world.listeners h → Next b b' →
          Path (fun a => l ∈ a.world.listeners h ∧ m ∈ a.world.listeners h) b' d →
          [l, m].Sublist (d.world.listeners h) := by
  have silent : body.tells = [] := by
    cases body with
    | fanOut e pending first => cases prepares
    | _ => rfl
  have still := still_openCall w stack kind h silent
  refine ⟨congrArg Observed.keys still.observed, congrArg Observed.heard still.observed,
    fun changes told c run => ?_⟩
  have start : FansOut kind h (.call kind h :: stack) [] [] (openCall kind h body w stack) := by
    have within := run.isOpen.1
    simp only [openCall] at within ⊢
    split at within
    · exact absurd within.length_le (by simp [answered])
    · exact .quiet ⟨rfl, rfl⟩ (.inr ⟨[], body, rfl, .inl prepares⟩)
  have opened : (openCall kind h body w stack).world.Sound :=
    ((World.Extends.of_layout (layout_openCall w stack kind h body)).rewires sound).1
  cases (run.fansOut start opened).1 with
  | quiet nothing _ => exact .inl nothing
  | changed d e change one sound isKind keys goesOn =>
      refine .inr ⟨d, e, change, one, isKind, keys, ?_, fun there => ?_,
        (sound.registries h).nodup,
        fun l => (World.exists_registered_iff sound).symm,
        fun _ _ _ _ before old new comes stay => sublist_listeners before old new comes stay⟩
      · obtain ⟨-, -, all⟩ | ⟨_, _, _, -, -, balance⟩ := goesOn
        · exact all ▸ List.prefix_refl _
        · exact ⟨_, balance⟩
      · obtain ⟨-, -, all⟩ | ⟨_, _, _, split, -⟩ := goesOn
        · exact all
        · have length := congrArg List.length (split.symm.trans there)
          rw [List.length_append, List.length_cons] at length
          omega

end Calls

section Examples

/-- Follow a call for a number of steps, as long as there are frames above the one that leaves
it, whose height is given. -/
def track (height : Nat) (h : HandlerId) : Nat → List (Config × Config) →
    List (Listener × Event) → Config →
      Option (List (Config × Config) × List (Listener × Event) × Config)
  | 0, changes, told, c => some (changes, told, c)
  | n + 1, changes, told, c =>
      if height < c.stack.length then
        c.step.bind fun d =>
          if c.stack.length = height + 1 then
            track height h n
              (changes ++ if d.world.keysOf h = c.world.keysOf h then [] else [(c, d)])
              (told ++ c.world.heardSince d.world) d
          else track height h n changes told d
      else none

theorem within_of_track {below : List Frame} {h : HandlerId} {n : Nat} {c₀ c d : Config}
    {changes changes' : List (Config × Config)} {told told' : List (Listener × Event)}
    (before : Within below h c₀ changes told c) (isOpen : below <:+ c.stack)
    (tracked : track below.length h n changes told c = some (changes', told', d)) :
    Within below h c₀ changes' told' d := by
  induction n generalizing changes told c with
  | zero =>
      cases tracked
      exact before
  | succ n ih =>
      rw [track] at tracked
      split at tracked
      · rename_i higher
        obtain ⟨e, hs, tracked⟩ := Option.bind_eq_some_iff.mp tracked
        obtain ⟨above, split⟩ := isOpen
        have goesOn : below <:+ e.stack := by
          cases above with
          | nil => exact absurd (congrArg List.length split) (by simp at higher ⊢; omega)
          | cons f above =>
              obtain ⟨above', after, -⟩ := step_above hs split.symm
              exact ⟨above', after.symm⟩
        split at tracked
        · rename_i height
          exact ih (.own before hs goesOn height) goesOn tracked
        · rename_i height
          exact ih (.nested before hs goesOn height) goesOn tracked
      · cases tracked

/-- A view that, when told, takes away the one behind it, registers another, and highlights a
further key on the same handler. -/
def meddling : List (Action Op) :=
  [.createHandler "h" .plain,
    .createListener "v" { onlooker with
      script := fun κ => if κ = .highlight then
        some [.act (.removeListener "h" "u"), .act (.addListener "h" "x"),
          .move .highlight "h" ⟨none, [.key (.int 2)]⟩] else none
      times := 1 },
    .createListener "u" onlooker, .createListener "x" onlooker,
    .addListener "h" "v", .addListener "h" "u"]

/-- The view that is taken away is told all the same, and the one that comes is not. -/
theorem told_of_call_meddling :
    ∃ changes c change,
      Within [.call .highlight ⟨1⟩] ⟨1⟩
        (openMove .highlight ⟨1⟩ ⟨none, [.key (.int 1)]⟩ (.built meddling) []) changes
        [(.view "v", ⟨⟨1⟩, change⟩), (.view "u", ⟨⟨1⟩, change⟩)] c ∧
      c.world.listeners ⟨1⟩ = [.view "v", .view "x"] ∧
      ∃ d e, changes = [(d, e)] ∧ d.world.listeners ⟨1⟩ = [.view "v", .view "u"] := by
  let w := World.built meddling
  let feed : Feed Op := ⟨none, [.key (.int 1)]⟩
  obtain ⟨reply, built⟩ := reached_built meddling
  let change : Change := .move .highlight (.ofList [.int 1])
  let both : List (Listener × Event) := [(.view "v", ⟨⟨1⟩, change⟩), (.view "u", ⟨⟨1⟩, change⟩)]
  have runs : (track 1 ⟨1⟩ 23 [] [] (openMove .highlight ⟨1⟩ feed w [])).any (fun t =>
      decide (t.2.1 = both) && decide (t.2.2.stack.length = 1) &&
        decide (t.2.2.world.listeners ⟨1⟩ = [.view "v", .view "x"])) = true := by
    decide +kernel
  obtain ⟨⟨changes, told, c⟩, tracked, passes⟩ := (Option.any_eq_true _ _).mp runs
  simp only [Bool.and_eq_true, decide_eq_true_eq] at passes
  obtain ⟨⟨rfl, left⟩, later⟩ := passes
  have opened : [.call .highlight ⟨1⟩] <:+ (openMove .highlight ⟨1⟩ feed w []).stack :=
    ⟨[.reading ⟨1⟩ (.move .highlight) feed.filter feed.pulls []], rfl⟩
  have run := within_of_track (.refl opened) opened tracked
  refine ⟨changes, c, change, run, later, ?_⟩
  have prepares : (Frame.reading ⟨1⟩ (.move .highlight) feed.filter feed.pulls []).Prepares
      .highlight ⟨1⟩ := ⟨rfl, rfl⟩
  obtain ⟨-, -, exact⟩ := told_of_call prepares built.sound
  obtain ⟨-, nobody⟩ | ⟨d, e, change', one, -, -, -, all, -⟩ := exact _ _ _ run
  · exact absurd nobody (List.cons_ne_nil _ _)
  · refine ⟨d, e, one, ?_⟩
    have there : c.stack = [.call .highlight ⟨1⟩] := (run.isOpen.2.eq_of_length left.symm).symm
    have same := congrArg (List.map Prod.fst) (all there)
    simpa [both, Function.comp_def] using same.symm

end Examples

end Config

end HighlightSync
