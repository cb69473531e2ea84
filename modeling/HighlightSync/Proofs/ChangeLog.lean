import HighlightSync.Proofs.History

/-!
# The change log of a first listener

A listener that is registered while its handler has neither keys nor listeners is told of
every change of the handler first and at once, whatever other listeners, mappers and lazy
input do in between. So the changes that it has received are a log of the handler: each was
proper when it was made, and replayed from the empty set they give the handler's keys
(`replay_received_of_first`).

The log is behind the handler in one configuration per change only, the one in which the
change has been made and its first callback is about to begin (`Mirrors`).

One thing has to be asked for. An announcement is made to those registered at that moment,
so a listener that was registered before, taken away and registered again while older
announcements of the handler are still under way may get one of these afterwards
(`stale_event_after_rejoining`).
-/

namespace HighlightSync

namespace World

/-- The listener is registered on the handler before all others. -/
def Leads (l : Listener) (h : HandlerId) (w : World) : Prop :=
  ∃ rest, w.listeners h = l :: rest ∧ l ∉ rest

theorem Leads.mem {l : Listener} {h : HandlerId} {w : World} (lead : w.Leads l h) :
    l ∈ w.listeners h := by
  obtain ⟨rest, first, -⟩ := lead
  rw [first]
  exact List.mem_cons_self

theorem Leads.turnover {l : Listener} {h : HandlerId} {w v : World} (lead : w.Leads l h)
    (turn : Turnover (w.listeners h) (v.listeners h)) (kept : l ∈ v.listeners h) :
    v.Leads l h := by
  obtain ⟨rest, first, once⟩ := lead
  rw [first] at turn
  obtain fewer | ⟨m, new, more⟩ := turn
  · obtain behind | ⟨rest', first', fewer⟩ := List.sublist_cons_iff.mp fewer
    · exact absurd (behind.subset kept) once
    · exact ⟨rest', first', fun again => once (fewer.subset again)⟩
  · refine ⟨rest ++ [m], more, ?_⟩
    rw [List.mem_append, List.mem_singleton]
    rintro (again | same)
    · exact once again
    · exact new (same ▸ List.mem_cons_self)

end World

namespace Config

/-- Registering a listener on a handler that has neither keys nor listeners, while no
announcement of the handler to this listener is under way. -/
structure RegistersFirst (l : Listener) (h : HandlerId) (c d : Config) : Prop where
  next : Next c d
  noKeys : c.world.keysOf h = ∅
  noListeners : c.world.listeners h = []
  nothingOwed : ∀ change, (l, ⟨h, change⟩) ∉ c.tells
  registered : l ∈ d.world.listeners h

/-- The log of a listener gives the keys of the handler and nothing is owed to the listener,
or the last change is missing and the listener is about to be told of it. -/
inductive Mirrors (l : Listener) (h : HandlerId) (start : World) (c : Config) : Prop where
  | caughtUp (owed : changesTold l h c.tells = [])
      (same : Change.replay (start.received l h c.world) = c.world.keysOf h)
  | behind (change : Change) (pending : List Listener) (first : Option Fault)
      (stack : List Frame) (opened : c = running c.world (.fanOut ⟨h, change⟩ (l :: pending)
        first :: stack))
      (owed : changesTold l h c.tells = [change])
      (proper : change.Proper (Change.replay (start.received l h c.world)))
      (last : change.apply (Change.replay (start.received l h c.world)) = c.world.keysOf h)

/-- What is true of a first listener at every moment since it was registered. -/
structure Logged (l : Listener) (h : HandlerId) (start : World) (c : Config) : Prop where
  sound : c.world.Sound
  since : start.heard <+: c.world.heard
  leads : c.world.Leads l h
  exact : Change.Exact (start.received l h c.world)
  mirrors : Mirrors l h start c

section

variable {l : Listener} {h : HandlerId} {start : World} {c d : Config}

theorem tells_of_fanOut {e : Event} {pending : List Listener} {first : Option Fault}
    {w : World} {stack : List Frame}
    (next : Next (running w (.fanOut e (l :: pending) first :: stack)) d) :
    (running w (.fanOut e (l :: pending) first :: stack)).tells = (l, e) :: d.tells := by
  cases next with
  | perform op rest => cases atRest_iff.mp rest
  | step hs =>
      cases hs
      rw [tells_running, Frame.tells, List.map_cons, List.cons_append]
      obtain ⟨_, _, still⟩ | ⟨_, _, _, still⟩ :=
        tell_cases w (.fanOut e (l :: pending) first :: stack) l e
      · exact congrArg _ still.tells.symm
      · exact congrArg _ still.tells.symm

/-- A change of the handler makes the listener the next to be told. -/
theorem Logged.behind_of_announced (log : Logged l h start c) {change : Change}
    (proper : change.Proper (c.world.keysOf h)) (opened : d.reply = none ∧
      ∃ stack, d.stack = .fanOut ⟨h, change⟩ (c.world.listeners h) none :: stack)
    (tells : d.tells = (c.world.listeners h).map (·, ⟨h, change⟩) ++ c.tells)
    (keys : d.world.keysOf h = change.apply (c.world.keysOf h))
    (owed : changesTold l h c.tells = [])
    (nothing : start.received l h d.world = start.received l h c.world)
    (same : Change.replay (start.received l h c.world) = c.world.keysOf h) :
    Mirrors l h start d := by
  -- The listener is the first in the list, so the fan-out begins with it.
  obtain ⟨⟨waits, stack, fanOut⟩, rest, first, once⟩ := And.intro opened log.leads
  refine .behind change rest none stack ?_ ?_ ?_ ?_
  · rw [first] at fanOut
    obtain ⟨v, stack', reply⟩ := d
    cases waits
    cases fanOut
    rfl
  · rw [tells, changesTold_append, owed, List.append_nil]
    exact changesTold_map ((log.sound.registries h).nodup) log.leads.mem
  · rw [nothing, same]
    exact proper
  · rw [nothing, same, keys]

/-- While the log is up to date nothing is received, and a change of the handler makes the
listener the next to be told. -/
theorem Logged.next_of_caughtUp (log : Logged l h start c) (next : Next c d)
    (kept : l ∈ d.world.listeners h) (owed : changesTold l h c.tells = [])
    (same : Change.replay (start.received l h c.world) = c.world.keysOf h) :
    Logged l h start d ∧ start.received l h d.world = start.received l h c.world := by
  obtain ⟨sound, turn⟩ := next.rewires log.sound
  suffices received : start.received l h d.world = start.received l h c.world ∧
      start.heard <+: d.world.heard ∧ Mirrors l h start d by
    obtain ⟨nothing, since, mirrors⟩ := received
    exact ⟨⟨sound, since, log.leads.turnover (turn h) kept, nothing ▸ log.exact, mirrors⟩, nothing⟩
  cases next.delivers with
  | silent tells observed =>
      have heard : d.world.heard = c.world.heard := congrArg Observed.heard observed
      have keys : d.world.keysOf = c.world.keysOf := congrArg Observed.keys observed
      have nothing : start.received l h d.world = start.received l h c.world :=
        World.received_congr heard
      exact ⟨nothing, heard ▸ log.since, .caughtUp (tells ▸ owed) (nothing ▸ keys ▸ same)⟩
  | skipped name e unknown tells observed =>
      have heard : d.world.heard = c.world.heard := congrArg Observed.heard observed
      have keys : d.world.keysOf = c.world.keysOf := congrArg Observed.keys observed
      have nothing : start.received l h d.world = start.received l h c.world :=
        World.received_congr heard
      refine ⟨nothing, heard ▸ log.since, .caughtUp ?_ (nothing ▸ keys ▸ same)⟩
      rw [changesTold_eq_nil_iff] at owed ⊢
      exact fun change mem => owed change (tells ▸ List.mem_cons_of_mem _ mem)
  | told m e tells observed =>
      have heard : d.world.heard = c.world.heard ++ [(m, e)] := congrArg Observed.heard observed
      have keys : d.world.keysOf = c.world.keysOf := congrArg Observed.keys observed
      have other : ¬ (m = l ∧ e.source = h) := by
        rintro ⟨rfl, rfl⟩
        exact changesTold_eq_nil_iff.mp owed e.change (tells ▸ List.mem_cons_self)
      have nothing : start.received l h d.world = start.received l h c.world := by
        rw [received_append log.since heard, changesTold_cons_of_ne other, changesTold_nil,
          List.append_nil]
      refine ⟨nothing, heard ▸ log.since.trans (List.prefix_append _ _),
        .caughtUp ?_ (nothing ▸ keys ▸ same)⟩
      rw [tells, changesTold_cons_of_ne other] at owed
      exact owed
  | announced g change proper opened tells observed =>
      have heard : d.world.heard = c.world.heard := congrArg Observed.heard observed
      have keys : d.world.keysOf = (c.world.change g change).keysOf :=
        congrArg Observed.keys observed
      have nothing : start.received l h d.world = start.received l h c.world :=
        World.received_congr heard
      refine ⟨nothing, heard ▸ log.since, ?_⟩
      by_cases here : g = h
      · subst here
        have present := World.handler?_isSome_of_mem_listeners log.leads.mem
        have changed : d.world.keysOf g = change.apply (c.world.keysOf g) := by
          rw [keys, World.keysOf_change present, if_pos rfl]
        exact log.behind_of_announced proper opened tells changed owed nothing same
      · refine .caughtUp ?_ ?_
        · rw [tells, changesTold_append, owed, List.append_nil]
          exact changesTold_map_of_ne _ here
        · rw [nothing, same, keys]
          exact (World.keysOf_change_of_ne change fun e => here e.symm).symm

/-- While the log is behind, the listener is told of the change that is missing. -/
theorem Logged.next_of_behind (log : Logged l h start c) (next : Next c d)
    (kept : l ∈ d.world.listeners h) {change : Change} {pending : List Listener}
    {first : Option Fault} {stack : List Frame}
    (opened : c = running c.world (.fanOut ⟨h, change⟩ (l :: pending) first :: stack))
    (owed : changesTold l h c.tells = [change])
    (proper : change.Proper (Change.replay (start.received l h c.world)))
    (last : change.apply (Change.replay (start.received l h c.world)) = c.world.keysOf h) :
    Logged l h start d ∧ Change.replay (start.received l h d.world) = d.world.keysOf h := by
  obtain ⟨sound, turn⟩ := next.rewires log.sound
  have first : c.tells = (l, ⟨h, change⟩) :: d.tells := by
    rw [opened] at next ⊢
    exact tells_of_fanOut next
  rw [first, changesTold_cons_self, List.cons_eq_cons] at owed
  cases next.delivers with
  | silent tells _ => exact absurd (tells ▸ first) (List.cons_ne_self _ _).symm
  | announced _ _ _ _ tells _ =>
      have size := congrArg List.length (first ▸ tells)
      simp only [List.length_append, List.length_cons] at size
      omega
  | skipped name e unknown tells _ =>
      rw [first] at tells
      cases tells
      have known := log.sound.views h name log.leads.mem
      rw [unknown] at known
      cases known
  | told m e tells observed =>
      rw [first] at tells
      cases tells
      have heard : d.world.heard = c.world.heard ++ [(l, ⟨h, change⟩)] :=
        congrArg Observed.heard observed
      have keys : d.world.keysOf = c.world.keysOf := congrArg Observed.keys observed
      have received : start.received l h d.world = start.received l h c.world ++ [change] := by
        rw [received_append log.since heard, changesTold_cons_self, changesTold_nil]
      have same : Change.replay (start.received l h d.world) = d.world.keysOf h := by
        rw [received, Change.replay_concat, last, keys]
      refine ⟨⟨sound, heard ▸ log.since.trans (List.prefix_append _ _),
        log.leads.turnover (turn h) kept, ?_, .caughtUp owed.2 same⟩, same⟩
      rw [received]
      exact log.exact.concat proper

theorem Logged.next (log : Logged l h start c) (next : Next c d)
    (kept : l ∈ d.world.listeners h) : Logged l h start d := by
  cases log.mirrors with
  | caughtUp owed same => exact (log.next_of_caughtUp next kept owed same).1
  | behind _ _ _ _ opened owed proper last =>
      exact (log.next_of_behind next kept opened owed proper last).1

/-- The log begins when the listener is registered. -/
theorem RegistersFirst.logged (first : RegistersFirst l h c d) (sound : c.world.Sound) :
    Logged l h d.world d := by
  obtain ⟨soundAfter, turn⟩ := first.next.rewires sound
  have alone : d.world.listeners h = [l] := by
    have turned := turn h
    rw [first.noListeners] at turned
    obtain fewer | ⟨m, -, more⟩ := turned
    · exact absurd first.registered (List.sublist_nil.mp fewer ▸ List.not_mem_nil)
    · rw [List.nil_append] at more
      have same := first.registered
      rw [more, List.mem_singleton] at same
      rw [more, same]
  have lead : d.world.Leads l h := ⟨[], alone, List.not_mem_nil⟩
  obtain ext | ⟨-, tells, observed⟩ := first.next.extends_or_performs
  · rw [ext.listeners, first.noListeners] at alone
    cases alone
  · have keys : d.world.keysOf = c.world.keysOf := congrArg Observed.keys observed
    refine ⟨soundAfter, List.prefix_refl _, lead, ?_, .caughtUp ?_ ?_⟩
    · rw [World.received_self]
      exact Change.exact_nil
    · rw [tells, changesTold_eq_nil_iff]
      exact first.nothingOwed
    · rw [World.received_self, keys, first.noKeys]
      rfl

/-- The change log of a first listener. Each change that it has received was proper for the
set replayed before; whenever an operation has been answered, at any nesting, the changes
received give the keys of the handler; and so they do when one of its callbacks begins, the
change of that callback included. -/
theorem replay_received_of_first {c₀ c₁ : Config} (sound : c₀.world.Sound)
    (first : RegistersFirst l h c₀ c₁) (kept : Path (fun c => l ∈ c.world.listeners h) c₁ c) :
    Change.Exact (c₁.world.received l h c.world) ∧
      (c.reply.isSome = true →
        Change.replay (c₁.world.received l h c.world) = c.world.keysOf h) ∧
      ∀ d change, Next c d →
        d.world.heard = c.world.heard ++ [(l, ⟨h, change⟩)] →
        Change.replay (c₁.world.received l h d.world) = d.world.keysOf h := by
  have log : Logged l h c₁.world c :=
    kept.keeps (first.logged sound) fun _ _ _ kept next log => log.next next kept
  refine ⟨log.exact, ?_, ?_⟩
  · intro replied
    cases log.mirrors with
    | caughtUp _ same => exact same
    | behind _ _ _ _ opened _ _ _ =>
        rw [opened] at replied
        cases replied
  · intro d change next heard
    have still : l ∈ d.world.listeners h := by
      obtain ext | ⟨-, -, observed⟩ := next.extends_or_performs
      · exact ext.listeners ▸ kept.holds
      · have silent : d.world.heard = c.world.heard := congrArg Observed.heard observed
        simp [silent] at heard
    cases log.mirrors with
    | behind _ _ _ _ opened owed proper last =>
        exact (log.next_of_behind next still opened owed proper last).2
    | caughtUp owed same =>
        have nothing := (log.next_of_caughtUp next still owed same).2
        rw [received_append log.since heard, changesTold_cons_self] at nothing
        simp at nothing

end

section Examples

/-- A handler and two views that are not registered yet. The second of them, when it is first told
of keys, takes one back and highlights another. -/
def revising : List (Action Op) :=
  [.createHandler "h" .plain, .createListener "v" onlooker,
    .createListener "u" { onlooker with
      script := fun κ => if κ = .highlight then
        some [.move .unhighlight "h" ⟨none, [.key (.int 3)]⟩,
          .move .highlight "h" ⟨none, [.key (.int 2)]⟩] else none
      times := 1 }]

/-- The first view is registered, and then the second. Keys are highlighted that highlight another
one while they are read, so that the first view has been told of three changes before any of the
calls from outside has ended. -/
theorem replay_received_of_first_revising :
    ∃ c₀ c₁ c, RegistersFirst (.view "v") ⟨1⟩ c₀ c₁ ∧
      Path (fun c => .view "v" ∈ c.world.listeners ⟨1⟩) c₁ c ∧ c.stack.length = 6 ∧
      c₁.world.received (.view "v") ⟨1⟩ c.world =
        [.move .highlight (.singleton (.int 3)), .move .unhighlight (.singleton (.int 3)),
          .move .highlight (.singleton (.int 2))] ∧
      Change.Exact (c₁.world.received (.view "v") ⟨1⟩ c.world) ∧
      c.world.keysOf ⟨1⟩ = Change.replay (c₁.world.received (.view "v") ⟨1⟩ c.world) := by
  obtain ⟨reply, reached⟩ := reached_built revising
  let c₁ := perform (.act (.addListener "h" "v")) (.built revising) []
  let c₂ := perform (.act (.addListener "h" "u")) c₁.world []
  let registered (c : Config) : Bool := decide (.view "v" ∈ c.world.listeners ⟨1⟩)
  have rest : (Config.mk (.built revising) [] reply).AtRest := atRest_iff.mpr rfl
  have first : RegistersFirst (.view "v") ⟨1⟩ ⟨.built revising, [], reply⟩ c₁ :=
    { next := .perform _ rest
      noKeys := show (World.built revising).keysOf ⟨1⟩ = ∅ by decide +kernel
      noListeners := show (World.built revising).listeners ⟨1⟩ = [] by decide +kernel
      nothingOwed := fun change => tells_of_atRest rest ▸ List.not_mem_nil
      registered := by decide +kernel }
  have runs : (follow registered 25 (perform (.move .highlight "h"
      ⟨none, [.act (.move .highlight "h" ⟨none, [.key (.int 3)]⟩), .key (.int 1)]⟩) c₂.world
        [])).any (fun c => decide (c.stack.length = 6) && c.reply.isSome &&
          decide (c₁.world.received (.view "v") ⟨1⟩ c.world =
            [.move .highlight (.singleton (.int 3)), .move .unhighlight (.singleton (.int 3)),
              .move .highlight (.singleton (.int 2))])) = true := by
    decide +kernel
  obtain ⟨c, followed, passes⟩ := (Option.any_eq_true _ _).mp runs
  simp only [Bool.and_eq_true, decide_eq_true_eq] at passes
  obtain ⟨⟨high, replied⟩, told⟩ := passes
  have kept : Path (fun c => .view "v" ∈ c.world.listeners ⟨1⟩) c₁ c :=
    .head (.perform _ (atRest_iff.mpr rfl)) first.registered
      (.head (.perform _ (atRest_iff.mpr rfl))
        (show .view "v" ∈ c₂.world.listeners ⟨1⟩ by decide +kernel)
        ((path_of_follow (I := fun _ => True) followed trivial fun _ _ _ => id).mono
          fun _ h => of_decide_eq_true h.1))
  obtain ⟨exact, replays, -⟩ := replay_received_of_first reached.sound first kept
  exact ⟨_, c₁, c, first, kept, high, told, exact, (replays replied).symm⟩

/-- A handler with two views, the first of which, told of keys, takes both away, takes the
key back and registers the second view again. -/
def rejoining : List (Action Op) :=
  [.createHandler "h" .plain,
    .createListener "restless" ⟨false, fun
      | .highlight => some [.act (.removeAllListeners "h"),
          .move .unhighlight "h" ⟨none, [.key (.int 1)]⟩, .act (.addListener "h" "v")]
      | _ => none, 1, false, fun _ => none⟩,
    .createListener "v" onlooker, .addListener "h" "restless", .addListener "h" "v"]

/-- Without asking that nothing is owed, the log can be wrong: the second view is registered
again on a handler without keys and listeners, and is then told of the key that the handler
no longer has. -/
theorem stale_event_after_rejoining :
    ∃ c₀ c₁ c d, Reached c₀ ∧ Next c₀ c₁ ∧ c₀.world.keysOf ⟨1⟩ = ∅ ∧
      c₀.world.listeners ⟨1⟩ = [] ∧ .view "v" ∈ c₁.world.listeners ⟨1⟩ ∧
      Path (fun c => .view "v" ∈ c.world.listeners ⟨1⟩) c₁ c ∧ Next c d ∧
      d.world.heard = c.world.heard ++
        [(.view "v", ⟨⟨1⟩, .move .highlight (.singleton (.int 1))⟩)] ∧
      Change.replay (c₁.world.received (.view "v") ⟨1⟩ d.world) ≠ d.world.keysOf ⟨1⟩ := by
  obtain ⟨reply, reached⟩ := reached_built rejoining
  let registered (c : Config) : Bool := decide (.view "v" ∈ c.world.listeners ⟨1⟩)
  have runs : (follow (fun _ => true) 11
      (perform (.move .highlight "h" ⟨none, [.key (.int 1)]⟩) (.built rejoining) [])).any
        (fun c₀ => c₀.step.any fun c₁ => (follow registered 4 c₁).any fun c => c.step.any fun d =>
          decide (c₀.world.keysOf ⟨1⟩ = ∅ ∧ c₀.world.listeners ⟨1⟩ = [] ∧
            .view "v" ∈ c₁.world.listeners ⟨1⟩ ∧
            d.world.heard = c.world.heard ++
              [(.view "v", ⟨⟨1⟩, .move .highlight (.singleton (.int 1))⟩)] ∧
            Change.replay (c₁.world.received (.view "v") ⟨1⟩ d.world) ≠ d.world.keysOf ⟨1⟩)) =
      true := by
    decide +kernel
  obtain ⟨c₀, before, runs⟩ := (Option.any_eq_true _ _).mp runs
  obtain ⟨c₁, registers, runs⟩ := (Option.any_eq_true _ _).mp runs
  obtain ⟨c, after, runs⟩ := (Option.any_eq_true _ _).mp runs
  obtain ⟨d, tells, runs⟩ := (Option.any_eq_true _ _).mp runs
  obtain ⟨noKeys, noListeners, joined, heard, stale⟩ := of_decide_eq_true runs
  have reaches : Path (fun _ => True) _ c₀ :=
    (path_of_follow (I := fun _ => True) before trivial fun _ _ _ => id).mono fun _ _ => trivial
  have kept : Path (fun c => .view "v" ∈ c.world.listeners ⟨1⟩) c₁ c :=
    (path_of_follow (I := fun _ => True) after trivial fun _ _ _ => id).mono
      fun _ h => of_decide_eq_true h.1
  exact ⟨c₀, c₁, c, d,
    (Path.tail reached (.perform _ (atRest_iff.mpr rfl)) trivial).trans reaches,
    .step registers, noKeys, noListeners, joined, kept, .step tells, heard, stale⟩

end Examples

end Config

end HighlightSync
