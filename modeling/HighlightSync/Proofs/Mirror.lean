import HighlightSync.Proofs.Uniform

/-!
# Listeners mirror their handlers

While no view and no mapper runs operations, every listener that was registered on a
handler without keys mirrors the handler, wherever it stands in the list. In a cyclic
wiring a handler may change again before it has told all listeners of a change, so a
listener far down the list is told of later changes first. But one cascade holds only
changes of one kind, and these commute.

So what a listener has received together with what it is still to be told gives the keys of
its handler (`Mirrored`), in whatever order the listener hears of it. Between operations
nothing is left to be told, and whenever a callback begins its change is still in force
(`replay_received_of_idle`).
-/

namespace HighlightSync.Config

/-- Registering a listener on a handler that has no keys. -/
structure Registers (l : Listener) (h : HandlerId) (c d : Config) : Prop where
  next : Next c d
  noKeys : c.world.keysOf h = ∅
  absent : l ∉ c.world.listeners h
  registered : l ∈ d.world.listeners h

/-- What the listener received so far and what it is still to be told give the keys of the
handler, and all that it is still to be told is in force. -/
structure Mirrored (l : Listener) (h : HandlerId) (start : World) (c : Config) : Prop where
  sound : c.world.Sound
  uniform : Uniform c
  since : start.heard <+: c.world.heard
  registered : l ∈ c.world.listeners h
  complete : Change.replay (start.received l h c.world ++ changesTold l h c.tells) =
    c.world.keysOf h
  inForce : ∀ change ∈ changesTold l h c.tells, change.InForce (c.world.keysOf h)

section

variable {l : Listener} {h : HandlerId} {start : World} {c d : Config}

/-- What holds of received and outstanding changes is kept when neither they nor the keys of
the handler change. -/
theorem Mirrored.congr (m : Mirrored l h start c) (sound : d.world.Sound) (uniform : Uniform d)
    (kept : l ∈ d.world.listeners h) (since : start.heard <+: d.world.heard)
    (same : start.received l h d.world ++ changesTold l h d.tells =
      start.received l h c.world ++ changesTold l h c.tells)
    (fewer : changesTold l h d.tells ⊆ changesTold l h c.tells)
    (keys : d.world.keysOf h = c.world.keysOf h) : Mirrored l h start d := by
  refine ⟨sound, uniform, since, kept, ?_, ?_⟩
  · rw [same, keys, m.complete]
  · intro change told
    rw [keys]
    exact m.inForce change (fewer told)

/-- A change that its handler announces joins what the listener is still to be told. Changes
already outstanding are of the same kind, so it does not matter that they come after it. -/
theorem Mirrored.announced (m : Mirrored l h start c) (sound : d.world.Sound)
    (uniform : Uniform d) (kept : l ∈ d.world.listeners h) {change : Change}
    (tells : d.tells = (c.world.listeners h).map (·, ⟨h, change⟩) ++ c.tells)
    (heard : d.world.heard = c.world.heard)
    (keys : d.world.keysOf h = change.apply (c.world.keysOf h)) : Mirrored l h start d := by
  have once : (c.world.listeners h).Nodup := (m.sound.registries h).nodup
  have outstanding : changesTold l h d.tells = change :: changesTold l h c.tells := by
    rw [tells, changesTold_append, changesTold_map once m.registered, List.singleton_append]
  have received : start.received l h d.world = start.received l h c.world :=
    World.received_congr heard
  -- A cascade has events of one kind, so the change commutes with those still to be told.
  obtain ⟨κ, kinds⟩ := uniform.kind_of_mem_tells
  have kind : ∀ other ∈ changesTold l h d.tells, other.kind = κ := fun other told =>
    kinds _ (mem_changesTold.mp told)
  rw [outstanding] at kind
  have alike : ∀ other ∈ changesTold l h c.tells, other.kind = change.kind := fun other told =>
    (kind other (List.mem_cons_of_mem _ told)).trans (kind change List.mem_cons_self).symm
  refine ⟨sound, uniform, heard ▸ m.since, kept, ?_, ?_⟩
  · rw [received, outstanding, Change.replay_insert alike, m.complete, keys]
  · intro other told
    rw [keys]
    rw [outstanding] at told
    obtain rfl | told := List.mem_cons.mp told
    · exact other.inForce_apply _
    · exact (m.inForce other told).apply (alike other told)

/-- Every move keeps listeners mirrored. -/
theorem Mirrored.next (m : Mirrored l h start c) (next : Next c d) (views : c.world.IdleViews)
    (mappers : c.world.IdleMappers) (kept : l ∈ d.world.listeners h) : Mirrored l h start d := by
  have sound := (next.rewires m.sound).1
  have uniform := m.uniform.next views mappers next
  cases next.delivers with
  | silent tells observed =>
      have heard : d.world.heard = c.world.heard := congrArg Observed.heard observed
      refine m.congr sound uniform kept (heard ▸ m.since) ?_ ?_ ?_
      · rw [World.received_congr heard, tells]
      · rw [tells]
        exact List.Subset.refl _
      · exact congrFun (congrArg Observed.keys observed) h
  | told l' e tells observed =>
      have heard : d.world.heard = c.world.heard ++ [(l', e)] := congrArg Observed.heard observed
      refine m.congr sound uniform kept (heard ▸ m.since.trans (List.prefix_append _ _)) ?_ ?_ ?_
      · rw [received_append m.since heard, tells, List.append_assoc, ← changesTold_append]
        rfl
      · rw [tells]
        exact fun _ told => mem_changesTold.mpr (List.mem_cons_of_mem _ (mem_changesTold.mp told))
      · exact congrFun (congrArg Observed.keys observed) h
  | skipped name e unknown tells observed =>
      have heard : d.world.heard = c.world.heard := congrArg Observed.heard observed
      have other : ¬ (Listener.view name = l ∧ e.source = h) := by
        rintro ⟨rfl, -⟩
        have known := m.sound.views h name m.registered
        rw [unknown] at known
        cases known
      refine m.congr sound uniform kept (heard ▸ m.since) ?_ ?_ ?_
      · rw [World.received_congr heard, tells, changesTold_cons_of_ne other]
      · rw [tells, changesTold_cons_of_ne other]
        exact List.Subset.refl _
      · exact congrFun (congrArg Observed.keys observed) h
  | announced g change proper opened tells observed =>
      have heard : d.world.heard = c.world.heard := congrArg Observed.heard observed
      have keys : d.world.keysOf = (c.world.change g change).keysOf :=
        congrArg Observed.keys observed
      by_cases here : g = h
      · subst here
        refine m.announced sound uniform kept tells heard ?_
        rw [keys, World.keysOf_change (World.handler?_isSome_of_mem_listeners m.registered),
          if_pos rfl]
      · have nothing : changesTold l h d.tells = changesTold l h c.tells := by
          rw [tells, changesTold_append, changesTold_map_of_ne _ here, List.nil_append]
        refine m.congr sound uniform kept (heard ▸ m.since) ?_ ?_ ?_
        · rw [World.received_congr heard, nothing]
        · rw [nothing]
          exact List.Subset.refl _
        · rw [keys, World.keysOf_change_of_ne change fun e => here e.symm]

/-- A listener mirrors its handler from its registration on: an operation that registers it
is performed while nobody is to be told of anything. -/
theorem Registers.mirrored (r : Registers l h c d) (sound : c.world.Sound) (uniform : Uniform c)
    (views : c.world.IdleViews) (mappers : c.world.IdleMappers) : Mirrored l h d.world d := by
  obtain ext | ⟨performs, tells, observed⟩ := r.next.extends_or_performs
  · exact absurd (ext.listeners ▸ r.registered) r.absent
  · have keys : d.world.keysOf = c.world.keysOf := congrArg Observed.keys observed
    have nothing : d.tells = [] := tells.trans (uniform.tells_of_performs performs)
    refine ⟨(r.next.rewires sound).1, uniform.next views mappers r.next, List.prefix_refl _,
      r.registered, ?_, ?_⟩
    · rw [World.received_self, nothing, keys, r.noKeys]
      rfl
    · rw [nothing]
      exact fun _ told => (List.not_mem_nil told).elim

/-- Listeners mirror their handlers while views and mappers are idle. After every operation
the changes that a listener has received since it was registered give the keys of its
handler, and whenever one of its callbacks begins the change it carries is in force. -/
theorem replay_received_of_idle {c₀ c₁ c₂ : Config} (sound : c₀.world.Sound) (rest : c₀.AtRest)
    (before : Path (fun c => c.world.IdleViews ∧ c.world.IdleMappers) c₀ c₁)
    (r : Registers l h c₁ c₂)
    (after : Path (fun c => c.world.IdleViews ∧ c.world.IdleMappers ∧
      l ∈ c.world.listeners h) c₂ c) :
    (c.AtRest → Change.replay (c₂.world.received l h c.world) = c.world.keysOf h) ∧
      ∀ d change, Next c d → d.world.heard = c.world.heard ++ [(l, ⟨h, change⟩)] →
        change.InForce (d.world.keysOf h) := by
  have uniform : Uniform c₁ := before.keeps (.of_atRest rest)
    fun _ _ idle _ next u => u.next idle.1 idle.2 next
  have idle := before.holds
  have mirrored : Mirrored l h c₂.world c :=
    after.keeps (r.mirrored (before.sound sound) uniform idle.1 idle.2)
      fun _ _ idle kept next m => m.next next idle.1 idle.2.1 kept.2.2
  refine ⟨?_, ?_⟩
  · intro rest
    have complete := mirrored.complete
    rwa [tells_of_atRest rest, changesTold_nil, List.append_nil] at complete
  · intro d change next heard
    cases next.delivers with
    | told l' e tells observed =>
        have grown : d.world.heard = c.world.heard ++ [(l', e)] := congrArg Observed.heard observed
        cases List.append_cancel_left (heard.symm.trans grown)
        rw [show d.world.keysOf = c.world.keysOf from congrArg Observed.keys observed]
        exact mirrored.inForce change (mem_changesTold.mpr (tells ▸ List.mem_cons_self))
    | silent _ observed =>
        have same : d.world.heard = c.world.heard := congrArg Observed.heard observed
        simp [same] at heard
    | skipped _ _ _ _ observed =>
        have same : d.world.heard = c.world.heard := congrArg Observed.heard observed
        simp [same] at heard
    | announced _ _ _ _ _ observed =>
        have same : d.world.heard = c.world.heard := congrArg Observed.heard observed
        simp [same] at heard

end

section Examples

theorem idle_of_follow {p : Config → Bool} {n : Nat} {w : World} {c : Config} {d : Direction}
    {h : HandlerId} (keys : List Key) (views : w.IdleViews) (mappers : w.IdleMappers)
    (followed : follow p n (openMove d h ⟨none, keys.map .key⟩ w []) = some c) :
    Path (fun c => p c = true ∧ c.world.IdleViews ∧ c.world.IdleMappers)
      (openMove d h ⟨none, keys.map .key⟩ w []) c := by
  have same := layout_openCall w [] d.kind h (.reading h (.move d) none (keys.map .key) [])
  obtain ⟨pushed, grown, all⟩ : Grows (Frame.Cascades d.kind) []
      (openMove d h ⟨none, keys.map .key⟩ w []) :=
    .openCall trivial ⟨⟨d, rfl, rfl⟩, rfl, keys, rfl⟩
  have cascade : ∀ f ∈ (openMove d h ⟨none, keys.map .key⟩ w []).stack, f.Cascades d.kind :=
    fun f mem => all f (by rwa [grown, List.append_nil] at mem)
  have path := path_of_follow (I := fun c => (∀ f ∈ c.stack, f.Cascades d.kind) ∧
      c.world.IdleViews ∧ c.world.IdleMappers) followed
    ⟨cascade, views.of_layout same, mappers.of_layout same⟩ <| by
    rintro c e hs ⟨cascade, views, mappers⟩
    obtain ⟨stays, same⟩ := cascades_step hs views (fun _ => mappers) cascade
    exact ⟨stays, views.of_layout same, mappers.of_layout same⟩
  exact path.mono fun c h => ⟨h.1, h.2.2⟩

/-- Two handlers that are linked both ways, with a mapper that fails for one of the keys on the way
back, and a view that is not registered yet. -/
def looped : List (Action Op) :=
  [.createHandler "a" .plain, .createHandler "b" .plain, .createListener "v" onlooker,
    .createTranslator "ab" "a" (some echo), .addTarget "ab" "b",
    .createTranslator "ba" "b" (some (.computed ⟨.identity, [.int 2], "no entry"⟩ none [] 0)),
    .addTarget "ba" "a"]

/-- The view is registered behind both links. It is told of keys that come to its handler through
one of them and fail to go back through the other, and of one that is taken back. -/
theorem replay_received_of_idle_looped :
    ∃ c₀ c₁ c : Config, Registers (.view "v") ⟨2⟩ c₀ c₁ ∧ c.AtRest ∧
      c₁.world.listeners ⟨2⟩ = [.resetLink ⟨1⟩, .sourceLink ⟨2⟩, .view "v"] ∧
      c₁.world.received (.view "v") ⟨2⟩ c.world =
        [.move .highlight (.ofList [.int 1, .int 2]), .move .unhighlight (.singleton (.int 1))] ∧
      Change.replay (c₁.world.received (.view "v") ⟨2⟩ c.world) = c.world.keysOf ⟨2⟩ := by
  obtain ⟨reply, reached⟩ := reached_built looped
  let c₁ := perform (.act (.addListener "b" "v")) (.built looped) []
  let highlights := Op.move .highlight "a" ⟨none, [.int 1, .int 2].map .key⟩
  let unhighlights := Op.move .unhighlight "b" ⟨none, [.int 1].map .key⟩
  let registered (c : Config) : Bool := decide (.view "v" ∈ c.world.listeners ⟨2⟩)
  have views : c₁.world.IdleViews := fun name v found => by
    have stored : c₁.world.views = [("v", ⟨.ofSpec onlooker, 0, 0⟩)] := rfl
    rw [World.view?, stored, List.lookup_cons] at found
    split at found
    · cases found
      intro n e ops script
      cases script
    · cases found
  have mappers : c₁.world.IdleMappers := fun m s found n k => by
    have stored : c₁.world.mappers = ⟨#[.ofSpec echo,
      .ofSpec (.computed ⟨.identity, [.int 2], "no entry"⟩ none [] 0)]⟩ := rfl
    rw [World.mapper?, stored] at found
    obtain rfl | rfl : s = _ ∨ s = _ := by simpa using Store.mem_of_get? found
    · rfl
    · rfl
  have first : Registers (.view "v") ⟨2⟩ ⟨.built looped, [], reply⟩ c₁ :=
    { next := .perform _ (atRest_iff.mpr rfl)
      noKeys := show (World.built looped).keysOf ⟨2⟩ = ∅ by decide +kernel
      absent := show _ ∉ (World.built looped).listeners ⟨2⟩ by decide +kernel
      registered := by decide +kernel }
  have runs : (follow registered 38 (perform highlights c₁.world [])).any (fun d =>
      d.stack.isEmpty && decide (d.world.handlerNamed? "b" = some ⟨2⟩) &&
        (follow registered 37 (perform unhighlights d.world [])).any fun c =>
          c.stack.isEmpty && decide (c₁.world.received (.view "v") ⟨2⟩ c.world =
            [.move .highlight (.ofList [.int 1, .int 2]),
              .move .unhighlight (.singleton (.int 1))])) = true := by
    decide +kernel
  obtain ⟨d, highlighted, runs⟩ := (Option.any_eq_true _ _).mp runs
  simp only [Bool.and_eq_true, decide_eq_true_eq, List.isEmpty_iff] at runs
  obtain ⟨⟨between, named⟩, runs⟩ := runs
  obtain ⟨c, unhighlighted, passes⟩ := (Option.any_eq_true _ _).mp runs
  simp only [Bool.and_eq_true, decide_eq_true_eq, List.isEmpty_iff] at passes
  obtain ⟨ends, told⟩ := passes
  have goesOn : perform unhighlights d.world [] =
      openMove .unhighlight ⟨2⟩ ⟨none, [.int 1].map .key⟩ d.world [] := by
    simp only [unhighlights, perform, onHandler, named]
  rw [goesOn] at unhighlighted
  have there := idle_of_follow (d := .highlight) (h := ⟨1⟩) [.int 1, .int 2] views mappers
    highlighted
  have back := idle_of_follow [.int 1] there.holds.2.1 there.holds.2.2 unhighlighted
  have weaker : ∀ e : Config, registered e = true ∧ e.world.IdleViews ∧ e.world.IdleMappers →
      e.world.IdleViews ∧ e.world.IdleMappers ∧ .view "v" ∈ e.world.listeners ⟨2⟩ :=
    fun _ h => ⟨h.2.1, h.2.2, of_decide_eq_true h.1⟩
  have next : Next d (openMove .unhighlight ⟨2⟩ ⟨none, [.int 1].map .key⟩ d.world []) :=
    goesOn ▸ .perform unhighlights (atRest_iff.mpr between)
  have kept : Path (fun e => e.world.IdleViews ∧ e.world.IdleMappers ∧
      .view "v" ∈ e.world.listeners ⟨2⟩) c₁ c :=
    .head (.perform highlights (atRest_iff.mpr rfl)) ⟨views, mappers, first.registered⟩
      ((there.mono weaker).trans (.head next (weaker _ there.holds) (back.mono weaker)))
  have idle : (World.built looped).IdleViews ∧ (World.built looped).IdleMappers := ⟨views, mappers⟩
  exact ⟨_, c₁, c, first, atRest_iff.mpr ends, by decide +kernel, told,
    (replay_received_of_idle reached.sound (atRest_iff.mpr rfl) (.refl idle) first kept).1
      (atRest_iff.mpr ends)⟩

end Examples

end HighlightSync.Config
