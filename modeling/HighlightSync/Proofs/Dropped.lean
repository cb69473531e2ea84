import HighlightSync.Proofs.Deeds
import HighlightSync.Proofs.Retention
import HighlightSync.Proofs.Wiring

/-!
# Dropped translators

A translator that is dropped has no targets and no name any more, and no new link of it is ever
announced to. What is left of it are frames that were on the stack when it was dropped: work on
an event that had begun before, and fan-outs that still hold its links (`Gone`).

So all that is still done for it is known (`Spent`, `spent_of_drops`). Work that had begun goes on
over the keys and the targets that it had collected. A source link that is told of an event has no
target left to forward to, even while earlier work keeps the translator's state. And a reset link
that is told of a reset, in a fan-out of a handler that had been a target, resets the source as
long as something holds it.
-/

namespace HighlightSync

namespace Config

variable {t : TranslatorId} {s : TranslatorState} {b c c₀ c₁ d : Config}

/-- What is left of a translator since it was dropped: its state, and frames that stood on the
stack when it was dropped and have gone on since. -/
structure Gone (b : Config) (t : TranslatorId) (s : TranslatorState) (c₁ c : Config) : Prop where
  since : Since b c
  found : c.world.translator? t = some { s with targets := [], live := false }
  stacked : ∀ g below, (g :: below) <:+ c.stack → g.Serves t below →
    ∃ f, (f :: below) <:+ c₁.stack ∧ f.LeadsTo g
  idle : ∀ m, .swap t m ∉ c₁.stack

namespace Gone

theorem start (since : Since b c₀) (drops : Drops t s c₀ c₁) : Gone b t s c₁ c₁ where
  since := since.next drops.next
  found := drops.spec.1
  stacked g _ mem _ := ⟨g, mem, .refl g⟩
  idle := drops.spec.2

theorem dead (gone : Gone b t s c₁ c) : c.world.IsDead t := ⟨_, gone.found, rfl⟩

theorem unnamed (gone : Gone b t s c₁ c) (name : String) : c.world.translatorNamed? name ≠ some t :=
  gone.dead.unnamed gone.since.orderly name

theorem not_mem_listeners (gone : Gone b t s c₁ c) {l : Listener} (owner : l.owner? = some t)
    (h : HandlerId) : l ∉ c.world.listeners h :=
  gone.dead.not_mem_listeners gone.since.sound gone.since.orderly owner h

theorem not_swaps (gone : Gone b t s c₁ c) (m : Option MapperId) (stack : List Frame) :
    c.stack ≠ .swap t m :: stack := fun top => by
  obtain ⟨f, mem, leads⟩ := gone.stacked (.swap t m) stack (top ▸ List.suffix_refl _) rfl
  cases leads
  exact gone.idle m (mem.subset List.mem_cons_self)

theorem next (gone : Gone b t s c₁ c) (next : Next c d) : Gone b t s c₁ d := by
  have performed : ∀ op stack, (perform op c.world stack).world.translator? t =
      some { s with targets := [], live := false } := by
    intro op stack
    obtain retains | ⟨name, _, named, -⟩ := (begins_perform op c.world stack).retains t
    · obtain ⟨s', found, -, same⟩ := retains _ gone.found
      exact same gone.unnamed ▸ found
    · exact absurd named (gone.unnamed name)
  refine ⟨gone.since.next next, ?_, ?_, gone.idle⟩
  · cases next with
    | perform op _ => exact performed op []
    | step hs =>
        obtain same | ⟨m, stack, top, -⟩ | ⟨f, stack, op, -, -, rfl⟩ := step_translator? hs t
        · exact same.trans gone.found
        · exact absurd top (gone.not_swaps m stack)
        · exact performed op (f :: stack)
  · refine next.evolves.all gone.stacked (fun pushed opens g between rest inside serves => ?_)
      (fun f f' stack top leads before serves => ?_) fun f e stack top prepares serves => ?_
    · obtain ⟨s', found, some⟩ | ⟨name, named⟩ :=
        opens.serves (inside.subset List.mem_cons_self) serves
      · cases gone.found.symm.trans found
        exact absurd rfl some
      · exact absurd named (gone.unnamed name)
    · have here : (f :: stack) <:+ c.stack := top ▸ List.suffix_refl _
      obtain ⟨f₀, mem, before⟩ :=
        before (leads.serves serves fun u asks => gone.since.forward_below here asks)
      exact ⟨f₀, mem, before.trans leads⟩
    · obtain ⟨l, mem, owner⟩ := serves
      exact absurd mem (gone.not_mem_listeners owner e.source)

theorem path (gone : Gone b t s c₁ c) (path : Path (fun _ => True) c d) : Gone b t s c₁ d :=
  path.keeps gone fun _ _ _ _ move gone => gone.next move

end Gone

/-- A handler is a target of a translator, or has been one since the session began. -/
def HasReached (b : Config) (t : TranslatorId) (h : HandlerId) (c : Config) : Prop :=
  ∃ d, Path (fun _ => True) b d ∧ Path (fun _ => True) d c ∧ h ∈ d.world.targetsOf t

/-- The deed is a piece of work that had begun at an earlier point and has gone on since. -/
def Finishes (t : TranslatorId) (deed : Deed) (c₁ c : Config) : Prop :=
  ∃ f g below, c.stack = g :: below ∧ (f :: below) <:+ c₁.stack ∧ f.LeadsTo g ∧
    f.Intends t below deed

/-- A handler that has been a target of a translator tells its listeners of a reset, as it did at
an earlier point, and comes to the reset link of the translator, whose source is still held. -/
def TellsReset (b : Config) (t : TranslatorId) (source : HandlerId) (c₁ c : Config) :
    Prop :=
  ∃ e pending first begun first₁ below,
    c = running c.world (.fanOut e (.resetLink t :: pending) first :: below) ∧
      (.fanOut e begun first₁ :: below) <:+ c₁.stack ∧ (.resetLink t :: pending) <:+ begun ∧
      e.change = .reset ∧ HasReached b t e.source c₁ ∧
      c.world.isHeld (.fanOut e (.resetLink t :: pending) first :: below) source = true

/-- What a dropped translator still does. -/
structure Spent (b : Config) (t : TranslatorId) (s : TranslatorState) (c₁ c : Config) : Prop where
  /-- It has no targets. -/
  emptied : c.world.translator? t = some { s with targets := [], live := false }
  /-- A callback of its source link ends after at most two steps, of which the journal alone
  shows something. -/
  silent : ∀ w e pending first below,
    c = running w (.fanOut e (.sourceLink t :: pending) first :: below) →
      ∃ (n : Nat) (records : List Record), n ≤ 2 ∧
        Steps n c (answered (records.foldl World.record w)
          (.fanOut e (.sourceLink t :: pending) first :: below) .done) ∧
        ∀ r ∈ records, r = .callback (.sourceLink t) e w.depth true ∨ r = .enter .forward ∨
          r = .exit .forward
  /-- It finishes what it had begun, and its source may be reset. -/
  left : ∀ deed, Does t deed c →
    Finishes t deed c₁ c ∨ (deed = .reset s.source ∧ TellsReset b t s.source c₁ c)
  /-- Whatever else goes on asks no mapper, calls nobody and leaves all translators alone, unless
  it performs an operation or is done for some translator. -/
  exhaustive : ∀ d, c.step = some d →
    (∃ f stack op, c = running c.world (f :: stack) ∧ f.due? = some op) ∨
      (∃ u deed, Does u deed c) ∨
      (c.world.Calms d.world ∧ d.world.translator? = c.world.translator?)

/-- A reset link is told by handlers that the translator has reached. -/
def TellsReached (b : Config) (t : TranslatorId) (c : Config) : Frame → Prop
  | .fanOut e pending _ => .resetLink t ∈ pending → HasReached b t e.source c
  | _ => True

/-- Whoever is about to tell a reset link is, or was, a target. -/
theorem Since.tellsReached (h : Since b c) {g : Frame} {below : List Frame}
    (mem : (g :: below) <:+ c.stack) : TellsReached b t c g := by
  refine h.all_frames (Q := fun c g _ => TellsReached b t c g) ?_ ?_ ?_ ?_ g below mem
  · intro c d next g _ before
    cases g with
    | fanOut e pending first =>
        intro link
        obtain ⟨d, start, path, target⟩ := before link
        exact ⟨d, start, .tail path next trivial, target⟩
    | _ => trivial
  · intro c d _ pushed opens g between rest inside
    cases g with
    | fanOut e pending first =>
        exact absurd trivial (opens.not_follows (inside.subset List.mem_cons_self))
    | _ => trivial
  · intro c d _ _ f f' stack _ leads before
    cases leads with
    | refl => exact before
    | fanOut _ _ _ left => exact fun link => before (left.subset link)
    | _ => trivial
  · intro c d since next f e stack _ _ link
    obtain ⟨id, registered⟩ := (World.exists_registered_iff since.sound).mpr link
    obtain ⟨s, found, -, keeps⟩ := since.orderly.links _ _ _ t rfl registered
    refine ⟨c, since.path, .tail (.refl trivial) next trivial, ?_⟩
    rw [World.targetsOf_of_found found]
    exact List.mem_map.mpr ⟨_, keeps, rfl⟩

/-- A source link without targets leaves nothing but records. -/
theorem silent_of_no_targets {w : World} (found : w.translator? t = some s)
    (none : s.targets = []) (e : Event) (pending : List Listener) (first : Option Fault)
    (below : List Frame) :
    ∃ (n : Nat) (records : List Record), n ≤ 2 ∧
      Steps n (running w (.fanOut e (.sourceLink t :: pending) first :: below))
        (answered (records.foldl World.record w)
          (.fanOut e (.sourceLink t :: pending) first :: below) .done) ∧
      ∀ r ∈ records, r = .callback (.sourceLink t) e w.depth true ∨ r = .enter .forward ∨
        r = .exit .forward := by
  have nobody : s.targetHandlers = [] := List.map_eq_nil_iff.mpr none
  let start := running w (.fanOut e (.sourceLink t :: pending) first :: below)
  let told := w.record (.callback (.sourceLink t) e w.depth true)
  let stack := Frame.fanOut e (.sourceLink t :: pending) first :: below
  have tells : start.step = some (tell (.sourceLink t) e w stack) := rfl
  by_cases work : told.isAtWork stack t
  · obtain ⟨source, change⟩ := e
    cases change with
    | move d keys =>
        have begins : tell (.sourceLink t) ⟨source, .move d keys⟩ w stack =
            answered (told.record (.enter .forward)) (.forward t :: stack) .done := by
          simp only [tell, World.translator?_record, found, tellForward, nobody]
          rw [if_pos work]
          split <;> rfl
        refine ⟨2, [.callback (.sourceLink t) ⟨source, .move d keys⟩ w.depth true,
          .enter .forward, .exit .forward], Nat.le_refl 2, .cons (begins ▸ tells) (.single rfl), ?_⟩
        simp
    | reset =>
        have begins : tell (.sourceLink t) ⟨source, .reset⟩ w stack =
            running told (.resetTargets t [] .none :: stack) := by
          simp only [tell, World.translator?_record, found, nobody]
          exact if_pos work
        refine ⟨2, [.callback (.sourceLink t) ⟨source, .reset⟩ w.depth true], Nat.le_refl 2,
          .cons (begins ▸ tells) (.single rfl), ?_⟩
        simp
  · have ends : tell (.sourceLink t) e w stack = answered told stack .done := by
      simp only [tell, World.translator?_record, found]
      exact if_neg work
    refine ⟨1, [.callback (.sourceLink t) e w.depth true], by omega, .single (ends ▸ tells), ?_⟩
    simp

namespace Gone

theorem finishes (gone : Gone b t s c₁ c) (origin : Since b c₁) {g : Frame} {below : List Frame}
    {deed : Deed} (top : c.stack = g :: below) (intends : g.Intends t below deed) :
    Finishes t deed c₁ c := by
  obtain ⟨f, mem, leads⟩ := gone.stacked g below (top ▸ List.suffix_refl _) intends.serves
  exact ⟨f, g, below, top, mem, leads,
    leads.intends intends fun _ asks => origin.forward_below mem asks⟩

theorem spent (gone : Gone b t s c₁ c) (origin : Since b c₁) : Spent b t s c₁ c where
  emptied := gone.found
  silent := by
    rintro w e pending first below rfl
    exact silent_of_no_targets gone.found rfl e pending first below
  left := by
    rintro deed (⟨w, d, m, targets, keys, k, pending, mapped, held, stack⟩ |
      ⟨w, d, keys, targets, h, pending, first, stack⟩ | ⟨w, h, pending, first, stack⟩ |
      ⟨w, e, pending, first, stack, found, resets, held⟩ | ⟨w, m, stack, r⟩)
    · exact .inl (gone.finishes origin rfl ⟨rfl, rfl, List.mem_cons_self⟩)
    · exact .inl (gone.finishes origin rfl ⟨⟨stack, rfl⟩, rfl, rfl, List.mem_cons_self⟩)
    · exact .inl (gone.finishes origin rfl ⟨rfl, List.mem_cons_self⟩)
    · cases gone.found.symm.trans found
      have link : Listener.resetLink t ∈ .resetLink t :: pending := List.mem_cons_self
      obtain ⟨f, mem, leads⟩ := gone.stacked _ stack (List.suffix_refl _) ⟨_, link, rfl⟩
      cases leads with
      | refl =>
          exact .inr ⟨rfl, e, pending, first, _, first, stack, rfl, mem, List.suffix_refl _, resets,
            origin.tellsReached mem link, held⟩
      | fanOut _ first₁ _ left =>
          exact .inr ⟨rfl, e, pending, first, _, first₁, stack, rfl, mem, left, resets,
            origin.tellsReached mem (left.subset link), held⟩
    · exact absurd rfl (gone.not_swaps m stack)
  exhaustive d step := calm_or_does gone.since step

end Gone

/-- A dropped translator never acts again, wherever it is dropped. From then on it has no targets,
and its source link, when it is told of something, leaves nothing but records. What is still done
for it is work that had begun before, with the mapper, the keys and the targets collected then; or
it is a reset of its source, as long as something holds that, by an announcement of a former
target that had begun before. Nothing but that can ask a mapper or call a handler in its name. -/
theorem spent_of_drops (since : Since b c₀) (drops : Drops t s c₀ c₁)
    (path : Path (fun _ => True) c₁ c) : Spent b t s c₁ c :=
  ((Gone.start since drops).path path).spent (since.next drops.next)

section Examples

/-- A translator to two targets, on the first of which a view drops it. -/
def quitting : List (Action Op) :=
  [.createHandler "a" .plain, .createHandler "b" .plain, .createHandler "c" .plain,
    .createListener "v" { onlooker with
      script := fun κ => if κ = .highlight then some [.dropTranslator "t"] else none
      times := 1 },
    .addListener "b" "v", .createTranslator "t" "a" (some echo), .addTarget "t" "b",
    .addTarget "t" "c"]

/-- The handler on which a forwarding moves keys next, with the direction and the keys. -/
def movesNext? : List Frame → Option (TranslatorId × Direction × HandlerId × KeySet)
  | .forwarding d keys _ (h :: _) _ :: .forward t :: _ => some (t, d, h, keys)
  | _ => none

theorem does_of_movesNext {t : TranslatorId} {d : Direction} {h : HandlerId} {keys : KeySet}
    (next : movesNext? c.stack = some (t, d, h, keys)) (waits : c.reply = none) :
    Does t (.move d h keys) c := by
  obtain ⟨w, stack, reply⟩ := c
  cases waits
  simp only [movesNext?] at next
  split at next
  · cases next
    exact .move w d keys _ h _ _ _
  · cases next

/-- A translator that is dropped by a view on its first target still forwards to the second. -/
theorem spent_quitting :
    let keys := KeySet.ofList [.int 1]
    ∃ c₀ c₁ c s, Drops ⟨1⟩ s c₀ c₁ ∧ Path (fun _ => True) c₁ c ∧
      Does ⟨1⟩ (.move .highlight ⟨3⟩ keys) c ∧ Finishes ⟨1⟩ (.move .highlight ⟨3⟩ keys) c₁ c := by
  intro keys
  let any : Config → Bool := fun _ => true
  let live (c : Config) : Bool := (c.world.translator? ⟨1⟩).any TranslatorState.live
  let begins := perform (.move .highlight "a" ⟨none, [.key (.int 1)]⟩) (.built quitting) []
  have runs : (follow any 11 begins).any (fun c₀ => c₀.step.any fun c₁ =>
      live c₀ && !live c₁ && (follow any 9 c₁).any fun c =>
        decide (movesNext? c.stack = some (⟨1⟩, .highlight, ⟨3⟩, keys)) && c.reply.isNone) =
      true := by
    decide +kernel
  obtain ⟨c₀, before, runs⟩ := (Option.any_eq_true _ _).mp runs
  obtain ⟨c₁, step, runs⟩ := (Option.any_eq_true _ _).mp runs
  simp only [Bool.and_eq_true, Bool.not_eq_true'] at runs
  obtain ⟨⟨alive, gone⟩, runs⟩ := runs
  obtain ⟨c, after, runs⟩ := (Option.any_eq_true _ _).mp runs
  simp only [Bool.and_eq_true, decide_eq_true_eq, Option.isNone_iff_eq_none] at runs
  obtain ⟨s, found, alive⟩ := (Option.any_eq_true _ _).mp alive
  have reached : Reached c₀ := by
    obtain ⟨reply, built⟩ := reached_built quitting
    exact Reached.steps (.tail built (.perform _ (atRest_iff.mpr rfl)) trivial)
      (steps_of_follow before)
  have drops : Drops ⟨1⟩ s c₀ c₁ := ⟨.step step, found, alive, fun s' found' => by
    simpa [live, found'] using gone⟩
  have path : Path (fun _ => True) c₁ c :=
    (path_of_follow (I := fun _ => True) after trivial fun _ _ _ _ => trivial).mono
      fun _ _ => trivial
  have does : Does ⟨1⟩ (.move .highlight ⟨3⟩ keys) c := does_of_movesNext runs.1 runs.2
  refine ⟨c₀, c₁, c, s, drops, path, does, ?_⟩
  obtain finishes | ⟨resets, -⟩ := (spent_of_drops reached.since drops path).left _ does
  · exact finishes
  · cases resets

end Examples

end Config

end HighlightSync
