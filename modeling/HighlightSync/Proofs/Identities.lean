import HighlightSync.Proofs.Detachment
import HighlightSync.Proofs.Rearranging

/-!
# Identities are not given twice

A slot that is used again gets a version that it never had. So an identity that a registry has given
once, to whomever and however long ago, is never given again (`Registry.Sound.not_seen_append`), and
it means whoever got it or nobody. This is kept by every request but the one that starts the
registry afresh (`Registry.Honors`, `Registry.Sound.honors_performAll`).

In a session, an identity on a handler means the same listener from its registration until an
operation takes this listener away (`Op.Unregisters`), and nobody ever after, as long as nothing
removes all listeners of the handler at once (`Config.Lasts`, `Config.means_same_of_lasts`).
-/

namespace HighlightSync

namespace Registry

variable {α : Type u} {r r' r'' : Registry α} {id : ListenerId} {a : α}

/-- The slot of an identity has seen its version, so that the identity was given before. -/
def Seen (r : Registry α) (id : ListenerId) : Prop :=
  ∃ s, r.slot? id.slot = some s ∧ id.version ≤ s.version

theorem seen_of_get? (found : r.get? id = some a) : r.Seen id :=
  ⟨_, get?_eq_some_iff.mp found, Nat.le_refl _⟩

theorem Seen.append (seen : r.Seen id) (sound : r.Sound) (a : α) : (r.append a).2.Seen id := by
  obtain ⟨s, slot, before⟩ := seen
  obtain ⟨s', slot', rfl | later⟩ := exists_slot?_occupy sound.vacant slot a
  · exact ⟨s', slot', before⟩
  · exact ⟨s', slot', by omega⟩

theorem Seen.remove (seen : r.Seen id) (other : ListenerId) : (r.remove other).Seen id := by
  obtain ⟨s, slot, before⟩ := seen
  obtain ⟨s', slot', version, -⟩ := exists_slot?_remove slot other
  rw [← version] at before
  exact ⟨s', slot', before⟩

/-- An identity that a registration is given was never given before. -/
theorem Sound.not_seen_append (sound : r.Sound) (a : α) : ¬ r.Seen (r.append a).1 := by
  obtain ⟨slots, free, order, snapshot⟩ := r
  rintro ⟨s, slot, before⟩
  cases free with
  | nil =>
      have bound : slots.size < slots.size := (Array.getElem?_eq_some_iff.mp slot).1
      omega
  | cons i rest =>
      obtain ⟨v, here⟩ := sound.vacant i List.mem_cons_self
      simp only [Registry.append, occupy, here, Option.elim_some] at slot before
      cases Option.some.inj slot
      change v + 2 ≤ v at before
      omega

/-- From a registry to another in which identities that were given before mean nobody new. -/
def Honors (r r' : Registry α) : Prop :=
  ∀ id, r.Seen id → r'.Seen id ∧ ∀ a, r'.get? id = some a → r.get? id = some a

namespace Honors

theorem refl (r : Registry α) : r.Honors r := fun _ seen => ⟨seen, fun _ found => found⟩

theorem trans (first : r.Honors r') (second : r'.Honors r'') : r.Honors r'' := by
  intro id seen
  obtain ⟨seen', before⟩ := first id seen
  obtain ⟨seen'', before'⟩ := second id seen'
  exact ⟨seen'', fun a found => before a (before' a found)⟩

theorem append (sound : r.Sound) (a : α) : r.Honors (r.append a).2 := by
  intro id seen
  refine ⟨seen.append sound a, fun b found => ?_⟩
  rw [sound.get?_append, if_neg] at found
  · exact found
  · rintro rfl
    exact sound.not_seen_append a seen

theorem remove (r : Registry α) (other : ListenerId) : r.Honors (r.remove other) := by
  intro id seen
  refine ⟨seen.remove other, fun b found => ?_⟩
  rw [get?_remove] at found
  split at found
  · cases found
  · exact found

end Honors

variable [DecidableEq α]

theorem Sound.honors_perform (sound : r.Sound) {request : Request α} (keeps : request ≠ .clear) :
    r.Honors (r.perform request).2 := by
  cases request with
  | add a =>
      simp only [perform, register]
      split
      · exact .refl r
      · exact .append sound a
  | remove a =>
      simp only [perform]
      cases r.find? a with
      | none => exact .refl r
      | some id => exact .remove r id
  | removeId id => exact .remove r id
  | clear => exact absurd rfl keeps

/-- So does a row of such requests. -/
theorem Sound.honors_performAll (sound : r.Sound) {requests : List (Request α)}
    (keeps : ∀ request ∈ requests, request ≠ .clear) : r.Honors (r.performAll requests).2 := by
  induction requests generalizing r with
  | nil => exact .refl r
  | cons request requests ih =>
      have first := sound.honors_perform (keeps request List.mem_cons_self)
      apply first.trans
      apply ih (sound.serves request).1
      intro other mem
      exact keeps other (List.mem_cons_of_mem request mem)

end Registry

/-- The operation removes all listeners of a handler. -/
def Op.Forgets (w : World) (h : HandlerId) : Op → Prop
  | .act (.removeAllListeners name) => w.handlerNamed? name = some h
  | _ => False

/-- A translator with a name keeps the identity of the reset link that it has on a target. -/
def World.KeepsTarget (w : World) (name : String) (h : HandlerId) (id : ListenerId) : Prop :=
  ∃ t s, w.translatorNamed? name = some t ∧ w.translator? t = some s ∧ ⟨h, id⟩ ∈ s.targets

/-- A translator with a name keeps the identity of the link that it has on its source. -/
def World.KeepsSource (w : World) (name : String) (h : HandlerId) (id : ListenerId) : Prop :=
  ∃ t s, w.translatorNamed? name = some t ∧ w.translator? t = some s ∧ s.source = h ∧
    s.sourceLink = id

/-- The operation takes a listener that has an identity on a handler off this handler: it names the
listener, or the identity, or it ends the work of a translator that keeps the identity. -/
def Op.Unregisters (w : World) (h : HandlerId) (id : ListenerId) (l : Listener) : Op → Prop
  | .act (.removeListener name v) => w.handlerNamed? name = some h ∧ l = .view v
  | .act (.removeListenerId name other) => w.handlerNamed? name = some h ∧ other = some id
  | .act (.removeTarget name target) => w.handlerNamed? target = some h ∧ w.KeepsTarget name h id
  | .act (.removeAllTargets name) => w.KeepsTarget name h id
  | .dropTranslator name => w.KeepsTarget name h id ∨ w.KeepsSource name h id
  | _ => False

/-- After an operation a listener still has its identity on a handler, unless the operation takes
this one away or all of them. -/
def Op.Spares (op : Op) (w : World) (h : HandlerId) (id : ListenerId) (l : Listener)
    (v : World) : Prop :=
  v.Registered h id l ∨ op.Unregisters w h id l ∨ op.Forgets w h

namespace World

variable {w : World} {h : HandlerId} {id : ListenerId} {l : Listener}

theorem registryOf_detachAll_of_ne {g : HandlerId} (other : h ≠ g) :
    (w.detachAll g).registryOf h = w.registryOf h := by
  rw [detachAll, registryOf_setRegistry, if_neg fun here => other here.1]

theorem Registered.introduce (registered : w.Registered h id l) (sound : w.Sound) (name : String)
    (source : HandlerId) : (w.introduce name source).Registered h id l :=
  registered.attach sound source (.sourceLink ⟨w.translators.next⟩)

theorem Registered.addTarget (registered : w.Registered h id l) (sound : w.Sound)
    (t : TranslatorId) (s : TranslatorState) (g : HandlerId) :
    (w.addTarget t s g).2.Registered h id l := by
  rw [World.addTarget]
  split
  · exact registered
  · split
    · exact registered
    · exact registered.attach sound g (.resetLink t)

/-- An action leaves a listener registered, unless it takes just this one away or all of them. -/
theorem Effect.spares {v : World} {a : Action Op} (e : w.Effect a v) (sound : w.Sound)
    (registered : w.Registered h id l) : (Op.act a).Spares w h id l v := by
  have kept : ∀ {v : World}, v.registryOf = w.registryOf → (Op.act a).Spares w h id l v := by
    intro v same
    left
    rw [Registered, same]
    exact registered
  cases e with
  | nothing => exact kept rfl
  | createHandler => exact kept (Extends.addHandler w _).registries
  | dropHandler => exact kept rfl
  | createListener => exact kept rfl
  | addListener => exact .inl (registered.attach sound _ _)
  | @removeListener name v g named known =>
      simp only [detachListener]
      split
      · rename_i other found
        by_cases here : h = g ∧ id = other
        · obtain ⟨rfl, rfl⟩ := here
          exact .inr (.inl ⟨named, registered.unique (registered_of_find? found)⟩)
        · exact .inl (registered_detach.mpr ⟨registered, here⟩)
      · exact kept rfl
  | @removeListenerId name other g named =>
      by_cases here : h = g ∧ id = other
      · obtain ⟨rfl, rfl⟩ := here
        exact .inr (.inl ⟨named, rfl⟩)
      · exact .inl (registered_detach.mpr ⟨registered, here⟩)
  | @removeAllListeners name g named =>
      by_cases here : h = g
      · subst here
        exact .inr (.inr named)
      · left
        rw [Registered, registryOf_detachAll_of_ne here]
        exact registered
  | createTranslator => exact .inl (registered.introduce sound _ _)
  | @createMapped name _ _ g => exact .inl (registered.introduce sound name g)
  | addTarget => exact .inl (registered.addTarget sound _ _ _)
  | @removeTarget name target t s g named found handler =>
      by_cases chosen : s.targets.find? (fun target => decide (target.handler = g)) = some ⟨h, id⟩
      · obtain rfl : h = g := by simpa using List.find?_some chosen
        exact .inr (.inl ⟨handler, t, s, named, found, List.mem_of_find?_eq_some chosen⟩)
      · exact .inl (registered_removeTarget.mpr ⟨registered, chosen⟩)
  | @removeAllTargets name t s named found =>
      by_cases mem : ⟨h, id⟩ ∈ s.targets
      · exact .inr (.inl ⟨t, s, named, found, mem⟩)
      · exact .inl (registered_removeAllTargets.mpr ⟨registered, mem⟩)

/-- An operation honors all identities on a handler, or removes all listeners of it. -/
theorem Alters.honors {v : World} {op : Op} (e : w.Alters op v) (sound : w.Sound)
    (h : HandlerId) : (w.registryOf h).Honors (v.registryOf h) ∨
      (op.Forgets w h ∧ v.registryOf h = ∅) := by
  by_cases clears : op.mayRequest .clear = true
  · cases e with
    | still same =>
        rw [registryOf_of_layout same]
        exact .inl (.refl _)
    | act effect =>
        cases effect with
        | nothing => exact .inl (.refl _)
        | @removeAllListeners name g named present =>
            by_cases here : h = g
            · subst here
              refine .inr ⟨named, ?_⟩
              rw [detachAll, registryOf_setRegistry, if_pos ⟨rfl, present⟩]
              rfl
            · rw [registryOf_detachAll_of_ne here]
              exact .inl (.refl _)
        | _ => cases clears
    | mapper => cases clears
    | dropTranslator => cases clears
  · left
    obtain ⟨requests, all, after⟩ := e.requested h
    rw [after]
    apply (sound.registries h).honors_performAll
    rintro request mem rfl
    exact clears (all _ mem)

theorem Alters.spares_registered {v : World} {op : Op} (e : w.Alters op v) (sound : w.Sound)
    (registered : w.Registered h id l) : op.Spares w h id l v := by
  have kept : v.registryOf = w.registryOf → op.Spares w h id l v := by
    intro same
    left
    rw [Registered, same]
    exact registered
  cases e with
  | still same => exact kept (registryOf_of_layout same)
  | act effect => exact effect.spares sound registered
  | @mapper _ spec _ same => exact kept (registryOf_of_layout (w := (w.addMapperOf spec).2) same)
  | @dropTranslator name t s named found =>
      by_cases target : ⟨h, id⟩ ∈ s.targets
      · exact .inr (.inl (.inl ⟨t, s, named, found, target⟩))
      · by_cases source : h = s.source ∧ id = s.sourceLink
        · exact .inr (.inl (.inr ⟨t, s, named, found, source.1.symm, source.2.symm⟩))
        · exact .inl (registered_dropTranslator.mpr ⟨registered, target, source⟩)

end World

namespace Config

variable {h : HandlerId} {id : ListenerId} {l : Listener} {b c d : Config}

/-- One move of a session that performs only operations which are allowed in the world at that
time. -/
inductive NextIf (allowed : World → Op → Prop) : Config → Config → Prop where
  | step {c d : Config} : c.step = some d → (∀ op, c.due? = some op → allowed c.world op) →
      NextIf allowed c d
  | perform {c : Config} (op : Op) : c.AtRest → allowed c.world op →
      NextIf allowed c (perform op c.world [])

theorem NextIf.next {allowed : World → Op → Prop} (move : NextIf allowed c d) : Next c d := by
  cases move with
  | step move _ => exact .step move
  | perform op rest _ => exact .perform op rest

/-- A session goes on, and nothing in it removes all listeners of a handler. -/
def Lasts (h : HandlerId) : Config → Config → Prop :=
  Relation.ReflTransGen (NextIf fun w op => ¬ op.Forgets w h)

theorem Lasts.path (lasts : Lasts h b c) : Path (fun _ => True) b c := by
  induction lasts with
  | refl => exact .refl trivial
  | tail _ move ih => exact .tail ih move.next trivial

theorem due?_of_running {f : Frame} {stack : List Frame} {op : Op}
    (performs : c = running c.world (f :: stack)) (due : f.due? = some op) :
    c.due? = some op ∧ c.stack = f :: stack := by
  rw [performs]
  exact ⟨due, rfl⟩

theorem Next.honors (move : Next c d) (sound : c.world.Sound) (h : HandlerId) :
    (c.world.registryOf h).Honors (d.world.registryOf h) ∨ d.world.registryOf h = ∅ := by
  cases move with
  | perform op _ => exact ((alters_perform _ [] op).honors sound h).imp_right And.right
  | step move =>
      obtain same | ⟨f, stack, op, -, -, rfl⟩ := step_extends move
      · rw [same.registries]
        exact .inl (.refl _)
      · exact ((alters_perform _ (f :: stack) op).honors sound h).imp_right And.right

section Lasting

variable (move : NextIf (fun w op => ¬ op.Forgets w h) c d) (sound : c.world.Sound)

include move sound

theorem NextIf.honors : (c.world.registryOf h).Honors (d.world.registryOf h) := by
  cases move with
  | perform op _ keeps =>
      exact ((alters_perform _ [] op).honors sound h).resolve_right fun forgets =>
        keeps forgets.1
  | step move keeps =>
      obtain same | ⟨f, stack, op, performs, due, rfl⟩ := step_extends move
      · rw [same.registries]
        exact .refl _
      · have allowed := keeps op (due?_of_running performs due).1
        exact ((alters_perform _ (f :: stack) op).honors sound h).resolve_right fun forgets =>
          allowed forgets.1

/-- It leaves everybody registered whom its operation does not take away. -/
theorem NextIf.registered (registered : c.world.Registered h id l) :
    d.world.Registered h id l ∨ ∃ op, (c.AtRest ∨ c.due? = some op) ∧
      d = Config.perform op c.world c.stack ∧ op.Unregisters c.world h id l := by
  cases move with
  | perform op rest keeps =>
      obtain kept | taken | forgets :=
        (alters_perform c.world [] op).spares_registered sound registered
      · exact .inl kept
      · rw [atRest_iff.mp rest]
        exact .inr ⟨op, .inl rest, rfl, taken⟩
      · exact absurd forgets keeps
  | step move keeps =>
      obtain same | ⟨f, stack, op, performs, due, rfl⟩ := step_extends move
      · left
        rw [World.Registered, same.registries]
        exact registered
      · obtain ⟨due, top⟩ := due?_of_running performs due
        obtain kept | taken | forgets :=
          (alters_perform c.world (f :: stack) op).spares_registered sound registered
        · exact .inl kept
        · rw [top]
          exact .inr ⟨op, .inr due, rfl, taken⟩
        · exact absurd forgets (keeps op due)

end Lasting

theorem Lasts.honors (lasts : Lasts h b c) (sound : b.world.Sound) :
    (b.world.registryOf h).Honors (c.world.registryOf h) := by
  induction lasts with
  | refl => exact .refl _
  | tail first move ih => exact ih.trans (move.honors ((Lasts.path first).sound sound))

theorem perform_removeListenerId {w : World} {name : String} {stack : List Frame}
    (named : w.handlerNamed? name = some h) (present : (w.handler? h).isSome = true)
    (nobody : (w.registryOf h).get? id = none) :
    perform (.act (.removeListenerId name (some id))) w stack =
      answered w stack (.truth false) := by
  obtain ⟨s, found⟩ := Option.isSome_iff_exists.mp present
  simp only [perform, World.execute, World.onHandler, named, found, World.detach, nobody]

theorem perform_removeListenerId_of_registered {w : World} {name : String}
    (named : w.handlerNamed? name = some h) (present : (w.handler? h).isSome = true)
    (registered : w.Registered h id l) (stack : List Frame) :
    ∃ v, perform (.act (.removeListenerId name (some id))) w stack =
        answered v stack (.truth true) ∧
      ∀ g other m, v.Registered g other m ↔ w.Registered g other m ∧ ¬ (g = h ∧ other = id) := by
  obtain ⟨s, found⟩ := Option.isSome_iff_exists.mp present
  have removes : (w.detach h id).1 = true := by
    rw [World.detach, show (w.registryOf h).get? id = some l from registered]
  refine ⟨(w.detach h id).2, ?_, fun g other m => World.registered_detach⟩
  simp only [perform, World.execute, World.onHandler, named, found, removes]

theorem perform_addListener {w : World} (sound : w.Sound) {name v : String} (stack : List Frame)
    (named : w.handlerNamed? name = some h) (present : (w.handler? h).isSome = true)
    (known : (w.view? v).isSome = true) :
    ∃ other, (perform (.act (.addListener name v)) w stack).reply = some (.registered other) ∧
      (perform (.act (.addListener name v)) w stack).world.Registered h other (.view v) := by
  obtain ⟨s, found⟩ := Option.isSome_iff_exists.mp present
  obtain ⟨view, known⟩ := Option.isSome_iff_exists.mp known
  simp only [perform, World.execute, World.onHandler, named, found, World.onView, known]
  exact ⟨_, rfl, World.registered_attach_self sound present (.view v)⟩

/-- Identities are not given twice. Once an identity on a handler was given to a listener, and as
long as nothing removes all listeners of the handler at once, whatever else goes on, on this handler
and on others, from outside and from within callbacks:

* it means this listener or nobody;
* nobody who is registered anew on the handler gets it, neither in any move nor when a view is
  added, which is answered with the identity that the view has then;
* the listener keeps it unless an operation takes this listener away;
* while the listener is there, the removal of the identity is answered with `true` and takes this
  registration away, and no other;
* and when the listener is gone, it means nobody ever after, and its removal is answered with
  `false` and changes nothing. -/
theorem means_same_of_lasts (sound : b.world.Sound) (admissible : b.world.Admissible)
    (given : b.world.Registered h id l) (lasts : Lasts h b c) :
    (∀ m, c.world.Registered h id m → m = l) ∧
    (∀ d other m, Next c d → d.world.Registered h other m → ¬ c.world.Registered h other m →
      other ≠ id) ∧
    (∀ name v stack, c.world.handlerNamed? name = some h → (c.world.view? v).isSome = true →
      .view v ∉ c.world.listeners h → ∃ other,
        (perform (.act (.addListener name v)) c.world stack).reply = some (.registered other) ∧
        (perform (.act (.addListener name v)) c.world stack).world.Registered h other (.view v) ∧
        other ≠ id) ∧
    (∀ d, NextIf (fun w op => ¬ op.Forgets w h) c d → c.world.Registered h id l →
      d.world.Registered h id l ∨ ∃ op, (c.AtRest ∨ c.due? = some op) ∧
        d = perform op c.world c.stack ∧ op.Unregisters c.world h id l) ∧
    (∀ name stack, c.world.handlerNamed? name = some h → c.world.Registered h id l → ∃ v,
      perform (.act (.removeListenerId name (some id))) c.world stack =
          answered v stack (.truth true) ∧
        ∀ g other m, v.Registered g other m ↔
          c.world.Registered g other m ∧ ¬ (g = h ∧ other = id)) ∧
    (¬ c.world.Registered h id l → ∀ d, Lasts h c d → (∀ m, ¬ d.world.Registered h id m) ∧
      ∀ name stack, d.world.handlerNamed? name = some h →
        perform (.act (.removeListenerId name (some id))) d.world stack =
          answered d.world stack (.truth false)) := by
  obtain ⟨seen, before⟩ := lasts.honors sound id (Registry.seen_of_get? given)
  have sound : c.world.Sound := lasts.path.sound sound
  have admissible : c.world.Admissible := lasts.path.admissible admissible
  have same : ∀ m, c.world.Registered h id m → m = l := by
    intro m registered
    exact World.Registered.unique (before m registered) given
  have fresh : ∀ {w : World} {other m}, ((c.world.registryOf h).Honors (w.registryOf h) ∨
      w.registryOf h = ∅) → w.Registered h other m → ¬ c.world.Registered h other m →
      other ≠ id := by
    rintro w other m honors registered new rfl
    obtain honors | nobody := honors
    · exact new ((honors other seen).2 m registered)
    · rw [World.Registered, nobody, Registry.get?_empty] at registered
      cases registered
  refine ⟨same, ?_, ?_, ?_, ?_, ?_⟩
  · intro d other m next registered new
    exact fresh (next.honors sound h) registered new
  · intro name v stack named known absent
    obtain ⟨other, replied, registered⟩ :=
      perform_addListener sound stack named (admissible.present named) known
    refine ⟨other, replied, registered, ?_⟩
    apply fresh (((alters_perform _ stack _).honors sound h).imp_right And.right) registered
    intro old
    exact absent ((World.exists_registered_iff sound).mp ⟨other, old⟩)
  · intro d move registered
    exact move.registered sound registered
  · intro name stack named registered
    exact perform_removeListenerId_of_registered named (admissible.present named) registered stack
  · intro gone d lasts'
    have nobody : ∀ m, ¬ d.world.Registered h id m := by
      intro m registered
      have old := (lasts'.honors sound id seen).2 m registered
      exact gone (same m old ▸ old)
    refine ⟨nobody, fun name stack named => ?_⟩
    apply perform_removeListenerId named
    · exact (lasts'.path.admissible admissible).present named
    · exact Option.eq_none_iff_forall_ne_some.mpr nobody

theorem lasts_of_follow {p : Config → Bool} {n : Nat} (followed : follow p n c = some d)
    (spares : ∀ c, p c = true → ∀ op, c.due? = some op → ¬ op.Forgets c.world h) :
    Lasts h c d := by
  induction n generalizing c with
  | zero =>
      rw [follow] at followed
      split at followed
      · cases followed
        exact .refl
      · cases followed
  | succ n ih =>
      rw [follow] at followed
      split at followed
      · rename_i passes
        obtain ⟨e, move, rest⟩ := Option.bind_eq_some_iff.mp followed
        exact .head (.step move (spares c passes)) (ih rest)
      · cases followed

section Examples

/-- A view that puts another listener into the slot of one that it takes away. -/
def reoccupying : List (Action Op) :=
  [.createHandler "h" .plain, .createListener "a" onlooker, .createListener "b" onlooker,
    .createListener "v" { onlooker with
      script := fun _ => some [.act (.removeListener "h" "a"), .act (.addListener "h" "b")]
      times := 1 },
    .addListener "h" "a", .addListener "h" "v"]

/-- Whether the operation that is due removes all listeners of a handler. -/
def isForgetting (c : Config) : Bool :=
  match c.due? with
  | some (.act (.removeAllListeners _)) => true
  | _ => false

/-- Whether the operation that is due adds a view to a handler. -/
def isAdding (name v : String) (c : Config) : Bool :=
  match c.due? with
  | some (.act (.addListener g k)) => decide (g = name ∧ k = v)
  | _ => false

theorem not_forgets_of_not_isForgetting {op : Op} (spares : isForgetting c = false)
    (due : c.due? = some op) : ¬ op.Forgets c.world h := by
  intro forgets
  rw [isForgetting, due] at spares
  split at spares
  · cases spares
  · rename_i other
    cases op with
    | act a =>
        cases a with
        | removeAllListeners name => exact other name rfl
        | _ => cases forgets
    | _ => cases forgets

theorem step_of_isAdding {name v : String} (adds : isAdding name v c = true) :
    c.due? = some (.act (.addListener name v)) ∧
      c.step = some (perform (.act (.addListener name v)) c.world c.stack) := by
  rw [isAdding] at adds
  split at adds
  · rename_i g k due
    obtain ⟨rfl, rfl⟩ := of_decide_eq_true adds
    refine ⟨due, ?_⟩
    obtain ⟨w, stack, reply⟩ := c
    cases stack with
    | nil => cases due
    | cons f stack =>
        cases reply with
        | some r => cases due
        | none => exact congrArg some (advance_of_due w stack due)
  · cases adds

/-- Within a callback another view gets the slot of one that has gone, under an identity of its
own. -/
theorem means_same_of_lasts_reoccupying :
    ∃ b c d other, Reached b ∧ b.world.Registered ⟨1⟩ ⟨1, 1⟩ (.view "a") ∧ Lasts ⟨1⟩ b c ∧
      c.stack.length = 4 ∧ c.step = some d ∧ d.reply = some (.registered other) ∧
      d.world.Registered ⟨1⟩ other (.view "b") ∧ d.world.Registered ⟨1⟩ ⟨1, 3⟩ (.view "b") ∧
      other ≠ ⟨1, 1⟩ ∧
      perform (.act (.removeListenerId "h" (some ⟨1, 1⟩))) d.world d.stack =
        answered d.world d.stack (.truth false) := by
  obtain ⟨reply, built⟩ := reached_built reoccupying
  have given : (World.built reoccupying).Registered ⟨1⟩ ⟨1, 1⟩ (.view "a") := by
    unfold World.Registered
    decide +kernel
  let start := perform (.move .highlight "h" ⟨none, [.key (.int 1)]⟩) (.built reoccupying) []
  have runs : (follow (fun c => !isForgetting c) 7 start).any (fun c =>
      isAdding "h" "b" c && decide (c.stack.length = 4) && !isForgetting c &&
      decide (c.world.handlerNamed? "h" = some ⟨1⟩) && (c.world.view? "b").isSome &&
      decide (.view "b" ∉ c.world.listeners ⟨1⟩) &&
      decide ((c.world.registryOf ⟨1⟩).get? ⟨1, 1⟩ = none) &&
      decide (((perform (.act (.addListener "h" "b")) c.world c.stack).world.registryOf ⟨1⟩).get?
        ⟨1, 3⟩ = some (.view "b")) &&
      decide ((perform (.act (.addListener "h" "b")) c.world c.stack).world.handlerNamed? "h" =
        some ⟨1⟩)) = true := by
    decide +kernel
  obtain ⟨c, followed, passes⟩ := (Option.any_eq_true _ _).mp runs
  simp only [Bool.and_eq_true, decide_eq_true_eq, Bool.not_eq_true'] at passes
  obtain ⟨⟨⟨⟨⟨⟨⟨⟨adds, high⟩, spares⟩, named⟩, known⟩, absent⟩, gone⟩, reused⟩, named'⟩ := passes
  obtain ⟨due, moves⟩ := step_of_isAdding adds
  have lasts : Lasts ⟨1⟩ ⟨.built reoccupying, [], reply⟩ c := by
    have opens : ¬ (Op.move .highlight "h" ⟨none, [.key (.int 1)]⟩).Forgets
        (.built reoccupying) ⟨1⟩ := not_false
    refine .head (.perform _ (atRest_iff.mpr rfl) opens) ?_
    apply lasts_of_follow followed
    intro c passes op due
    exact not_forgets_of_not_isForgetting (by simpa using passes) due
  obtain ⟨-, -, answers, -, -, dead⟩ :=
    means_same_of_lasts built.sound built.accounted.admissible given lasts
  obtain ⟨other, replied, registered, differs⟩ := answers "h" "b" c.stack named known absent
  have further : Lasts ⟨1⟩ c (perform (.act (.addListener "h" "b")) c.world c.stack) := by
    refine .single (.step moves ?_)
    intro op due
    exact not_forgets_of_not_isForgetting spares due
  have unregistered : ¬ c.world.Registered ⟨1⟩ ⟨1, 1⟩ (.view "a") := by
    rw [World.Registered, gone]
    simp
  obtain ⟨-, refused⟩ := dead unregistered _ further
  exact ⟨_, c, _, other, built, given, lasts, high, moves, replied, registered, reused, differs,
    refused "h" _ named'⟩

end Examples

end Config

end HighlightSync
