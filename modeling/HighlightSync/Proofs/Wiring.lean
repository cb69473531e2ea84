import HighlightSync.Proofs.Order
import HighlightSync.Proofs.Retention

/-!
# Who is registered

The listeners of a handler are the views that users have registered there and one link for each
live translator that leads from it or to it, and no other (`World.Wired`), as long as users take
listeners away one by one and by name. So the number of listeners of a handler is known from
the views and the translators.

Targets stand in the order in which they were added: in one move targets go, or one comes
behind all others (`Next.redirects`), so that one which comes while another is there stays
behind it for as long as both stay (`sublist_targetsOf`).
-/

namespace HighlightSync

namespace Listener

/-- Whether a listener was registered by a user. -/
def isView : Listener → Bool
  | .view _ => true
  | _ => false

/-- Whether a listener passes changes on to targets. -/
def isSourceLink : Listener → Bool
  | .sourceLink _ => true
  | _ => false

/-- Whether a listener passes resets back to a source. -/
def isResetLink : Listener → Bool
  | .resetLink _ => true
  | _ => false

theorem length_eq_countP (ls : List Listener) :
    ls.length = ls.countP isView + ls.countP isSourceLink + ls.countP isResetLink := by
  induction ls with
  | nil => rfl
  | cons l ls ih => cases l <;> simp [List.countP_cons, isView, isSourceLink, isResetLink] <;> omega

end Listener

namespace World

/-- How many live translators lead from a handler. -/
def outgoing (w : World) (h : HandlerId) : Nat :=
  w.translators.items.toList.countP fun s => s.live && decide (s.source = h)

/-- How many live translators lead to a handler. -/
def incoming (w : World) (h : HandlerId) : Nat :=
  w.translators.items.toList.countP fun s => s.live && decide (h ∈ s.targetHandlers)

/-- The target handlers of a translator, in order. -/
def targetsOf (w : World) (t : TranslatorId) : List HandlerId :=
  (w.translator? t).elim [] TranslatorState.targetHandlers

/-- Registered are the links that live translators keep, each once, and these alone. -/
structure Wired (w : World) : Prop where
  /-- What a live translator keeps is registered, and nothing else that belongs to it. -/
  links : ∀ t s, w.translator? t = some s → s.live = true → ∀ h id l, l.owner? = some t →
    (w.Registered h id l ↔ s.Keeps h id l)
  sourceLinks : ∀ t s, w.translator? t = some s → s.live = true → ∀ h,
    (w.listeners h).count (.sourceLink t) = if h = s.source then 1 else 0
  resetLinks : ∀ t s, w.translator? t = some s → s.live = true → ∀ h,
    (w.listeners h).count (.resetLink t) = if h ∈ s.targetHandlers then 1 else 0
  targets : ∀ t s, w.translator? t = some s → s.targetHandlers.Nodup ∧ s.source ∉ s.targetHandlers
  dropped : ∀ t s, w.translator? t = some s → s.live = false → ∀ h l, l.owner? = some t →
    l ∉ w.listeners h
  counts : ∀ h, (w.registryOf h).size =
    (w.listeners h).countP Listener.isView + w.outgoing h + w.incoming h

section Counts

variable {w : World}

/-- The translators that were ever made. -/
def translatorIds (w : World) : List TranslatorId :=
  (List.range w.translators.size).map fun n => ⟨n + 1⟩

theorem mem_translatorIds {t : TranslatorId} {s : TranslatorState}
    (found : w.translator? t = some s) : t ∈ w.translatorIds := by
  obtain ⟨positive, bound⟩ := Store.get?_isSome_iff.mp (Option.isSome_iff_exists.mpr ⟨s, found⟩)
  obtain ⟨n⟩ := t
  have here : n - 1 + 1 = n := by
    change 0 < n at positive
    omega
  exact List.mem_map.mpr ⟨n - 1, List.mem_range.mpr (by change n ≤ _ at bound; omega), by rw [here]⟩

theorem nodup_translatorIds (w : World) : w.translatorIds.Nodup :=
  List.nodup_range.map fun _ _ same => Nat.succ.inj (congrArg TranslatorId.number same)

theorem countP_translators (w : World) (p : TranslatorState → Bool) :
    w.translators.items.toList.countP p =
      w.translatorIds.countP fun t => (w.translator? t).any p := by
  have found : w.translators.items.toList.map some = w.translatorIds.map w.translator? := by
    refine List.ext_getElem (by simp [translatorIds, Store.size]) fun n bound _ => ?_
    simp at bound
    simp [translatorIds, translator?, Store.get?, bound]
  calc
    _ = (w.translators.items.toList.map some).countP fun s => s.any p := by
      rw [List.countP_map]
      rfl
    _ = _ := by
      rw [found, List.countP_map]
      rfl

/-- Links of one kind are as many as the translators that have such a link. -/
theorem countP_links {h : HandlerId} (once : (w.listeners h).Nodup)
    (link : TranslatorId → Listener) (distinct : Function.Injective link)
    (isLink : Listener → Bool) (kind : ∀ l, isLink l = true ↔ ∃ t, link t = l)
    {p : TranslatorState → Bool}
    (mem : ∀ t, link t ∈ w.listeners h ↔ (w.translator? t).any p = true) :
    (w.listeners h).countP isLink = w.translators.items.toList.countP p := by
  have perm : ((w.listeners h).filter isLink).Perm
      ((w.translatorIds.filter fun t => (w.translator? t).any p).map link) := by
    refine (List.perm_ext_iff_of_nodup (once.filter _)
      ((w.nodup_translatorIds.filter _).map distinct)).mpr fun l => ?_
    rw [List.mem_filter, kind, List.mem_map]
    constructor
    · rintro ⟨registered, t, rfl⟩
      have leads := (mem t).mp registered
      obtain ⟨s, found, -⟩ := (Option.any_eq_true _ _).mp leads
      exact ⟨t, List.mem_filter.mpr ⟨mem_translatorIds found, leads⟩, rfl⟩
    · rintro ⟨t, leads, rfl⟩
      exact ⟨(mem t).mpr (List.mem_filter.mp leads).2, t, rfl⟩
  rw [List.countP_eq_length_filter, perm.length_eq, List.length_map, countP_translators,
    List.countP_eq_length_filter]

end Counts

/-- Links that all belong somewhere, and are all registered, are well wired. -/
theorem Anchored.wired {w : World} (anchored : w.Anchored) (sound : w.Sound)
    (orderly : w.Orderly) : w.Wired := by
  have once : ∀ h, (w.listeners h).Nodup := fun h => (sound.registries h).nodup
  have links : ∀ t s, w.translator? t = some s → s.live = true → ∀ h id l, l.owner? = some t →
      (w.Registered h id l ↔ s.Keeps h id l) := fun t s found live h id l owner =>
    ⟨fun registered => (orderly.keeps found owner registered).2,
      anchored.links t s found live h id l owner⟩
  have listed : ∀ t s, w.translator? t = some s → s.live = true → ∀ h l, l.owner? = some t →
      (l ∈ w.listeners h ↔ ∃ id, s.Keeps h id l) := fun t s found live h l owner => by
    rw [← exists_registered_iff sound]
    exact exists_congr fun id => links t s found live h id l owner
  have sources : ∀ t s, w.translator? t = some s → s.live = true → ∀ h,
      (.sourceLink t ∈ w.listeners h ↔ h = s.source) := fun t s found live h =>
    (listed t s found live h _ rfl).trans
      ⟨fun ⟨_, kept⟩ => kept.1.symm, fun here => ⟨_, here.symm, rfl⟩⟩
  have resets : ∀ t s, w.translator? t = some s → s.live = true → ∀ h,
      (.resetLink t ∈ w.listeners h ↔ h ∈ s.targetHandlers) := fun t s found live h => by
    refine (listed t s found live h _ rfl).trans ⟨fun ⟨_, kept⟩ => List.mem_map_of_mem kept, ?_⟩
    intro target
    obtain ⟨⟨_, id⟩, mem, rfl⟩ := List.mem_map.mp target
    exact ⟨id, mem⟩
  have dropped : ∀ t s, w.translator? t = some s → s.live = false → ∀ h l, l.owner? = some t →
      l ∉ w.listeners h := fun t s found gone h l owner =>
    IsDead.not_mem_listeners ⟨s, found, gone⟩ sound orderly owner h
  -- Whose link is listening somewhere can be read off the translators alone.
  have leads : ∀ (link : TranslatorId → Listener), (∀ t, (link t).owner? = some t) →
      ∀ (P : TranslatorState → Prop) [DecidablePred P] h,
      (∀ t s, w.translator? t = some s → s.live = true → (link t ∈ w.listeners h ↔ P s)) →
      ∀ t, link t ∈ w.listeners h ↔
        (w.translator? t).any (fun s => s.live && decide (P s)) = true := by
    intro link owner P _ h of_live t
    rw [Option.any_eq_true]
    constructor
    · intro mem
      obtain ⟨id, registered⟩ := (exists_registered_iff sound).mpr mem
      obtain ⟨s, found, live, -⟩ := orderly.links h id _ t (owner t) registered
      exact ⟨s, found, by simp [live, (of_live t s found live).mp mem]⟩
    · rintro ⟨s, found, there⟩
      obtain ⟨live, there⟩ := (Bool.and_eq_true _ _).mp there
      exact (of_live t s found live).mpr (of_decide_eq_true there)
  refine ⟨links, fun t s found live h => ?_, fun t s found live h => ?_,
    fun t s found => ⟨orderly.distinct t s found, anchored.apart t s found⟩, dropped, fun h => ?_⟩
  · rw [(once h).count]
    simp only [sources t s found live h]
  · rw [(once h).count]
    simp only [resets t s found live h]
  · have out := countP_links (once h) .sourceLink (fun _ _ => Listener.sourceLink.inj)
      Listener.isSourceLink (fun l => by cases l <;> simp [Listener.isSourceLink])
      (leads .sourceLink (fun _ => rfl) (fun s => s.source = h) h fun t s found live => by
        rw [sources t s found live h, eq_comm])
    have into := countP_links (once h) .resetLink (fun _ _ => Listener.resetLink.inj)
      Listener.isResetLink (fun l => by cases l <;> simp [Listener.isResetLink])
      (leads .resetLink (fun _ => rfl) (fun s => h ∈ s.targetHandlers) h fun t s found live =>
        resets t s found live h)
    rw [(sound.registries h).size_eq]
    change (w.listeners h).length = _
    rw [Listener.length_eq_countP, out, into]
    rfl

section Targets

variable {w w' : World} {t : TranslatorId} {s : TranslatorState}

/-- From a world to another, while the targets of each translator turn over at most once. -/
def Redirects (w w' : World) : Prop := ∀ u, Turnover (w.targetsOf u) (w'.targetsOf u)

theorem Redirects.of_same (same : w'.translator? = w.translator?) : w.Redirects w' := fun u => by
  rw [targetsOf, targetsOf, same]
  exact .refl _

theorem Redirects.refl (w : World) : w.Redirects w := .of_same rfl

theorem Redirects.of_layout (same : w'.layout = w.layout) : w.Redirects w' :=
  .of_same (translator?_of_layout same)

theorem targetsOf_of_found (found : w.translator? t = some s) :
    w.targetsOf t = s.targetHandlers := by
  rw [targetsOf, found]
  rfl

theorem Redirects.revise {s' : TranslatorState}
    (translators : ∀ u, w'.translator? u = if u = t then some s' else w.translator? u)
    (own : Turnover (w.targetsOf t) s'.targetHandlers) : w.Redirects w' := fun u => by
  rw [targetsOf, targetsOf, translators]
  split
  · rename_i here
    exact here ▸ own
  · exact .refl _

theorem targetsOf_setMapper (w : World) (t : TranslatorId) (m : Option MapperId) :
    (w.setMapper t m).targetsOf = w.targetsOf := by
  funext u
  rw [targetsOf, World.setMapper, translator?_modifyTranslator, targetsOf]
  split
  · cases w.translator? u <;> rfl
  · rfl

theorem redirects_detachListener (w : World) (h : HandlerId) (l : Listener) :
    w.Redirects (w.detachListener h l).2 := by
  rw [detachListener]
  split
  · exact .of_same (sameNames_detach w h _).translator?
  · exact .refl w

theorem redirects_addTarget (found : w.translator? t = some s) (h : HandlerId) :
    w.Redirects (w.addTarget t s h).2 := by
  by_cases source : h = s.source
  · rw [World.addTarget, if_pos source]
    exact .refl w
  by_cases old : h ∈ s.targetHandlers
  · rw [World.addTarget, if_neg source, if_pos old]
    exact .refl w
  refine .revise (translator?_addTarget found source old) (.inr ⟨h, ?_, ?_⟩)
  · exact targetsOf_of_found found ▸ old
  · exact targetsOf_of_found found ▸ List.map_append

theorem redirects_removeTarget (found : w.translator? t = some s) (h : HandlerId) :
    w.Redirects (w.removeTarget t s h).2 := by
  refine .revise (translator?_removeTarget found h) (.inl ?_)
  exact targetsOf_of_found found ▸ List.filter_sublist.map _

theorem redirects_introduce (w : World) (name : String) (source : HandlerId) :
    w.Redirects (w.introduce name source) :=
  .revise (translator?_addTranslator w source) (.inl (List.nil_sublist _))

/-- In one action targets go, or one comes behind all others. -/
theorem Effect.redirects {a : Action Op} (h : w.Effect a w') : w.Redirects w' := by
  cases h with
  | nothing => exact .refl w
  | addListener => exact .of_same (sameNames_attach w _ _).translator?
  | removeListener => exact redirects_detachListener w _ _
  | removeListenerId => exact .of_same (sameNames_detach w _ _).translator?
  | createTranslator => exact redirects_introduce w _ _
  | @createMapped name _ _ h =>
      intro u
      rw [targetsOf_setMapper]
      exact redirects_introduce w name h u
  | addTarget _ found => exact redirects_addTarget found _
  | removeTarget _ found => exact redirects_removeTarget found _
  | removeAllTargets _ found =>
      exact .revise (translator?_removeAllTargets found) (.inl (List.nil_sublist _))
  | createHandler | dropHandler | createListener | removeAllListeners => exact .of_same rfl

/-- Beginning an operation redirects at most once. -/
theorem Alters.redirects {op : Op} (h : w.Alters op w') : w.Redirects w' := by
  cases h with
  | still same => exact .of_layout same
  | act effect => exact effect.redirects
  | @mapper _ spec _ same =>
      exact .of_same (translator?_of_layout (w := (w.addMapperOf spec).2) same)
  | dropTranslator _ found =>
      exact .revise (translator?_dropTranslator found) (.inl (List.nil_sublist _))

end Targets

end World

namespace Config

theorem Next.redirects {c d : Config} (h : Next c d) : c.world.Redirects d.world := by
  cases h with
  | perform op _ => exact (alters_perform _ _ op).redirects
  | step h =>
      obtain same | ⟨u, m, n, replaced⟩ | ⟨f, stack, op, -, -, rfl⟩ := step_layout h
      · exact .of_layout same
      · intro t
        rw [replaced, ← World.targetsOf_setMapper c.world u m]
        exact .refl _
      · exact (alters_perform _ _ op).redirects

/-- A target that comes while another is there stays behind it for as long as both stay. -/
theorem sublist_targetsOf {c₀ c₁ c : Config} {t : TranslatorId} {a b : HandlerId}
    (sound : c₀.world.Sound) (orderly : c₀.world.Orderly) (old : a ∈ c₀.world.targetsOf t)
    (new : b ∉ c₀.world.targetsOf t) (comes : Next c₀ c₁)
    (stay : Path (fun d => a ∈ d.world.targetsOf t ∧ b ∈ d.world.targetsOf t) c₁ c) :
    [a, b].Sublist (c.world.targetsOf t) := by
  refine sublist_of_path (I := fun w => w.Sound ∧ w.Orderly) (fun w => w.targetsOf t)
    (fun _ _ holds next => ⟨(next.rewires holds.1).1, next.orderly holds.2 holds.1⟩)
    (fun w holds => ?_) (fun _ _ _ next => next.redirects t) ⟨sound, orderly⟩ old new comes stay
  rw [World.targetsOf]
  cases found : w.translator? t with
  | none => exact .nil
  | some s => exact holds.2.distinct t s found

/-- In every session in which listeners are taken away by name only, the links of live
translators are registered where these keep them, each once, and no others are; targets stand
in the order in which they were added; and whoever drops a translator, at any nesting, ends its
life, so that no handler has a link of it from then on. This holds at any nesting. -/
theorem wired_of_reachedBy {c : Config} (run : ReachedBy (fun op => op.severs = false) c) :
    c.world.Wired ∧
      (∀ c₀ c₁ t a b, c₀.world.Sound → c₀.world.Orderly → a ∈ c₀.world.targetsOf t →
        b ∉ c₀.world.targetsOf t → Next c₀ c₁ →
        Path (fun d => a ∈ d.world.targetsOf t ∧ b ∈ d.world.targetsOf t) c₁ c →
        [a, b].Sublist (c.world.targetsOf t)) ∧
      ∀ b name t stack, b.world.Sound → b.world.Orderly →
        b.world.translatorNamed? name = some t → stack.any (Frame.swapsMapperOf t) = false →
        Next b (perform (.dropTranslator name) b.world stack) →
        Path (fun _ => True) (perform (.dropTranslator name) b.world stack) c →
        c.world.IsDead t ∧ ∀ h l, l.owner? = some t → l ∉ c.world.listeners h :=
  ⟨run.anchored.wired run.reached.sound run.reached.orderly,
    fun _ _ _ _ _ sound orderly old new comes stay =>
      sublist_targetsOf sound orderly old new comes stay,
    fun _ _ _ _ sound orderly named idle drops later =>
      severed_of_dropTranslator sound orderly named idle drops later⟩

/-- Two translators that lead to each other's sources, of which the first is about to get back
a target that it had lost, and the second still has its name. -/
def crossing : List (Action Op) :=
  [.createHandler "a" .plain, .createHandler "b" .plain, .createHandler "c" .plain,
    .createListener "v" onlooker, .addListener "b" "v",
    .createTranslator "t" "a" (some echo), .addTarget "t" "b", .addTarget "t" "c",
    .createTranslator "u" "b" none, .addTarget "u" "a", .removeTarget "t" "b"]

/-- The second translator has its links registered until it is dropped. When it is, and the first
gets its target back, the links of the first are registered and none of the second, and the target
that came back is the last. -/
theorem wired_crossing :
    let u := World.built crossing
    let w := (perform (.dropTranslator "u") u []).world
    let v := (perform (.act (.addTarget "t" "b")) w []).world
    (∃ s, v.translator? ⟨1⟩ = some s ∧ s.live = true) ∧ v.Wired ∧
      [⟨3⟩, ⟨2⟩].Sublist (v.targetsOf ⟨1⟩) ∧
      .sourceLink ⟨2⟩ ∈ u.listeners ⟨2⟩ ∧ .resetLink ⟨2⟩ ∈ u.listeners ⟨1⟩ ∧ v.IsDead ⟨2⟩ ∧
      ∀ h, .sourceLink ⟨2⟩ ∉ v.listeners h ∧ .resetLink ⟨2⟩ ∉ v.listeners h := by
  intro u w v
  obtain ⟨reply, built⟩ : ∃ reply, ReachedBy (fun op => op.severs = false)
      ⟨u, [], reply⟩ := reachedBy_built crossing (by decide)
  have drops : Next ⟨u, [], reply⟩ (perform (.dropTranslator "u") u []) :=
    .perform (.dropTranslator "u") (atRest_iff.mpr rfl)
  have dropped := built.tail (.perform (.dropTranslator "u") (atRest_iff.mpr rfl) rfl)
  have rest : (perform (.dropTranslator "u") u []).AtRest := atRest_iff.mpr (by decide +kernel)
  have adds := Next.perform (.act (.addTarget "t" "b")) rest
  have added := dropped.tail (.perform (.act (.addTarget "t" "b")) rest rfl)
  obtain ⟨wired, ordered, severed⟩ := wired_of_reachedBy added
  have live : (v.translator? ⟨1⟩).any TranslatorState.live = true := by decide +kernel
  have old : ⟨3⟩ ∈ w.targetsOf ⟨1⟩ := by decide +kernel
  have new : ⟨2⟩ ∉ w.targetsOf ⟨1⟩ := by decide +kernel
  have both : ⟨3⟩ ∈ v.targetsOf ⟨1⟩ ∧ ⟨2⟩ ∈ v.targetsOf ⟨1⟩ := by decide +kernel
  have named : u.translatorNamed? "u" = some ⟨2⟩ := by decide +kernel
  have links : .sourceLink ⟨2⟩ ∈ u.listeners ⟨2⟩ ∧ .resetLink ⟨2⟩ ∈ u.listeners ⟨1⟩ := by
    decide +kernel
  have sound := (ReachedBy.reached built).sound
  have orderly := (ReachedBy.reached built).orderly
  obtain ⟨dead, silent⟩ := severed _ "u" ⟨2⟩ [] sound orderly named rfl drops
    (.tail (.refl trivial) adds trivial)
  exact ⟨(Option.any_eq_true _ _).mp live, wired, ordered _ _ ⟨1⟩ ⟨3⟩ ⟨2⟩
    (drops.rewires sound).1 (drops.orderly orderly sound) old new adds (.refl both), links.1,
    links.2, dead, fun h => ⟨silent h _ rfl, silent h _ rfl⟩⟩

end Config

end HighlightSync
