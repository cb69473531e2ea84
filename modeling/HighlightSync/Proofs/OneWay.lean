import HighlightSync.Proofs.Sweeping

/-!
# A translator that nobody else interferes with

Let a translator be the only one on its source and its targets, with mappers that answer by the
key alone, run nothing and never fail (`Layout.OneWay`), and let all these handlers be empty at
first. Whatever is called on the source then, whichever of them is reset and however often the
mapper is swapped, all targets hold the same set, and the source accounts for each key in it,
by the mapper that was asked for last (`synced_of_oneWay`).

The targets need not hold all that is made of the keys of the source. When two of these have
a fine key in common and one is unhighlighted, the fine key goes, though the other still stands
for it. They do hold all of it while the mapper gives disjoint answers (`World.Synced`).
-/

namespace HighlightSync

/-- The fine keys that a mapper makes of a key: none, if there is no mapper. -/
def fineKeys (mapper : Option MapperState) (k : Key) : KeySet :=
  match mapper.elim (.ok none) fun s => s.answer 0 k with
  | .ok (some keys) => keys
  | _ => ∅

/-- Distinct keys have no fine key in common. -/
def AnswersDisjoint (mapper : Option MapperState) : Prop :=
  ∀ k k' j, j ∈ fineKeys mapper k → j ∈ fineKeys mapper k' → k = k'

namespace Layout

/-- The mapper that a translator has, if it has one. -/
def mapperOf (L : Layout) (t : TranslatorId) : Option MapperState :=
  ((L.translator? t).bind TranslatorState.mapper).bind L.mapper

/-- A live translator leads from a source to targets, its mapper is pure if it has one, and
its links are registered on these handlers and otherwise only views that only ask. -/
structure OneWay (L : Layout) (t : TranslatorId) (source : HandlerId)
    (targets : List HandlerId) : Prop where
  translator : ∃ s, L.translator? t = some s ∧ s.live = true ∧ s.source = source ∧
    s.targetHandlers = targets ∧ ∀ m, s.mapper = some m → ∃ ms, L.mapper m = some ms ∧ ms.Pure
  onSource : L.Attended source [.sourceLink t]
  onTargets : ∀ h ∈ targets, L.Attended h [.resetLink t]

namespace OneWay

variable {L : Layout} {t : TranslatorId} {source : HandlerId} {targets : List HandlerId}

theorem fineKeys_mapperOf {s : TranslatorState} (found : L.translator? t = some s) {m : MapperId}
    (mapper : s.mapper = some m) (k : Key) : fineKeys (L.mapperOf t) k = L.fine m k := by
  rw [mapperOf, found, Option.bind_some, mapper]
  rfl

theorem exists_of_mem_fineKeys {k j : Key} (mem : j ∈ fineKeys (L.mapperOf t) k) :
    ∃ s m, L.translator? t = some s ∧ s.mapper = some m ∧ j ∈ L.fine m k := by
  cases given : (L.translator? t).bind TranslatorState.mapper with
  | none =>
      rw [mapperOf, given] at mem
      exact absurd mem (KeySet.not_mem_empty j)
  | some m =>
      rw [mapperOf, given] at mem
      obtain ⟨s, found, mapper⟩ := Option.bind_eq_some_iff.mp given
      exact ⟨s, m, found, mapper, mem⟩

theorem leads_fine (linked : L.OneWay t source targets) {h : HandlerId} (target : h ∈ targets)
    {k j : Key} (mem : j ∈ fineKeys (L.mapperOf t) k) : L.Leads (source, some k) (h, some j) := by
  obtain ⟨s, m, found, mapper, fine⟩ := exists_of_mem_fineKeys mem
  obtain ⟨s', found', live, -, rfl, -⟩ := linked.translator
  cases found.symm.trans found'
  exact ⟨_, linked.onSource.registered _ List.mem_cons_self, .fine found live mapper target fine⟩

theorem leads_down (linked : L.OneWay t source targets) {h : HandlerId} (target : h ∈ targets) :
    L.Leads (source, none) (h, none) := by
  obtain ⟨s, found, live, -, rfl, -⟩ := linked.translator
  exact ⟨_, linked.onSource.registered _ List.mem_cons_self, .down found live target⟩

theorem leads_back (linked : L.OneWay t source targets) {h : HandlerId} (target : h ∈ targets) :
    L.Leads (h, none) (source, none) := by
  obtain ⟨s, found, live, rfl, -⟩ := linked.translator
  exact ⟨_, (linked.onTargets h target).registered _ List.mem_cons_self, .back found live⟩

theorem leads_cases (linked : L.OneWay t source targets) {y : Option Key} {x : Spot}
    (leads : L.Leads (source, y) x) :
    ∃ h ∈ targets, x = (h, none) ∨
      ∃ k j, y = some k ∧ j ∈ fineKeys (L.mapperOf t) k ∧ x = (h, some j) := by
  obtain ⟨l, link, passes⟩ := linked.onSource.exists_passes leads
  cases List.mem_singleton.mp link
  obtain ⟨s, found, -, -, rfl, -⟩ := linked.translator
  cases passes with
  | fine found' _ mapper target fine =>
      cases found.symm.trans found'
      exact ⟨_, target, .inr ⟨_, _, rfl, (fineKeys_mapperOf found mapper _).symm ▸ fine, rfl⟩⟩
  | down found' _ target =>
      cases found.symm.trans found'
      exact ⟨_, target, .inl rfl⟩

theorem eq_of_leads_target (linked : L.OneWay t source targets) {h : HandlerId}
    (target : h ∈ targets) {y : Option Key} {x : Spot} (leads : L.Leads (h, y) x) :
    x = (source, none) := by
  obtain ⟨l, link, passes⟩ := (linked.onTargets h target).exists_passes leads
  cases List.mem_singleton.mp link
  obtain ⟨s, found, -, rfl, -⟩ := linked.translator
  cases passes with
  | back found' _ =>
      cases found.symm.trans found'
      rfl

theorem ne_source (linked : L.OneWay t source targets) {h : HandlerId} (target : h ∈ targets) :
    h ≠ source := by
  rintro rfl
  have link := (linked.onTargets h target).registered _ List.mem_cons_self
  have own := linked.onSource.mem_of_owner link rfl
  simp at own

/-- Handlers stay linked when nothing changes but the mappers, and the translator has a pure
one, if it has one. -/
theorem of_mapper {L' : Layout} (linked : L.OneWay t source targets)
    (handler : L'.handler = L.handler) (behavior : L'.behavior = L.behavior)
    (translator : ∃ s, L'.translator? t = some s ∧ s.live = true ∧ s.source = source ∧
      s.targetHandlers = targets ∧
        ∀ m, s.mapper = some m → ∃ ms, L'.mapper m = some ms ∧ ms.Pure) :
    L'.OneWay t source targets := by
  have attended : ∀ {h links}, L.Attended h links → L'.Attended h links := by
    intro h links here
    have listeners : L'.listeners h = L.listeners h := by rw [listeners, handler, Layout.listeners]
    refine ⟨listeners ▸ here.registered, listeners ▸ fun l mem => (here.others l mem).imp_right ?_⟩
    rintro ⟨name, view, asks⟩
    exact ⟨name, view, fun b found => asks b (behavior ▸ found)⟩
  exact ⟨translator, attended linked.onSource, fun h hh => attended (linked.onTargets h hh)⟩

theorem works (linked : L.OneWay t source targets) :
    L.Works (.sourceLink t) ∧ L.Works (.resetLink t) := by
  obtain ⟨s, found, live, -, -, mapper⟩ := linked.translator
  have pure : ∀ m, s.mapper = some m → L.Pure m := by
    intro m given ms known
    obtain ⟨ms', known', pure⟩ := mapper m given
    cases known.symm.trans known'
    exact pure
  exact ⟨⟨t, s, rfl, found, live, pure⟩, ⟨t, s, rfl, found, live, pure⟩⟩

/-- The spots that a call can come to which moves some keys of the source, or resets. -/
def region (L : Layout) (t : TranslatorId) (source : HandlerId) (targets : List HandlerId)
    (moved : List Key) : List Spot :=
  (none :: moved.map some).map (source, ·) ++
    targets.flatMap fun h =>
      (none :: (moved.flatMap fun k => (fineKeys (L.mapperOf t) k).toList).map some).map (h, ·)

theorem mem_region {moved : List Key} {x : Spot} :
    x ∈ region L t source targets moved ↔
      (x.1 = source ∧ (x.2 = none ∨ ∃ k ∈ moved, x.2 = some k)) ∨
      (x.1 ∈ targets ∧
        (x.2 = none ∨ ∃ k ∈ moved, ∃ j ∈ fineKeys (L.mapperOf t) k, x.2 = some j)) := by
  obtain ⟨h, y⟩ := x
  simp only [region, List.mem_append, List.mem_map, List.mem_flatMap, List.mem_cons,
    Prod.mk.injEq]
  refine or_congr ?_ ?_
  · constructor
    · rintro ⟨z, spot, rfl, rfl⟩
      exact ⟨rfl, spot.imp_right fun ⟨k, mem, same⟩ => ⟨k, mem, same.symm⟩⟩
    · rintro ⟨rfl, spot⟩
      exact ⟨y, spot.imp_right fun ⟨k, mem, same⟩ => ⟨k, mem, same.symm⟩, rfl, rfl⟩
  · constructor
    · rintro ⟨g, target, z, spot, rfl, rfl⟩
      exact ⟨target, spot.imp_right fun ⟨j, ⟨k, mem, fine⟩, same⟩ => ⟨k, mem, j, fine, same.symm⟩⟩
    · rintro ⟨target, spot⟩
      exact ⟨h, target, y, spot.imp_right fun ⟨k, mem, j, fine, same⟩ =>
        ⟨j, ⟨k, mem, fine⟩, same.symm⟩, rfl, rfl⟩

theorem sweepable (linked : L.OneWay t source targets) (moved : List Key) :
    L.Sweepable (region L t source targets moved) := by
  refine .of_attended ?_ ?_
  · rintro ⟨h, y⟩ inside x leads
    obtain ⟨rfl, spot⟩ | ⟨target, -⟩ := mem_region.mp inside
    · obtain ⟨g, target, rfl | ⟨k, j, rfl, mem, rfl⟩⟩ := linked.leads_cases leads
      · exact mem_region.mpr (.inr ⟨target, .inl rfl⟩)
      · obtain ⟨k', moved, same⟩ := spot.resolve_left (by simp)
        cases same
        exact mem_region.mpr (.inr ⟨target, .inr ⟨k, moved, j, mem, rfl⟩⟩)
    · cases linked.eq_of_leads_target target leads
      exact mem_region.mpr (.inl ⟨rfl, .inl rfl⟩)
  · rintro ⟨h, y⟩ inside
    obtain ⟨rfl, -⟩ | ⟨target, -⟩ := mem_region.mp inside
    · exact ⟨_, linked.onSource, ⟨_, List.mem_cons_self⟩, by simp [linked.works.1]⟩
    · exact ⟨_, linked.onTargets h target, ⟨_, List.mem_cons_self⟩, by simp [linked.works.2]⟩

end OneWay

end Layout

namespace World

/-- All targets hold the same set, in which the source accounts for every key: the mapper makes
it of one that is highlighted there. While the mapper gives disjoint answers, the targets hold all
that it makes of the keys of the source. -/
structure Synced (mapper : Option MapperState) (source : HandlerId) (targets : List HandlerId)
    (w : World) : Prop where
  alike : ∀ h ∈ targets, ∀ g ∈ targets, w.keysOf h = w.keysOf g
  accounted : ∀ h ∈ targets, ∀ j ∈ w.keysOf h, ∃ k ∈ w.keysOf source, j ∈ fineKeys mapper k
  complete : AnswersDisjoint mapper → ∀ h ∈ targets, ∀ k ∈ w.keysOf source,
    ∀ j ∈ fineKeys mapper k, j ∈ w.keysOf h

/-- Source and targets are in step by the mapper that the translator has. -/
def InStep (t : TranslatorId) (source : HandlerId) (targets : List HandlerId) (w : World) : Prop :=
  w.Synced (w.layout.mapperOf t) source targets

/-- The keys of a call that it can move. -/
def movable (d : Direction) (w : World) (source : HandlerId) (keys : List Key) : List Key :=
  keys.filter fun k => decide (w.Ripe d.kind (source, some k))

theorem mem_movable {d : Direction} {w : World} {source : HandlerId} {keys : List Key} {k : Key} :
    k ∈ movable d w source keys ↔ k ∈ keys ∧ w.Ripe d.kind (source, some k) := by
  rw [movable, List.mem_filter, decide_eq_true_eq]

section

variable {t : TranslatorId} {source : HandlerId} {targets : List HandlerId} {w v : World}
variable {d : Direction} {keys : List Key}
variable (linked : w.layout.OneWay t source targets)
variable (swept : w.Swept d.kind (Layout.OneWay.region w.layout t source targets
  (movable d w source keys)) (Config.Given source keys) v)
variable (unrefused : v.refusals = w.refusals)

include linked swept unrefused

theorem ripe_source_iff (k : Key) : v.Ripe d.kind (source, some k) ↔
    w.Ripe d.kind (source, some k) ∧ ¬ k ∈ movable d w source keys := by
  refine ⟨fun ripe => ⟨swept.shrinks _ ripe, fun moved => ?_⟩, ?_⟩
  · exact swept.done unrefused _ ⟨rfl, k, (mem_movable.mp moved).1, rfl⟩ ripe
  · rintro ⟨ripe, kept⟩
    by_contra visited
    obtain ⟨-, spot⟩ | ⟨target, -⟩ := Layout.OneWay.mem_region.mp (swept.inside _ ripe visited)
    · obtain ⟨k', moved, same⟩ := spot.resolve_left (by simp)
      cases same
      exact kept moved
    · exact linked.ne_source target rfl

theorem ripe_target_iff {h : HandlerId} (target : h ∈ targets) (j : Key) :
    v.Ripe d.kind (h, some j) ↔ w.Ripe d.kind (h, some j) ∧
      ∀ k ∈ movable d w source keys, ¬ j ∈ fineKeys (w.layout.mapperOf t) k := by
  refine ⟨fun ripe => ⟨swept.shrinks _ ripe, fun k moved fine => ?_⟩, ?_⟩
  · have settled := fun ripe => ((ripe_source_iff linked swept unrefused k).mp ripe).2 moved
    exact swept.closed unrefused _ _ (mem_movable.mp moved).2 settled
      (linked.leads_fine target fine) ripe
  · rintro ⟨ripe, kept⟩
    by_contra visited
    obtain ⟨here, -⟩ | ⟨-, spot⟩ := Layout.OneWay.mem_region.mp (swept.inside _ ripe visited)
    · exact linked.ne_source target here
    · obtain ⟨k, moved, j', fine, same⟩ := spot.resolve_left (by simp)
      cases same
      exact kept k moved fine

end

namespace Synced

variable {mapper : Option MapperState} {t : TranslatorId} {source : HandlerId}
variable {targets : List HandlerId} {w v : World}

theorem of_empty (emptySource : w.keysOf source = ∅) (empty : ∀ h ∈ targets, w.keysOf h = ∅) :
    w.Synced mapper source targets where
  alike h hh g hg := (empty h hh).trans (empty g hg).symm
  accounted h hh j mem := absurd (empty h hh ▸ mem) (KeySet.not_mem_empty j)
  complete _ _ _ k mem := absurd (emptySource ▸ mem) (KeySet.not_mem_empty k)

theorem keysOf_eq_empty (synced : w.Synced mapper source targets)
    (emptySource : w.keysOf source = ∅) {h : HandlerId} (target : h ∈ targets) :
    w.keysOf h = ∅ := by
  refine KeySet.eq_empty_iff.mpr fun j mem => ?_
  obtain ⟨k, lit, -⟩ := synced.accounted h target j mem
  exact KeySet.not_mem_empty k (emptySource ▸ lit)

theorem keysOf_eq_empty_of_none (synced : w.Synced none source targets) {h : HandlerId}
    (target : h ∈ targets) : w.keysOf h = ∅ := by
  refine KeySet.eq_empty_iff.mpr fun j mem => ?_
  obtain ⟨k, -, fine⟩ := synced.accounted h target j mem
  exact KeySet.not_mem_empty j fine

theorem congr (synced : w.Synced mapper source targets)
    (sourceKeys : v.keysOf source = w.keysOf source)
    (keys : ∀ h ∈ targets, v.keysOf h = w.keysOf h) : v.Synced mapper source targets where
  alike h hh g hg := by
    rw [keys h hh, keys g hg]
    exact synced.alike h hh g hg
  accounted h hh := by
    rw [keys h hh, sourceKeys]
    exact synced.accounted h hh
  complete disjoint h hh := by
    rw [keys h hh, sourceKeys]
    exact synced.complete disjoint h hh

theorem of_highlight {moved : List Key} (synced : w.Synced mapper source targets)
    (onSource : ∀ k, k ∈ v.keysOf source ↔ k ∈ w.keysOf source ∨ k ∈ moved)
    (onTargets : ∀ h ∈ targets, ∀ j, j ∈ v.keysOf h ↔
      j ∈ w.keysOf h ∨ ∃ k ∈ moved, j ∈ fineKeys mapper k) : v.Synced mapper source targets where
  alike h hh g hg := KeySet.ext_mem fun j => by
    rw [onTargets h hh, onTargets g hg, synced.alike h hh g hg]
  accounted h hh j mem := by
    obtain old | ⟨k, new, fine⟩ := (onTargets h hh j).mp mem
    · obtain ⟨k, lit, fine⟩ := synced.accounted h hh j old
      exact ⟨k, (onSource k).mpr (.inl lit), fine⟩
    · exact ⟨k, (onSource k).mpr (.inr new), fine⟩
  complete disjoint h hh k lit j fine := by
    refine (onTargets h hh j).mpr (((onSource k).mp lit).imp (fun old => ?_) fun new => ?_)
    · exact synced.complete disjoint h hh k old j fine
    · exact ⟨k, new, fine⟩

/-- Keys are unhighlighted on the source, and on the targets what the mapper makes of them. What
a key makes that stays is not taken away, if answers are disjoint. -/
theorem of_unhighlight {moved : List Key} (synced : w.Synced mapper source targets)
    (onSource : ∀ k, k ∈ v.keysOf source ↔ k ∈ w.keysOf source ∧ k ∉ moved)
    (onTargets : ∀ h ∈ targets, ∀ j, j ∈ v.keysOf h ↔
      j ∈ w.keysOf h ∧ ∀ k ∈ moved, ¬ j ∈ fineKeys mapper k) : v.Synced mapper source targets where
  alike h hh g hg := KeySet.ext_mem fun j => by
    rw [onTargets h hh, onTargets g hg, synced.alike h hh g hg]
  accounted h hh j mem := by
    obtain ⟨old, kept⟩ := (onTargets h hh j).mp mem
    obtain ⟨k, lit, fine⟩ := synced.accounted h hh j old
    exact ⟨k, (onSource k).mpr ⟨lit, fun gone => kept k gone fine⟩, fine⟩
  complete disjoint h hh k lit j fine := by
    obtain ⟨old, kept⟩ := (onSource k).mp lit
    refine (onTargets h hh j).mpr ⟨synced.complete disjoint h hh k old j fine, ?_⟩
    intro k' gone fine'
    exact kept (disjoint k k' j fine fine' ▸ gone)

end Synced

namespace InStep

variable {t : TranslatorId} {source : HandlerId} {targets : List HandlerId} {w v : World}

theorem of_same (layout : v.layout = w.layout)
    (synced : v.Synced (w.layout.mapperOf t) source targets) : v.InStep t source targets := by
  rw [InStep, layout]
  exact synced

/-- What a call that moves keys of the source has done, if none was refused, when it has swept
the spots that it can come to. -/
theorem of_move (synced : w.InStep t source targets)
    (linked : w.layout.OneWay t source targets) {d : Direction} {keys : List Key}
    (swept : w.Swept d.kind (Layout.OneWay.region w.layout t source targets
      (movable d w source keys)) (Config.Given source keys) v)
    (unrefused : v.refusals = w.refusals) : v.InStep t source targets := by
  have onSource := ripe_source_iff linked swept unrefused
  have onTargets := fun h hh => ripe_target_iff linked swept unrefused (h := h) hh
  refine .of_same swept.layout ?_
  cases d with
  | highlight =>
      refine synced.of_highlight (fun k => not_iff_not.mp ((onSource k).trans not_or.symm))
        fun h hh j => not_iff_not.mp ((onTargets h hh j).trans ?_)
      rw [not_or]
      exact and_congr_right fun _ => by simp
  | unhighlight => exact synced.of_unhighlight onSource onTargets

theorem of_reset (synced : w.InStep t source targets)
    (linked : w.layout.OneWay t source targets) {region : List Spot} {offered : Spot → Prop}
    (swept : w.Swept .reset region offered v) (unrefused : v.refusals = w.refusals) :
    v.InStep t source targets := by
  have empties : w.Ripe .reset (source, none) → ¬ v.Ripe .reset (source, none) →
      v.InStep t source targets := fun before after =>
    .of_empty (Classical.not_not.mp after) fun h hh => Classical.not_not.mp
      (swept.closed unrefused _ _ before after (linked.leads_down hh))
  by_cases clears : w.Ripe .reset (source, none) → v.Ripe .reset (source, none)
  · refine .of_same swept.layout (synced.congr (swept.keysOf_eq clears) fun h hh => ?_)
    refine swept.keysOf_eq fun ripe => ?_
    by_contra visited
    -- A target that is emptied passes the reset back, and its keys stood for some of the source.
    have emptied := swept.closed unrefused _ _ ripe visited (linked.leads_back hh)
    exact emptied (clears fun empty => ripe (synced.keysOf_eq_empty empty hh))
  · obtain ⟨before, after⟩ := Classical.not_imp.mp clears
    exact empties before after

end InStep

variable {t : TranslatorId} {source : HandlerId} {targets : List HandlerId} {w : World}

theorem mapper_addMapper (w : World) (ms : MapperState) :
    (w.addMapper ms).2.layout.mapper (w.addMapper ms).1 = some { ms with asked := 0 } := by
  simp [layout, addMapper, mapper?, Store.get?_push]

theorem mapper_addMapper_of_known (ms : MapperState) {known : MapperState} {m : MapperId}
    (found : w.layout.mapper m = some known) :
    (w.addMapper ms).2.layout.mapper m = some known := by
  obtain ⟨state, there, -⟩ := Option.map_eq_some_iff.mp found
  have bound := (Store.get?_isSome_iff.mp (Option.isSome_of_eq_some there)).2
  have other : m.number ≠ w.mappers.next := Nat.ne_of_lt (Nat.lt_succ_of_le bound)
  rw [← found]
  simp [layout, addMapper, mapper?, Store.get?_push, other]

theorem oneWay_addMapper (linked : w.layout.OneWay t source targets) (ms : MapperState) :
    (w.addMapper ms).2.layout.OneWay t source targets ∧
      (w.addMapper ms).2.layout.mapperOf t = w.layout.mapperOf t := by
  obtain ⟨s, found, live, own, handlers, mapper⟩ := linked.translator
  have found' : (w.addMapper ms).2.layout.translator? t = some s := found
  refine ⟨linked.of_mapper rfl rfl ⟨s, found', live, own, handlers, fun m given => ?_⟩, ?_⟩
  · obtain ⟨known, there, pure⟩ := mapper m given
    exact ⟨known, mapper_addMapper_of_known ms there, pure⟩
  · simp only [Layout.mapperOf, found, found', Option.bind_some]
    cases given : s.mapper with
    | none => rfl
    | some m =>
        obtain ⟨known, there, -⟩ := mapper m given
        simp only [Option.bind_some, there, mapper_addMapper_of_known ms there]

theorem oneWay_setMapper (linked : w.layout.OneWay t source targets) {mapper : Option MapperId}
    (pure : ∀ m, mapper = some m → ∃ ms, w.layout.mapper m = some ms ∧ ms.Pure) :
    (w.setMapper t mapper).layout.OneWay t source targets ∧
      (w.setMapper t mapper).layout.mapperOf t = mapper.bind w.layout.mapper := by
  obtain ⟨s, found, live, own, handlers, -⟩ := linked.translator
  have found' : w.translator? t = some s := found
  have given : (w.setMapper t mapper).layout.translator? t = some { s with mapper } := by
    have given := translator?_modifyTranslator w t t fun s => { s with mapper }
    rw [if_pos rfl, found', Option.map_some] at given
    exact given
  refine ⟨linked.of_mapper rfl rfl ⟨{ s with mapper }, given, live, own, handlers, pure⟩, ?_⟩
  rw [Layout.mapperOf, given]
  rfl

end World

namespace Config

/-- What may be asked of a translator and its handlers: a call, or to swap the mapper for
another one or for none. -/
inductive SyncRequest where
  | call (c : Call)
  | swap (mapper : Option MapperState)

namespace SyncRequest

/-- The request moves keys of the source or resets one of the handlers, or brings a pure
mapper, if it brings one. -/
def Fits (source : HandlerId) (targets : List HandlerId) : SyncRequest → Prop
  | .call (.move _ h _) => h = source
  | .call (.reset h) => h = source ∨ h ∈ targets
  | .swap mapper => ∀ ms, mapper = some ms → ms.Pure

/-- Begin a request. -/
def begin (t : TranslatorId) (source : HandlerId) :
    SyncRequest → World → List Frame → Config
  | .call c => c.begin
  | .swap none => fun w stack => openReset source w (.swap t none :: stack)
  | .swap (some ms) => fun w stack =>
      openReset source (w.addMapper ms).2 (.swap t (some (w.addMapper ms).1) :: stack)

/-- The mapper that is in force after a request, from the one before: the new one, which has not
been asked yet, or none, if that is what is requested. -/
def mapperAfter (before : Option MapperState) : SyncRequest → Option MapperState
  | .call _ => before
  | .swap mapper => mapper.map fun ms => { ms with asked := 0 }

end SyncRequest

section

variable {t : TranslatorId} {source : HandlerId} {targets : List HandlerId} {w : World}
variable {stack : List Frame}

theorem begin_swap {s : TranslatorState} (found : w.translator? t = some s) {name : String}
    (named : w.translatorNamed? name = some t) (spec : Option (MapperSpec Op))
    (stack : List Frame) :
    perform (.swapMapper name spec) w stack =
      (SyncRequest.swap (spec.map .ofSpec)).begin t s.source w stack := by
  simp only [perform, onTranslator, named, found]
  cases spec <;> rfl

/-- A call that moves keys of the source, or resets one of the handlers, comes to an end and
upholds that they are in step. -/
theorem ends_call_oneWay (linked : w.layout.OneWay t source targets) {call : Call}
    (fits : (SyncRequest.call call).Fits source targets) :
    Ends (fun v => v.layout = w.layout ∧ w.Upholds (World.InStep t source targets) v)
      (call.begin w stack) stack := by
  cases call with
  | move d h keys =>
      cases fits
      let moved := World.movable d w source keys
      refine (sweeps_call (linked.sweepable moved) (.move d source keys) ?_ stack).mono ?_
      · rintro ⟨g, y⟩ ⟨rfl, k, mem, rfl⟩ ripe
        refine Layout.OneWay.mem_region.mpr (.inl ⟨rfl, .inr ⟨k, ?_, rfl⟩⟩)
        exact World.mem_movable.mpr ⟨mem, ripe⟩
      · exact fun v swept => ⟨swept.layout, swept.refusals, fun unrefused inStep =>
          inStep.of_move linked swept unrefused⟩
  | reset h =>
      refine (sweeps_call (linked.sweepable []) (.reset h) ?_ stack).mono ?_
      · rintro x rfl -
        exact Layout.OneWay.mem_region.mpr
          (fits.imp (fun here => ⟨here, .inl rfl⟩) fun target => ⟨target, .inl rfl⟩)
      · exact fun v swept => ⟨swept.layout, swept.refusals, fun unrefused inStep =>
          inStep.of_reset linked swept unrefused⟩

/-- A mapper is swapped over handlers that are all empty, unless a call was refused. -/
theorem ends_swap_oneWay (linked : w.layout.OneWay t source targets) {mapper : Option MapperId}
    (pure : ∀ m, mapper = some m → ∃ ms, w.layout.mapper m = some ms ∧ ms.Pure) :
    Ends (fun v => (v.layout.OneWay t source targets ∧
        v.layout.mapperOf t = mapper.bind w.layout.mapper) ∧
          w.Upholds (World.InStep t source targets) v)
      (openReset source w (.swap t mapper :: stack)) stack := by
  have inside : (source, none) ∈ Layout.OneWay.region w.layout t source targets [] :=
    Layout.OneWay.mem_region.mpr (.inl ⟨rfl, .inl rfl⟩)
  have cleared := sweeps_call (linked.sweepable []) (.reset source)
    (fun x given _ => given ▸ inside) (.swap t mapper :: stack)
  refine cleared.andThen fun v r swept => .of_answered _ ?_
  have linked' : v.layout.OneWay t source targets := swept.layout ▸ linked
  have replaced := World.oneWay_setMapper linked' (swept.layout ▸ pure)
  have counted : ∀ n, (∀ h depth limit, n ≠ .cascadeRefused h depth limit) →
      ((v.setMapper t mapper).note n).refusals = v.refusals :=
    fun n other => (v.setMapper t mapper).refusals_record (r := .note n) (by simpa using other)
  refine ⟨swept.layout ▸ replaced, ?_, fun unrefused inStep => ?_⟩
  · rw [counted _ (by simp)]
    exact swept.refusals
  · rw [counted _ (by simp)] at unrefused
    have empty : v.keysOf source = ∅ := Classical.not_not.mp (swept.done unrefused _ rfl)
    have inStep' : v.InStep t source targets := inStep.of_reset linked swept unrefused
    exact .of_empty empty fun h hh => inStep'.keysOf_eq_empty empty hh

/-- A request comes to an end, leaves the mapper in force that it asks for, and upholds that the
handlers are in step. -/
theorem ends_begin_oneWay (linked : w.layout.OneWay t source targets) {request : SyncRequest}
    (fits : request.Fits source targets) :
    Ends (fun v => (v.layout.OneWay t source targets ∧
        v.layout.mapperOf t = request.mapperAfter (w.layout.mapperOf t)) ∧
          w.Upholds (World.InStep t source targets) v)
      (request.begin t source w stack) stack := by
  match request with
  | .call call => exact (ends_call_oneWay linked fits).mono fun v ⟨layout, upheld⟩ =>
      ⟨⟨layout ▸ linked, congrArg (Layout.mapperOf · t) layout⟩, upheld⟩
  | .swap none => exact ends_swap_oneWay linked (by simp)
  | .swap (some ms) =>
      obtain ⟨linked', mapper⟩ := World.oneWay_addMapper linked ms
      have added : w.Upholds (World.InStep t source targets) (w.addMapper ms).2 := by
        refine ⟨Nat.le_refl _, fun _ inStep => ?_⟩
        rw [World.InStep, mapper]
        exact World.Synced.congr inStep rfl fun _ _ => rfl
      have there := World.mapper_addMapper w ms
      refine (ends_swap_oneWay linked' ?_).mono fun v ⟨⟨linked, given⟩, upheld⟩ =>
        ⟨⟨linked, given.trans there⟩, added.trans upheld⟩
      intro m given
      cases given
      exact ⟨_, there, fits ms rfl⟩

/-- A translator whose handlers are its own and empty at first keeps them in step, whatever is
asked of it: each request comes to an end, and the translator has the mapper then that was asked
for last. If no call was refused, all targets hold the same set. Each key in it is made of a key
of the source by that mapper, and it is all that is made of these while the mapper gives disjoint
answers. To swap the mapper is an operation of any session. -/
theorem synced_of_oneWay (linked : w.layout.OneWay t source targets)
    (emptySource : w.keysOf source = ∅) (empty : ∀ h ∈ targets, w.keysOf h = ∅)
    (requests : List SyncRequest) (fits : ∀ request ∈ requests, request.Fits source targets) :
    let mapper := requests.foldl SyncRequest.mapperAfter (w.layout.mapperOf t)
    ∃ w', Served (SyncRequest.begin t source) requests w w' ∧ w'.layout.mapperOf t = mapper ∧
      (w'.refusals = w.refusals → w'.Synced mapper source targets) ∧
      ∀ name, w'.translatorNamed? name = some t → ∀ spec stack,
        perform (.swapMapper name spec) w' stack =
          (SyncRequest.swap (spec.map .ofSpec)).begin t source w' stack := by
  obtain ⟨w', served, ⟨linked', mapper⟩, upheld⟩ := exists_served
    (I := fun m v => v.layout.OneWay t source targets ∧ v.layout.mapperOf t = m)
    (fun request mem m v ⟨linked, given⟩ => given ▸ ends_begin_oneWay linked (fits request mem))
    ⟨linked, rfl⟩
  refine ⟨w', served, mapper, fun unrefused => ?_, fun name named spec stack => ?_⟩
  · exact mapper ▸ upheld.lasts unrefused (World.Synced.of_empty emptySource empty)
  · obtain ⟨s, found, -, rfl, -⟩ := linked'.translator
    exact begin_swap found named spec stack

end

section Examples

/-- A table of two coarse keys that have a fine key in common. -/
def shades : KeyTable := .ofPairs [(.int 1, [.int 10]), (.int 2, [.int 10, .int 20])]

/-- Another table, of the second coarse key alone. -/
def tints : KeyTable := .ofPairs [(.int 2, [.int 30])]

/-- A handler with a view, and a translator without a mapper to two other handlers. -/
def fan : List (Action Op) :=
  [.createHandler "s" .plain, .createHandler "x" .plain, .createHandler "y" .plain,
    .createListener "v" onlooker, .createTranslator "t" "s" none, .addListener "s" "v",
    .addTarget "t" "x", .addTarget "t" "y"]

theorem oneWay_fan : (World.built fan).layout.OneWay ⟨1⟩ ⟨1⟩ [⟨2⟩, ⟨3⟩] := by
  have behaves : (World.built fan).layout.behavior "v" = some (.ofSpec onlooker) := rfl
  have asks : (World.built fan).layout.Asks "v" := by
    intro b found ran e ops script
    cases behaves.symm.trans found
    simp [Behavior.ofSpec, onlooker] at script
  have onSource : (World.built fan).layout.listeners ⟨1⟩ = [.sourceLink ⟨1⟩, .view "v"] := by
    decide +kernel
  have onTargets : ∀ h ∈ [⟨2⟩, ⟨3⟩], (World.built fan).layout.listeners h = [.resetLink ⟨1⟩] := by
    decide +kernel
  refine ⟨⟨⟨⟨1⟩, ⟨1, 1⟩, [⟨⟨2⟩, ⟨1, 1⟩⟩, ⟨⟨3⟩, ⟨1, 1⟩⟩], none, true⟩, rfl, rfl, rfl, rfl, ?_⟩,
    ⟨?_, ?_⟩, fun h hh => ⟨?_, ?_⟩⟩
  · simp
  · simp [onSource]
  · simp [onSource, asks]
  · simp [onTargets h hh]
  · simp [onTargets h hh]

/-- When one of two keys with a fine key in common is unhighlighted, all targets lose the fine
key, and keep what the other key alone stands for. They follow another table as soon as that is in
force, and are empty without a mapper, though the source is not. -/
theorem synced_of_oneWay_fan :
    let first : List SyncRequest :=
      [.swap (some (.ofSpec (.table shades))), .call (.move .highlight ⟨1⟩ [.int 1, .int 2]),
        .call (.move .unhighlight ⟨1⟩ [.int 1])]
    let second : List SyncRequest :=
      [.swap (some (.ofSpec (.table tints))), .call (.move .highlight ⟨1⟩ [.int 2])]
    let third : List SyncRequest := [.swap none, .call (.move .highlight ⟨1⟩ [.int 2])]
    let serves := fun requests => Served (SyncRequest.begin ⟨1⟩ ⟨1⟩) requests (.built fan)
    (∃ w', serves first w' ∧ .int 2 ∈ w'.keysOf ⟨1⟩ ∧
      w'.keysOf ⟨2⟩ = .singleton (.int 20) ∧ w'.keysOf ⟨3⟩ = .singleton (.int 20)) ∧
    (∃ w', serves (first ++ second) w' ∧ .int 2 ∈ w'.keysOf ⟨1⟩ ∧
      w'.layout.mapperOf ⟨1⟩ = some (.ofSpec (.table tints)) ∧
      w'.keysOf ⟨2⟩ = .singleton (.int 30) ∧ w'.keysOf ⟨3⟩ = .singleton (.int 30)) ∧
    ∃ w', serves (first ++ second ++ third) w' ∧ .int 2 ∈ w'.keysOf ⟨1⟩ ∧
      w'.layout.mapperOf ⟨1⟩ = none ∧ w'.keysOf ⟨2⟩ = ∅ ∧ w'.keysOf ⟨3⟩ = ∅ := by
  intro first second third serves
  have fits : ∀ request ∈ first ++ second ++ third, request.Fits ⟨1⟩ [⟨2⟩, ⟨3⟩] := by
    simp [first, second, third, SyncRequest.Fits, MapperState.pure_table]
  have inStep : ∀ (requests : List SyncRequest) (p : World → Bool),
      (∀ request ∈ requests, request ∈ first ++ second ++ third) →
      (serve (SyncRequest.begin ⟨1⟩ ⟨1⟩) 300 requests (.built fan)).any (fun v =>
        decide (.int 2 ∈ v.keysOf ⟨1⟩) && p v &&
          decide (v.refusals = (World.built fan).refusals)) = true →
      ∃ w', serves requests w' ∧ .int 2 ∈ w'.keysOf ⟨1⟩ ∧ p w' = true ∧
        w'.layout.mapperOf ⟨1⟩ = requests.foldl SyncRequest.mapperAfter none ∧
        w'.Synced (requests.foldl SyncRequest.mapperAfter none) ⟨1⟩ [⟨2⟩, ⟨3⟩] := by
    intro requests p among found
    obtain ⟨w', served, mapper, synced, -⟩ := synced_of_oneWay oneWay_fan (by decide +kernel)
      (by decide +kernel) requests fun request mem => fits request (among request mem)
    obtain ⟨v, found, seen⟩ := (Option.any_eq_true _ _).mp found
    cases served.eq_of_serve found
    simp only [Bool.and_eq_true, decide_eq_true_eq] at seen
    obtain ⟨⟨stays, seen⟩, unrefused⟩ := seen
    exact ⟨w', served, stays, seen, mapper, synced unrefused⟩
  refine ⟨?_, ?_, ?_⟩
  · obtain ⟨w', served, stays, keys, -, synced⟩ :=
      inStep first (fun v => decide (v.keysOf ⟨2⟩ = .singleton (.int 20)))
        (fun _ mem => List.mem_append_left _ (List.mem_append_left _ mem)) (by decide +kernel)
    have keys := of_decide_eq_true keys
    exact ⟨w', served, stays, keys, (synced.alike ⟨3⟩ (by simp) ⟨2⟩ (by simp)).trans keys⟩
  · obtain ⟨w', served, stays, keys, mapper, synced⟩ :=
      inStep (first ++ second) (fun v => decide (v.keysOf ⟨2⟩ = .singleton (.int 30)))
        (fun _ mem => List.mem_append_left _ mem) (by decide +kernel)
    have keys := of_decide_eq_true keys
    exact ⟨w', served, stays, mapper, keys,
      (synced.alike ⟨3⟩ (by simp) ⟨2⟩ (by simp)).trans keys⟩
  · obtain ⟨w', served, stays, -, mapper, synced⟩ :=
      inStep (first ++ second ++ third) (fun _ => true) (fun _ mem => mem) (by decide +kernel)
    have synced : w'.Synced none ⟨1⟩ [⟨2⟩, ⟨3⟩] := synced
    exact ⟨w', served, stays, mapper, synced.keysOf_eq_empty_of_none (by simp),
      synced.keysOf_eq_empty_of_none (by simp)⟩

end Examples

end Config

end HighlightSync
