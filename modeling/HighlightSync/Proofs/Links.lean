import HighlightSync.Proofs.History
import Mathlib.Data.List.Nodup

/-!
# Links belong to translators

A link that is registered anywhere belongs to a live translator and stands where the
translator has put it: the source link on the source and a reset link on a target, under the
identity that the translator was given there. And a translator that is named is live, and has
one name. Both facts are needed for each other: a link is taken away by its identity, when a
target goes or the translator is dropped by its name (`World.Orderly`).

Sessions keep worlds orderly (`Reached.orderly`). They do not keep links registered, since a
user can take any listener away. The worlds in which all links are registered are said to be
linked (`World.Linked`).
-/

namespace HighlightSync

/-- The translator whose link a listener is. -/
def Listener.owner? : Listener → Option TranslatorId
  | .view _ => none
  | .sourceLink t => some t
  | .resetLink t => some t

/-- A translator keeps a link on a handler under an identity. -/
def TranslatorState.Keeps (s : TranslatorState) (h : HandlerId) (id : ListenerId) :
    Listener → Prop
  | .view _ => False
  | .sourceLink _ => s.source = h ∧ s.sourceLink = id
  | .resetLink _ => ⟨h, id⟩ ∈ s.targets

namespace World

/-- A listener is registered on a handler under an identity. -/
def Registered (w : World) (h : HandlerId) (id : ListenerId) (l : Listener) : Prop :=
  (w.registryOf h).get? id = some l

/-- Links that are registered are kept by live translators, whose targets are distinct, and
names of translators stand for live ones, each for another. -/
structure Orderly (w : World) : Prop where
  links : ∀ h id l t, l.owner? = some t → w.Registered h id l →
    ∃ s, w.translator? t = some s ∧ s.live = true ∧ s.Keeps h id l
  distinct : ∀ t s, w.translator? t = some s → s.targetHandlers.Nodup
  named : ∀ name t, (name, .translator t) ∈ w.names →
    ∃ s, w.translator? t = some s ∧ s.live = true
  unique : ∀ name other t, (name, .translator t) ∈ w.names → (other, .translator t) ∈ w.names →
    name = other

/-- Every live translator has its source link on the source and a reset link on each target. -/
def Linked (w : World) : Prop :=
  ∀ t s, w.translator? t = some s → s.live = true →
    .sourceLink t ∈ w.listeners s.source ∧ ∀ h ∈ s.targetHandlers, .resetLink t ∈ w.listeners h

theorem linked_iff {w : World} :
    w.Linked ↔ ∀ n ∈ List.range (w.translators.size + 1), ∀ s ∈ w.translator? ⟨n⟩, s.live = true →
      .sourceLink ⟨n⟩ ∈ w.listeners s.source ∧
        ∀ h ∈ s.targetHandlers, .resetLink ⟨n⟩ ∈ w.listeners h := by
  constructor
  · exact fun linked n _ s found => linked ⟨n⟩ s found
  · rintro linked ⟨n⟩ s found
    have bound := (Store.get?_isSome_iff.mp (Option.isSome_iff_exists.mpr ⟨s, found⟩)).2
    exact linked n (List.mem_range.mpr (Nat.lt_succ_of_le bound)) s found

instance (w : World) : Decidable w.Linked := decidable_of_iff' _ linked_iff

section Registered

variable {w : World} {h g : HandlerId} {id other : ListenerId} {l m : Listener}

theorem exists_registered_iff (sound : w.Sound) :
    (∃ id, w.Registered h id l) ↔ l ∈ w.listeners h :=
  (sound.registries h).mem_snapshot_iff.symm

theorem registered_attach (sound : w.Sound) (registered : (w.attach h l).2.Registered g id m) :
    w.Registered g id m ∨ (g = h ∧ id = (w.attach h l).1 ∧ m = l) := by
  revert registered
  simp only [attach]
  split
  · exact .inl
  · intro registered
    rw [Registered, note_eq_record, registryOf_record, registryOf_setRegistry] at registered
    split at registered
    · rename_i here
      rw [(sound.registries h).get?_append] at registered
      split at registered
      · rename_i same
        exact .inr ⟨here.1, same, (Option.some.inj registered).symm⟩
      · exact .inl (here.1 ▸ registered)
    · exact .inl registered

/-- Taking a registration away leaves the others. -/
theorem registered_detach :
    (w.detach h id).2.Registered g other m ↔
      w.Registered g other m ∧ ¬ (g = h ∧ other = id) := by
  simp only [detach]
  split
  · rename_i l found
    have present : (w.handler? h).isSome = true := by
      cases absent : w.handler? h with
      | none =>
          rw [registryOf_of_handler?_eq_none absent, Registry.get?_empty] at found
          cases found
      | some s => rfl
    rw [Registered, note_eq_record, registryOf_record, registryOf_setRegistry, Registered]
    by_cases here : g = h
    · subst here
      rw [if_pos ⟨rfl, present⟩, Registry.get?_remove]
      by_cases same : other = id <;> simp [same]
    · simp [here]
  · rename_i nobody
    refine (and_iff_left_of_imp ?_).symm
    rintro registered ⟨rfl, rfl⟩
    rw [Registered, nobody] at registered
    cases registered

theorem registered_foldl_release (targets : List Target) :
    (targets.foldl release w).Registered g other m ↔
      w.Registered g other m ∧ ⟨g, other⟩ ∉ targets := by
  induction targets generalizing w with
  | nil => simp
  | cons target targets ih =>
      rw [List.foldl_cons, ih]
      change (w.detach target.handler target.resetLink).2.Registered g other m ∧ _ ↔ _
      rw [registered_detach, List.mem_cons, not_or, and_assoc]
      obtain ⟨handler, resetLink⟩ := target
      rw [Target.mk.injEq]

end Registered

/-- Translators and names are the same. -/
structure SameNames (w w' : World) : Prop where
  translators : w'.translators = w.translators
  names : w'.names = w.names

theorem SameNames.translator? {w w' : World} (h : w.SameNames w') :
    w'.translator? = w.translator? := by
  funext t
  rw [World.translator?, h.translators, World.translator?]

section SameNames

theorem sameNames_attach (w : World) (h : HandlerId) (l : Listener) :
    w.SameNames (w.attach h l).2 := by
  simp only [attach]
  split <;> exact ⟨rfl, rfl⟩

theorem sameNames_detach (w : World) (h : HandlerId) (id : ListenerId) :
    w.SameNames (w.detach h id).2 := by
  simp only [detach]
  split <;> exact ⟨rfl, rfl⟩

theorem sameNames_release (w : World) (target : Target) : w.SameNames (w.release target) :=
  ⟨(sameNames_detach w target.handler target.resetLink).translators,
    (sameNames_detach w target.handler target.resetLink).names⟩

theorem sameNames_foldl_release (targets : List Target) (w : World) :
    w.SameNames (targets.foldl release w) := by
  induction targets generalizing w with
  | nil => exact ⟨rfl, rfl⟩
  | cons target targets ih =>
      have first := sameNames_release w target
      have rest := ih (w.release target)
      exact ⟨rest.translators.trans first.translators, rest.names.trans first.names⟩

end SameNames

namespace Orderly

variable {w w' : World}

theorem of_bare (handlers : w.handlers = ∅) (translators : w.translators = ∅)
    (names : w.names = []) : w.Orderly := by
  refine ⟨?_, ?_, ?_, ?_⟩
  · intro h id l t _ registered
    rw [Registered, registryOf_of_handler?_eq_none (by rw [handler?, handlers, Store.get?_empty]),
      Registry.get?_empty] at registered
    cases registered
  · intro t s hs
    rw [translator?, translators, Store.get?_empty] at hs
    cases hs
  · intro name t ht
    rw [names] at ht
    cases ht
  · intro name other t ht
    rw [names] at ht
    cases ht

theorem of_fewer (orderly : w.Orderly) (same : w'.translator? = w.translator?)
    (links : ∀ h id l t, l.owner? = some t → w'.Registered h id l → w.Registered h id l)
    (names : ∀ name t, (name, .translator t) ∈ w'.names → (name, .translator t) ∈ w.names) :
    w'.Orderly := by
  refine ⟨?_, same ▸ orderly.distinct, ?_, ?_⟩
  · intro h id l t owner registered
    rw [same]
    exact orderly.links h id l t owner (links h id l t owner registered)
  · intro name t ht
    rw [same]
    exact orderly.named name t (names name t ht)
  · intro name other t ht ho
    exact orderly.unique name other t (names name t ht) (names other t ho)

theorem of_sameNames (orderly : w.Orderly) (same : w.SameNames w')
    (links : ∀ h id l t, l.owner? = some t → w'.Registered h id l → w.Registered h id l) :
    w'.Orderly :=
  orderly.of_fewer same.translator? links fun name t => by
    rw [same.names]
    exact id

/-- One translator changes, or is new, and keeps all its links that are registered. -/
theorem revise (orderly : w.Orderly) {t : TranslatorId} {s : TranslatorState}
    (translators : ∀ u, w'.translator? u = if u = t then some s else w.translator? u)
    (others : ∀ h id l, l.owner? ≠ some t → w'.Registered h id l → w.Registered h id l)
    (own : ∀ h id l, l.owner? = some t → w'.Registered h id l → s.live = true ∧ s.Keeps h id l)
    (distinct : s.targetHandlers.Nodup)
    (names : ∀ name u, (name, .translator u) ∈ w'.names →
      (name, .translator u) ∈ w.names ∧ (u = t → s.live = true)) : w'.Orderly := by
  refine ⟨?_, ?_, ?_, ?_⟩
  · intro h id l u owner registered
    rw [translators]
    by_cases here : u = t
    · subst here
      rw [if_pos rfl]
      exact ⟨s, rfl, own h id l owner registered⟩
    · have elsewhere : l.owner? ≠ some t := fun e => here (Option.some.inj (owner.symm.trans e))
      rw [if_neg here]
      exact orderly.links h id l u owner (others h id l elsewhere registered)
  · intro u s' hu
    rw [translators] at hu
    split at hu
    · cases hu
      exact distinct
    · exact orderly.distinct u s' hu
  · intro name u hu
    obtain ⟨before, live⟩ := names name u hu
    rw [translators]
    split
    · rename_i here
      exact ⟨s, rfl, live here⟩
    · exact orderly.named name u before
  · intro name other u hu ho
    exact orderly.unique name other u (names name u hu).1 (names other u ho).1

section Translators

variable {t : TranslatorId} {s : TranslatorState}

theorem translator?_modifyTranslator_of_some (found : w.translator? t = some s)
    (f : TranslatorState → TranslatorState) (u : TranslatorId) :
    (w.modifyTranslator t f).translator? u = if u = t then some (f s) else w.translator? u := by
  rw [translator?_modifyTranslator]
  split
  · rename_i here
    rw [here, found, Option.map_some]
  · rfl

/-- The links of a translator that is there are its own. -/
theorem keeps (orderly : w.Orderly) (found : w.translator? t = some s) {h : HandlerId}
    {id : ListenerId} {l : Listener} (owner : l.owner? = some t)
    (registered : w.Registered h id l) : s.live = true ∧ s.Keeps h id l := by
  obtain ⟨s', found', live, keeps⟩ := orderly.links h id l t owner registered
  cases found.symm.trans found'
  exact ⟨live, keeps⟩

theorem exists_keeps (orderly : w.Orderly) (sound : w.Sound) (found : w.translator? t = some s)
    {h : HandlerId} {l : Listener} (owner : l.owner? = some t) (mem : l ∈ w.listeners h) :
    s.live = true ∧ ∃ id, s.Keeps h id l := by
  obtain ⟨id, registered⟩ := (exists_registered_iff sound).mpr mem
  obtain ⟨live, keeps⟩ := orderly.keeps found owner registered
  exact ⟨live, id, keeps⟩

theorem live (orderly : w.Orderly) (found : w.translator? t = some s) {name : String}
    {u : TranslatorId} (named : (name, .translator u) ∈ w.names) (here : u = t) :
    s.live = true := by
  obtain ⟨s', found', live⟩ := orderly.named name u named
  cases found.symm.trans (here ▸ found')
  exact live

theorem setMapper (orderly : w.Orderly) (t : TranslatorId) (m : Option MapperId) :
    (w.setMapper t m).Orderly := by
  cases found : w.translator? t with
  | none =>
      refine orderly.of_fewer ?_ (fun _ _ _ _ _ => id) fun _ _ => id
      funext u
      rw [World.setMapper, translator?_modifyTranslator]
      split
      · rename_i here
        rw [here, found, Option.map_none]
      · rfl
  | some s =>
      refine orderly.revise (translator?_modifyTranslator_of_some found _) (fun _ _ _ _ => id) ?_
        (orderly.distinct t s found) ?_
      · intro h id l owner registered
        have kept := orderly.keeps found owner registered
        cases l <;> exact kept
      · exact fun name u named => ⟨named, orderly.live found named⟩

/-- A target goes together with the reset link on it. -/
theorem removeTarget (orderly : w.Orderly) (found : w.translator? t = some s) (h : HandlerId) :
    (w.removeTarget t s h).2.Orderly := by
  rw [World.removeTarget]
  split
  · rename_i target chosen
    have mem := List.mem_of_find?_eq_some chosen
    have here : target.handler = h := by simpa using List.find?_some chosen
    have distinct := orderly.distinct t s found
    let dropped := w.modifyTranslator t fun s =>
      { s with targets := s.targets.filter fun other => !decide (other.handler = h) }
    have same : dropped.SameNames (dropped.release target) := sameNames_release dropped target
    have registered_iff : ∀ g id l, (dropped.release target).Registered g id l ↔
        w.Registered g id l ∧ ¬ (g = target.handler ∧ id = target.resetLink) :=
      fun g id l => registered_detach (w := dropped)
    refine orderly.revise (t := t)
      (s := { s with targets := s.targets.filter fun other => !decide (other.handler = h) })
      (fun u => ?_) (fun g id l _ registered => ?_) ?_ ?_ ?_
    · rw [same.translator?]
      exact translator?_modifyTranslator_of_some found _ u
    · exact ((registered_iff g id l).mp registered).1
    · intro g id l owner registered
      obtain ⟨before, other⟩ := (registered_iff g id l).mp registered
      obtain ⟨live, kept⟩ := orderly.keeps found owner before
      refine ⟨live, ?_⟩
      cases l with
      | view name => exact kept
      | sourceLink u => exact kept
      | resetLink u =>
          -- Another reset link on `h` would make it a target twice.
          have elsewhere : g ≠ h := fun there => other (by
            cases List.inj_on_of_nodup_map distinct kept mem (there.trans here.symm)
            exact ⟨rfl, rfl⟩)
          exact List.mem_filter.mpr ⟨kept, by simp [elsewhere]⟩
    · exact distinct.sublist (List.filter_sublist.map _)
    · intro name u named
      rw [same.names] at named
      exact ⟨named, orderly.live found named⟩
  · exact orderly

/-- All targets go together with the reset links on them. -/
theorem removeAllTargets (orderly : w.Orderly) (found : w.translator? t = some s) :
    (w.removeAllTargets t s).Orderly := by
  let dropped := w.modifyTranslator t fun s => { s with targets := [] }
  have same : dropped.SameNames (w.removeAllTargets t s) :=
    sameNames_foldl_release s.targets dropped
  have registered_iff : ∀ g id l, (w.removeAllTargets t s).Registered g id l ↔
      w.Registered g id l ∧ ⟨g, id⟩ ∉ s.targets :=
    fun g id l => registered_foldl_release (w := dropped) s.targets
  refine orderly.revise (t := t) (s := { s with targets := [] }) (fun u => ?_)
    (fun g id l _ registered => ?_) ?_ List.nodup_nil ?_
  · rw [same.translator?]
    exact translator?_modifyTranslator_of_some found _ u
  · exact ((registered_iff g id l).mp registered).1
  · intro g id l owner registered
    obtain ⟨before, other⟩ := (registered_iff g id l).mp registered
    obtain ⟨live, kept⟩ := orderly.keeps found owner before
    refine ⟨live, ?_⟩
    cases l with
    | view name => exact kept
    | sourceLink u => exact kept
    | resetLink u => exact absurd kept other
  · intro name u named
    rw [same.names] at named
    exact ⟨named, orderly.live found named⟩

/-- A translator is dropped together with all its links and its name. -/
theorem dropTranslator (orderly : w.Orderly) (found : w.translator? t = some s) {name : String}
    (named : (name, .translator t) ∈ w.names) :
    ((w.dropTranslator t s).forget name).Orderly := by
  let dropped := w.modifyTranslator t fun s => { s with targets := [] }
  let bare := w.removeAllTargets t s
  let unlinked := (bare.detach s.source s.sourceLink).2
  have orderly' : bare.Orderly := orderly.removeAllTargets found
  have emptied : dropped.SameNames bare := sameNames_foldl_release s.targets dropped
  have found' : bare.translator? t = some { s with targets := [] } := by
    rw [emptied.translator?, translator?_modifyTranslator_of_some found, if_pos rfl]
  have names : unlinked.names = bare.names := (sameNames_detach bare s.source s.sourceLink).names
  have same : unlinked.translator? = bare.translator? :=
    (sameNames_detach bare s.source s.sourceLink).translator?
  have registered_iff : ∀ g id l, ((w.dropTranslator t s).forget name).Registered g id l ↔
      bare.Registered g id l ∧ ¬ (g = s.source ∧ id = s.sourceLink) :=
    fun g id l => registered_detach (w := bare)
  refine orderly'.revise (t := t) (s := ⟨s.source, s.sourceLink, [], s.mapper, false⟩)
    (fun u => ?_) (fun g id l _ registered => ?_) ?_ List.nodup_nil ?_
  · rw [← same] at found' ⊢
    exact translator?_modifyTranslator_of_some (w := unlinked) found' _ u
  · exact ((registered_iff g id l).mp registered).1
  · intro g id l owner registered
    obtain ⟨before, other⟩ := (registered_iff g id l).mp registered
    obtain ⟨-, kept⟩ := orderly'.keeps found' owner before
    cases l with
    | view name => exact kept.elim
    | sourceLink u => exact absurd ⟨kept.1.symm, kept.2.symm⟩ other
    | resetLink u => cases kept
  · intro other u otherNamed
    obtain ⟨mem, ne⟩ := List.mem_filter.mp otherNamed
    have before : (other, .translator u) ∈ bare.names := names ▸ mem
    refine ⟨before, ?_⟩
    rintro rfl
    -- The name that is forgotten was the only one.
    rw [emptied.names] at before
    exact absurd (orderly.unique other name u before named) (of_decide_eq_true ne)

/-- A handler becomes a target together with the reset link on it. -/
theorem addTarget (orderly : w.Orderly) (sound : w.Sound) (found : w.translator? t = some s)
    (live : s.live = true) (h : HandlerId) : (w.addTarget t s h).2.Orderly := by
  rw [World.addTarget]
  split
  · exact orderly
  · split
    · exact orderly
    · rename_i absent
      let attached := w.attach h (.resetLink t)
      have same : w.SameNames attached.2 := sameNames_attach w h (.resetLink t)
      refine orderly.revise (t := t) (s := { s with targets := s.targets ++ [⟨h, attached.1⟩] })
        (fun u => ?_) (fun g id l elsewhere registered => ?_) ?_ ?_ ?_
      · rw [← same.translator?] at found ⊢
        exact translator?_modifyTranslator_of_some (w := attached.2) found _ u
      · obtain before | ⟨-, -, rfl⟩ := registered_attach sound registered
        · exact before
        · exact absurd rfl elsewhere
      · intro g id l owner registered
        refine ⟨live, ?_⟩
        obtain before | ⟨rfl, rfl, rfl⟩ := registered_attach sound registered
        · have kept := (orderly.keeps found owner before).2
          cases l with
          | view name => exact kept
          | sourceLink u => exact kept
          | resetLink u => exact List.mem_append_left _ kept
        · exact List.mem_append_right _ (List.mem_singleton_self _)
      · rw [TranslatorState.targetHandlers, List.map_append]
        refine List.nodup_append.mpr ⟨orderly.distinct t s found, by simp, ?_⟩
        rintro g hg other ho rfl
        cases List.mem_singleton.mp ho
        exact absent hg
      · exact fun name u named => ⟨same.names ▸ named, fun _ => live⟩

/-- A new translator has its source link, no other, and no name yet. -/
theorem addTranslator (orderly : w.Orderly) (sound : w.Sound) (source : HandlerId) :
    (w.addTranslator source).2.Orderly ∧
      (∃ s, (w.addTranslator source).2.translator? (w.addTranslator source).1 = some s ∧
        s.live = true) ∧
      ∀ name, (name, .translator (w.addTranslator source).1) ∉
        (w.addTranslator source).2.names := by
  let t : TranslatorId := ⟨w.translators.next⟩
  let attached := w.attach source (.sourceLink t)
  have same : w.SameNames attached.2 := sameNames_attach w source (.sourceLink t)
  have new : w.translator? t = none := by
    rw [translator?, ← Option.not_isSome_iff_eq_none, Store.get?_isSome_iff]
    simp only [t, Store.next]
    omega
  have unnamed : ∀ name, (name, .translator t) ∉ w.names := by
    intro name named
    obtain ⟨s, found, -⟩ := orderly.named name t named
    rw [new] at found
    cases found
  have translators : ∀ u, (w.addTranslator source).2.translator? u =
      if u = t then some ⟨source, attached.1, [], none, true⟩ else w.translator? u := by
    intro u
    change (attached.2.translators.push _).get? u.number = _
    rw [same.translators, Store.get?_push]
    obtain ⟨n⟩ := u
    simp only [t, TranslatorId.mk.injEq]
    rfl
  refine ⟨orderly.revise translators (fun g id l elsewhere registered => ?_) ?_
    List.nodup_nil ?_,
    ⟨_, (translators t).trans (if_pos rfl), rfl⟩, fun name named => ?_⟩
  · obtain before | ⟨-, -, rfl⟩ := registered_attach sound registered
    · exact before
    · exact absurd rfl elsewhere
  · intro g id l owner registered
    refine ⟨rfl, ?_⟩
    obtain before | ⟨rfl, rfl, rfl⟩ := registered_attach sound registered
    · obtain ⟨s, found, -⟩ := orderly.links g id l t owner before
      rw [new] at found
      cases found
    · exact ⟨rfl, rfl⟩
  · exact fun name u named => ⟨same.names ▸ named, fun _ => rfl⟩
  · exact unnamed name (same.names ▸ named)

end Translators

/-- A name is given that no translator gets, or that a live one gets which has none. -/
theorem bind (orderly : w.Orderly) {name : String} {subject : Subject}
    (new : ∀ t, subject = .translator t →
      (∃ s, w.translator? t = some s ∧ s.live = true) ∧ ∀ other, (other, .translator t) ∉ w.names) :
    (w.bind name subject).Orderly := by
  have given : ∀ other t, (other, Subject.translator t) ∈ (w.bind name subject).names ↔
      (other, .translator t) ∈ w.names ∨ (other = name ∧ subject = .translator t) := by
    intro other t
    rw [World.bind, List.mem_append, List.mem_singleton, Prod.mk.injEq, eq_comm (a := subject)]
  refine ⟨orderly.links, orderly.distinct, ?_, ?_⟩
  · intro other t named
    obtain before | ⟨-, same⟩ := (given other t).mp named
    · exact orderly.named other t before
    · exact (new t same).1
  · intro first second t named named'
    obtain before | ⟨rfl, same⟩ := (given first t).mp named
    · obtain before' | ⟨-, same⟩ := (given second t).mp named'
      · exact orderly.unique first second t before before'
      · exact absurd before ((new t same).2 first)
    · obtain before | ⟨rfl, -⟩ := (given second t).mp named'
      · exact absurd before ((new t same).2 second)
      · rfl

theorem of_extends (orderly : w.Orderly) (extends' : w.Extends w') (same : w.SameNames w') :
    w'.Orderly :=
  orderly.of_sameNames same fun _ _ _ _ _ registered => by
    rw [Registered, extends'.registries] at registered
    exact registered

theorem detach (orderly : w.Orderly) (h : HandlerId) (id : ListenerId) :
    (w.detach h id).2.Orderly :=
  orderly.of_sameNames (sameNames_detach w h id) fun _ _ _ _ _ registered =>
    (registered_detach.mp registered).1

theorem detachListener (orderly : w.Orderly) (h : HandlerId) (l : Listener) :
    (w.detachListener h l).2.Orderly := by
  rw [World.detachListener]
  split
  · exact orderly.detach h _
  · exact orderly

theorem detachAll (orderly : w.Orderly) (h : HandlerId) : (w.detachAll h).Orderly := by
  refine orderly.of_sameNames ⟨rfl, rfl⟩ fun g id l t _ registered => ?_
  rw [Registered, World.detachAll, registryOf_setRegistry] at registered
  split at registered
  · rw [Registry.clear_eq_empty, Registry.get?_empty] at registered
    cases registered
  · exact registered

theorem attachView (orderly : w.Orderly) (sound : w.Sound) (h : HandlerId) (name : String) :
    (w.attach h (.view name)).2.Orderly := by
  refine orderly.of_sameNames (sameNames_attach w h _) fun g id l t owner registered => ?_
  obtain before | ⟨-, -, rfl⟩ := registered_attach sound registered
  · exact before
  · cases owner

theorem mem_names_of_translatorNamed? {name : String} {t : TranslatorId}
    (h : w.translatorNamed? name = some t) : (name, .translator t) ∈ w.names := by
  rw [translatorNamed?] at h
  split at h
  · rename_i found
    cases h
    obtain ⟨front, back, split, -⟩ := List.lookup_eq_some_iff.mp found
    exact split ▸ List.mem_append_right _ List.mem_cons_self
  · cases h

theorem introduce (orderly : w.Orderly) (sound : w.Sound) (name : String) (source : HandlerId) :
    (w.introduce name source).Orderly := by
  obtain ⟨added, live, unnamed⟩ := orderly.addTranslator sound source
  refine added.bind fun t same => ?_
  cases same
  exact ⟨live, unnamed⟩

theorem of_layout (orderly : w.Orderly) (same : w'.layout = w.layout) : w'.Orderly :=
  orderly.of_extends (.of_layout same)
    ⟨congrArg Layout.translators same, congrArg Layout.names same⟩

theorem addMapperOf (orderly : w.Orderly) (spec : MapperSpec Op) :
    (w.addMapperOf spec).2.Orderly :=
  orderly.of_extends (Extends.addMapperOf w spec) ⟨rfl, rfl⟩

/-- Actions keep a world orderly. -/
theorem of_effect (orderly : w.Orderly) (sound : w.Sound) {a : Action Op}
    (h : w.Effect a w') : w'.Orderly := by
  cases h with
  | nothing => exact orderly
  | createHandler =>
      exact (orderly.of_extends (Extends.addHandler w _) ⟨rfl, rfl⟩).bind (by simp)
  | dropHandler =>
      exact orderly.of_fewer rfl (fun _ _ _ _ _ => id) fun _ _ named => (List.mem_filter.mp named).1
  | createListener => exact orderly.of_extends (Extends.addView w _ _) ⟨rfl, rfl⟩
  | addListener => exact orderly.attachView sound _ _
  | removeListener => exact orderly.detachListener _ _
  | removeListenerId => exact orderly.detach _ _
  | removeAllListeners => exact orderly.detachAll _
  | createTranslator => exact orderly.introduce sound _ _
  | createMapped => exact ((orderly.introduce sound _ _).addMapperOf _).setMapper _ _
  | addTarget named found =>
      have live := orderly.live found (mem_names_of_translatorNamed? named) rfl
      exact orderly.addTarget sound found live _
  | removeTarget _ found => exact orderly.removeTarget found _
  | removeAllTargets _ found => exact orderly.removeAllTargets found

theorem of_alters (orderly : w.Orderly) (sound : w.Sound) {op : Op} (h : w.Alters op w') :
    w'.Orderly := by
  cases h with
  | still same => exact orderly.of_layout same
  | act effect => exact orderly.of_effect sound effect
  | mapper same => exact (orderly.addMapperOf _).of_layout same
  | dropTranslator named found =>
      exact orderly.dropTranslator found (mem_names_of_translatorNamed? named)

end Orderly

end World

namespace Config

/-- Moves of a session keep a world orderly. -/
theorem Next.orderly {c d : Config} (h : Next c d) (orderly : c.world.Orderly)
    (sound : c.world.Sound) : d.world.Orderly := by
  cases h with
  | perform op _ => exact orderly.of_alters sound (alters_perform _ _ op)
  | step h =>
      obtain same | ⟨t, m, n, replaced⟩ | ⟨f, stack, op, -, -, rfl⟩ := step_layout h
      · exact orderly.of_layout same
      · exact replaced ▸ (orderly.setMapper t m).of_layout rfl
      · exact orderly.of_alters sound (alters_perform _ _ op)

/-- Sessions keep an orderly world orderly. -/
theorem Path.orderly {P : Config → Prop} {c d : Config} (h : Path P c d) (sound : c.world.Sound)
    (orderly : c.world.Orderly) : d.world.Orderly :=
  (h.keeps (I := fun c => c.world.Sound ∧ c.world.Orderly) ⟨sound, orderly⟩
    fun _ _ _ _ next before =>
      ⟨(next.rewires before.1).1, next.orderly before.2 before.1⟩).2

/-- Whatever is reached is orderly. -/
theorem Reached.orderly {c : Config} (h : Reached c) : c.world.Orderly :=
  Path.orderly h (.of_bare rfl rfl) (.of_bare rfl rfl rfl)

/-- A session has come to a configuration since it began, with nothing under way, in a sound and
orderly world. -/
structure Since (b c : Config) : Prop where
  idle : b.stack = []
  begins : b.world.Sound ∧ b.world.Orderly
  path : Path (fun _ => True) b c

namespace Since

variable {b c d : Config}

theorem sound (h : Since b c) : c.world.Sound := h.path.sound h.begins.1

theorem orderly (h : Since b c) : c.world.Orderly := h.path.orderly h.begins.1 h.begins.2

theorem next (h : Since b c) (next : Next c d) : Since b d :=
  ⟨h.idle, h.begins, .tail h.path next trivial⟩

end Since

theorem Reached.since {c : Config} (h : Reached c) : Since ⟨∅, [], none⟩ c :=
  ⟨rfl, ⟨.of_bare rfl rfl, .of_bare rfl rfl rfl⟩, h⟩

end Config

end HighlightSync
