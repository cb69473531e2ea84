import HighlightSync.Proofs.Uniform

/-!
# The ledger of a cascade

As long as nobody is registered or taken away, everybody registered on a handler is told
once of everything that it announces: the callbacks so far and those still to come are the
announced events, each with all listeners of its handler (`Ledger`). The order is another
matter, since events are announced in the middle of others.
-/

namespace HighlightSync

namespace World

/-- Everybody registered on the handler of an event, with the event. -/
def audience (w : World) (e : Event) : List (Listener × Event) :=
  (w.listeners e.source).map (·, e)

end World

namespace Config

/-- The callbacks since an earlier world and those still to come make up the audience of all
events announced since then. -/
structure Ledger (w : World) (c : Config) : Prop where
  heard : w.heard <+: c.world.heard
  announced : w.announced <+: c.world.announced
  balanced : (w.heardSince c.world ++ c.tells).Perm
    ((w.announcedSince c.world).flatMap w.audience)

namespace Ledger

variable {w : World} {c d : Config}

theorem start (still : Still w [] c) : Ledger w c := by
  have heard : c.world.heard = w.heard := congrArg Observed.heard still.observed
  have announced : c.world.announced = w.announced := congrArg Observed.announced still.observed
  refine ⟨heard ▸ List.prefix_refl _, announced ▸ List.prefix_refl _, ?_⟩
  rw [World.heardSince, World.announcedSince, heard, announced, still.tells]
  simp

/-- The ledger stays balanced while the layout stays as it is. -/
theorem step (ledger : Ledger w c) (sound : w.Sound) (layout : c.world.layout = w.layout)
    (hs : c.step = some d) : Ledger w d := by
  cases step_delivers hs with
  | silent tells observed =>
      have heard : d.world.heard = c.world.heard := congrArg Observed.heard observed
      have announced : d.world.announced = c.world.announced :=
        congrArg Observed.announced observed
      refine ⟨heard ▸ ledger.heard, announced ▸ ledger.announced, ?_⟩
      rw [World.heardSince, World.announcedSince, heard, announced, tells]
      exact ledger.balanced
  | told l e tells observed =>
      have heard : d.world.heard = c.world.heard ++ [(l, e)] := congrArg Observed.heard observed
      have announced : d.world.announced = c.world.announced :=
        congrArg Observed.announced observed
      refine ⟨heard ▸ ledger.heard.trans (List.prefix_append _ _), announced ▸ ledger.announced, ?_⟩
      have balanced := ledger.balanced
      rw [tells, List.append_cons] at balanced
      rw [World.heardSince_append ledger.heard heard, World.announcedSince, announced]
      exact balanced
  | skipped name e unknown tells observed =>
      have owed : (Listener.view name, e) ∈
          (w.announcedSince c.world).flatMap w.audience := by
        refine ledger.balanced.subset (List.mem_append_right _ ?_)
        rw [tells]
        exact List.mem_cons_self
      obtain ⟨_, -, mem⟩ := List.mem_flatMap.mp owed
      obtain ⟨_, registered, same⟩ := List.mem_map.mp mem
      cases same
      have known := sound.views _ name registered
      rw [← World.view?_isSome_of_layout layout, unknown] at known
      cases known
  | announced h change _ _ tells observed =>
      have heard : d.world.heard = c.world.heard := congrArg Observed.heard observed
      have announced : d.world.announced = c.world.announced ++ [⟨h, change⟩] :=
        congrArg Observed.announced observed
      refine ⟨heard ▸ ledger.heard, announced ▸ ledger.announced.trans (List.prefix_append _ _), ?_⟩
      rw [World.heardSince, heard, World.announcedSince_append ledger.announced announced, tells,
        World.listeners_of_layout layout, List.flatMap_append, List.flatMap_singleton]
      refine List.perm_append_comm_assoc _ _ _ |>.trans ?_
      exact (ledger.balanced.append_left _).trans List.perm_append_comm

/-- At rest each listener has heard each event of its handler as often as it was announced,
and nobody else has. -/
theorem countP_heard (ledger : Ledger w c) (sound : w.Sound) (rest : c.stack = [])
    {h : HandlerId} {l : Listener} {p : Event → Bool} (own : ∀ e, p e = true → e.source = h) :
    (w.heardSince c.world).countP (fun t => decide (t.1 = l) && p t.2) =
      if l ∈ w.listeners h then (w.announcedSince c.world).countP p else 0 := by
  have nothing : c.tells = [] := tells_of_atRest (atRest_iff.mpr rest)
  have balanced := ledger.balanced
  rw [nothing, List.append_nil] at balanced
  rw [balanced.countP_eq]
  have each : ∀ e, (w.audience e).countP (fun t => decide (t.1 = l) && p t.2) =
      if l ∈ w.listeners h ∧ p e = true then 1 else 0 := by
    intro e
    rw [World.audience, List.countP_map]
    by_cases carries : p e = true
    · have once : (w.listeners h).Nodup := (sound.registries h).nodup
      simp only [Function.comp_def, carries, Bool.and_true, and_true, own e carries]
      exact (once.count (a := l)).symm ▸ rfl
    · simp [Function.comp_def, carries]
  induction w.announcedSince c.world with
  | nil => simp
  | cons e events ih =>
      rw [List.flatMap_cons, List.countP_append, ih, each, List.countP_cons]
      by_cases registered : l ∈ w.listeners h
      · simp only [registered, true_and, if_true]
        omega
      · simp [registered]

/-- At rest the callbacks for a handler are its events, each with all its listeners. -/
theorem filter_heard (ledger : Ledger w c) (rest : c.stack = []) (h : HandlerId) :
    ((w.heardSince c.world).filter fun t => decide (t.2.source = h)).Perm
      (((w.announcedSince c.world).filter fun e => decide (e.source = h)).flatMap w.audience) := by
  have nothing : c.tells = [] := tells_of_atRest (atRest_iff.mpr rest)
  have balanced := ledger.balanced
  rw [nothing, List.append_nil] at balanced
  refine (balanced.filter _).trans (.of_eq ?_)
  have each : ∀ e, (w.audience e).filter (fun t => decide (t.2.source = h)) =
      if e.source = h then w.audience e else [] := by
    intro e
    rw [World.audience, List.filter_map]
    by_cases own : e.source = h
    · simp [Function.comp_def, own]
    · simp [Function.comp_def, own]
  induction w.announcedSince c.world with
  | nil => rfl
  | cons e events ih =>
      rw [List.flatMap_cons, List.filter_append, ih, each, List.filter_cons]
      by_cases own : e.source = h
      · simp [own]
      · simp [own]

end Ledger

end Config

end HighlightSync
