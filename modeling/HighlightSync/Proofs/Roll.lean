import HighlightSync.Proofs.Bystanders

/-!
# Registries as rolls

A roll is the plain list of who is registered, in order of registration, each under an identity. It
serves the four requests that can be made to a registry (`Roll.Serves`): whoever is new comes to the
end under a free identity, and whoever goes leaves the others where they are.

A registry, with its slots, order and stored list, is one way to keep a roll (`Registry.Keeps`). It
answers every request as its roll does and keeps the new roll (`Registry.Sound.serves`), through any
row of requests (`Registry.Sound.serves_all`).
-/

namespace HighlightSync

/-- Who is registered under which identity, in order of registration. -/
abbrev Roll (α : Type u) := List (ListenerId × α)

namespace Registry

/-- What can be asked of a registry. -/
inductive Request (α : Type u) where
  | add (a : α)
  | remove (a : α)
  | removeId (id : ListenerId)
  | clear

/-- The answer to a request. -/
inductive Outcome where
  | id (id : ListenerId)
  | found (b : Bool)
  | done
  deriving DecidableEq

variable {α : Type u}

/-- Who is registered, in order. -/
def roll (r : Registry α) : Roll α := r.order.filterMap fun id => (r.get? id).map fun a => (id, a)

/-- Remove the registration with an identity. Tells whether there was one. -/
def performRemoveId (r : Registry α) (id : ListenerId) : Outcome × Registry α :=
  (.found (r.get? id).isSome, r.remove id)

variable [DecidableEq α]

/-- Carry out a request. -/
def perform (r : Registry α) : Request α → Outcome × Registry α
  | .add a => ((.id (r.register a).1), (r.register a).2)
  | .remove a => (r.find? a).elim (.found false, r) r.performRemoveId
  | .removeId id => r.performRemoveId id
  | .clear => (.done, r.clear)

/-- Carry out requests, one after the other. -/
def performAll (r : Registry α) : List (Request α) → List Outcome × Registry α
  | [] => ([], r)
  | request :: requests =>
      let (outcome, r) := r.perform request
      let (outcomes, r) := r.performAll requests
      (outcome :: outcomes, r)

end Registry

namespace Roll

open Registry (Request Outcome)

variable {α : Type u} [DecidableEq α]

/-- How a roll serves a request: the answer, and the roll afterwards. -/
inductive Serves (roll : Roll α) : Request α → Outcome → Roll α → Prop where
  | known {id : ListenerId} {a : α} (registered : (id, a) ∈ roll) :
      Serves roll (.add a) (.id id) roll
  | added {id : ListenerId} {a : α} (new : a ∉ roll.map Prod.snd)
      (free : id ∉ roll.map Prod.fst) : Serves roll (.add a) (.id id) (roll ++ [(id, a)])
  | remove (a : α) :
      Serves roll (.remove a) (.found (decide (a ∈ roll.map Prod.snd)))
        (roll.filter fun entry => !decide (entry.2 = a))
  | removeId (id : ListenerId) :
      Serves roll (.removeId id) (.found (decide (id ∈ roll.map Prod.fst)))
        (roll.filter fun entry => !decide (entry.1 = id))
  | clear : Serves roll .clear .done []

/-- How a roll serves a row of requests. -/
inductive ServesAll : Roll α → List (Request α) → List Outcome → Roll α → Prop where
  | nil (roll : Roll α) : ServesAll roll [] [] roll
  | cons {roll roll' roll'' : Roll α} {request : Request α} {requests : List (Request α)}
      {outcome : Outcome} {outcomes : List Outcome} (first : roll.Serves request outcome roll')
      (rest : ServesAll roll' requests outcomes roll'') :
      ServesAll roll (request :: requests) (outcome :: outcomes) roll''

end Roll

namespace Registry

variable {α : Type u}

/-- A registry keeps a roll: the order has the identities and the stored list the registered, the
occupied slots are those of the roll, and neither an identity nor a registered occurs twice. -/
structure Keeps (r : Registry α) (roll : Roll α) : Prop where
  order : r.order = roll.map Prod.fst
  snapshot : r.snapshot = roll.map Prod.snd
  slots : ∀ id a, r.slot? id.slot = some ⟨id.version, some a⟩ ↔ (id, a) ∈ roll
  lookup : ∀ id a, r.get? id = some a ↔ (id, a) ∈ roll
  ids_nodup : (roll.map Prod.fst).Nodup
  nodup : (roll.map Prod.snd).Nodup
  count : r.size = roll.length

theorem order_append (r : Registry α) (a : α) :
    (r.append a).2.order = r.order ++ [(r.append a).1] := by
  obtain ⟨slots, free, order, snapshot⟩ := r
  cases free <;> rfl

theorem order_remove {r : Registry α} {id : ListenerId} {a : α} (found : r.get? id = some a) :
    (r.remove id).order = r.order.filter fun other => !decide (other = id) := by
  simp only [remove, found]
  rfl

namespace Sound

variable {r : Registry α} (sound : r.Sound)

include sound

theorem mem_roll {id : ListenerId} {a : α} : (id, a) ∈ r.roll ↔ r.get? id = some a := by
  rw [roll, List.mem_filterMap]
  constructor
  · rintro ⟨other, -, entry⟩
    obtain ⟨b, found, same⟩ := Option.map_eq_some_iff.mp entry
    cases same
    exact found
  · intro found
    exact ⟨id, (sound.listed id).mpr (found ▸ rfl), by rw [found]; rfl⟩

theorem map_fst_roll : r.roll.map Prod.fst = r.order := by
  rw [roll, List.map_filterMap]
  refine (List.filterMap_congr fun id listed => ?_).trans List.filterMap_some
  obtain ⟨a, found⟩ := Option.isSome_iff_exists.mp ((sound.listed id).mp listed)
  rw [found]
  rfl

theorem map_snd_roll : r.roll.map Prod.snd = r.snapshot := by
  rw [roll, List.map_filterMap, sound.stored]
  refine List.filterMap_congr fun id _ => ?_
  cases r.get? id <;> rfl

/-- A sound registry keeps a roll. -/
theorem keeps : r.Keeps r.roll where
  order := sound.map_fst_roll.symm
  snapshot := sound.map_snd_roll.symm
  slots _ _ := get?_eq_some_iff.symm.trans sound.mem_roll.symm
  lookup _ _ := sound.mem_roll.symm
  ids_nodup := sound.map_fst_roll ▸ sound.order_nodup
  nodup := sound.map_snd_roll ▸ sound.nodup
  count := by rw [size, ← sound.map_fst_roll, List.length_map]

theorem append_fresh (a : α) : (r.append a).1 ∉ r.order := by
  obtain ⟨i, v, name, -, nobody, -⟩ := occupy_spec sound.vacant sound.free_nodup a
  rw [sound.listed, show (r.append a).1 = ⟨i, v⟩ from name, nobody _ rfl]
  exact Bool.false_ne_true

theorem roll_append (a : α) : (r.append a).2.roll = r.roll ++ [((r.append a).1, a)] := by
  rw [roll, order_append, List.filterMap_append, roll]
  refine congrArg₂ _ (List.filterMap_congr fun id listed => ?_) ?_
  · rw [sound.get?_append, if_neg (ne_of_mem_of_not_mem listed (sound.append_fresh a))]
  · simp [sound.get?_append a]

theorem roll_remove (id : ListenerId) :
    (r.remove id).roll = r.roll.filter fun entry => !decide (entry.1 = id) := by
  cases found : r.get? id with
  | none =>
      rw [remove_of_get?_eq_none found, eq_comm, List.filter_eq_self]
      rintro ⟨other, a⟩ mem
      have there := sound.mem_roll.mp mem
      have different : other ≠ id := fun same => by cases found.symm.trans (same ▸ there)
      simp [different]
  | some a =>
      have kept : ∀ other ∈ r.order.filter fun other => !decide (other = id),
          (r.remove id).get? other = r.get? other := fun other mem => by
        rw [get?_remove, if_neg (by simpa using (List.mem_filter.mp mem).2)]
      rw [roll, order_remove found, List.filterMap_congr fun other mem => by rw [kept other mem],
        roll, List.filterMap_filter, List.filter_filterMap]
      refine List.filterMap_congr fun other _ => ?_
      by_cases same : other = id
      · cases r.get? other <;> simp [same, Option.filter]
      · cases r.get? other <;> simp [same, Option.filter]

theorem same_entry_iff {id : ListenerId} {a : α} {other : ListenerId × α} (here : (id, a) ∈ r.roll)
    (there : other ∈ r.roll) : other.2 = a ↔ other.1 = id := by
  obtain ⟨i, b⟩ := other
  rw [sound.mem_roll] at here there
  constructor
  · rintro rfl
    exact sound.get?_injective there here
  · rintro rfl
    exact Option.some.inj (there.symm.trans here)

variable [DecidableEq α]

theorem mem_roll_of_find? {a : α} {id : ListenerId} (found : r.find? a = some id) :
    (id, a) ∈ r.roll :=
  sound.mem_roll.mpr (by simpa using List.find?_some found)

theorem serves_removeId (id : ListenerId) :
    r.roll.Serves (.removeId id) (r.performRemoveId id).1 (r.performRemoveId id).2.roll := by
  have told : (r.get? id).isSome = decide (id ∈ r.roll.map Prod.fst) := by
    rw [Bool.eq_iff_iff, decide_eq_true_iff, sound.map_fst_roll, sound.listed]
  rw [performRemoveId, told, sound.roll_remove]
  exact .removeId id

/-- A removal is served, too: whoever is registered is removed under the only identity it has. -/
theorem serves_remove (a : α) :
    r.roll.Serves (.remove a) (r.perform (.remove a)).1 (r.perform (.remove a)).2.roll := by
  have served : r.roll.Serves (.remove a) _ _ := .remove a
  cases found : r.find? a with
  | none =>
      have absent : a ∉ r.roll.map Prod.snd :=
        sound.map_snd_roll ▸ sound.find?_eq_none_iff.mp found
      have all : (r.roll.filter fun entry => !decide (entry.2 = a)) = r.roll :=
        List.filter_eq_self.mpr fun entry mem => by
          simpa using ne_of_mem_of_not_mem (List.mem_map_of_mem mem) absent
      rw [all, decide_eq_false absent] at served
      simpa only [perform, found, Option.elim_none] using served
  | some id =>
      have entry := sound.mem_roll_of_find? found
      have others : (r.roll.filter fun entry => !decide (entry.2 = a)) =
          r.roll.filter fun entry => !decide (entry.1 = id) :=
        List.filter_congr fun other mem => by
          rw [← decide_not, ← decide_not, decide_eq_decide, not_iff_not]
          exact sound.same_entry_iff entry mem
      rw [others, decide_eq_true (List.mem_map_of_mem entry)] at served
      simp only [perform, found, Option.elim_some, performRemoveId, sound.roll_remove,
        sound.mem_roll.mp entry]
      exact served

/-- A registry answers every request as its roll does, and keeps the new roll. -/
theorem serves (request : Request α) :
    (r.perform request).2.Sound ∧
      r.roll.Serves request (r.perform request).1 (r.perform request).2.roll := by
  cases request with
  | add a =>
      cases found : r.find? a with
      | some id =>
          simp only [perform, register, found]
          exact ⟨sound, .known (sound.mem_roll_of_find? found)⟩
      | none =>
          have new := sound.find?_eq_none_iff.mp found
          simp only [perform, register, found]
          rw [sound.roll_append]
          refine ⟨(sound.append new).1, .added ?_ ?_⟩
          · rwa [sound.map_snd_roll]
          · rw [sound.map_fst_roll]
            exact sound.append_fresh a
  | remove a =>
      refine ⟨?_, sound.serves_remove a⟩
      cases found : r.find? a with
      | none => simpa only [perform, found, Option.elim_none] using sound
      | some id =>
          simpa only [perform, found, Option.elim_some, performRemoveId] using (sound.remove id).1
  | removeId id => exact ⟨(sound.remove id).1, sound.serves_removeId id⟩
  | clear => exact ⟨.empty, .clear⟩

/-- So it does with a row of requests. -/
theorem serves_all (requests : List (Request α)) :
    (r.performAll requests).2.Sound ∧
      r.roll.ServesAll requests (r.performAll requests).1 (r.performAll requests).2.roll := by
  induction requests generalizing r with
  | nil => exact ⟨sound, .nil _⟩
  | cons request requests ih =>
      obtain ⟨sound', first⟩ := sound.serves request
      obtain ⟨sound'', rest⟩ := ih sound'
      exact ⟨sound'', .cons first rest⟩

end Sound

end Registry

end HighlightSync
