import HighlightSync.Registry.Id

/-!
# Registries

A registry keeps who is registered, in order of registration. Each registration occupies
a slot; a removal frees the slot, and the slot freed last is the first to be used again,
with a version that no earlier occupant had. The order of registrations is kept apart
from the slots, because a reused slot says nothing about it.

The list of the registered, `snapshot`, is stored beside the slots and renewed at every
change, so that whoever walks it is not disturbed by later changes.

`Registry.clear` forgets everything, the used versions included: after it, identities
from before can name new registrations.
-/

namespace HighlightSync

/-- A place for registrations: the version last used there, and the occupant if any. -/
structure Slot (α : Type u) where
  version : Nat
  occupant : Option α

/-- Registrations of values of one type. -/
structure Registry (α : Type u) where
  slots : Array (Slot α)
  free : List Nat
  order : List ListenerId
  snapshot : List α

namespace Registry

variable {α : Type u}

/-- The registry in which nothing was ever registered. -/
def empty : Registry α := ⟨#[], [], [], []⟩

instance : EmptyCollection (Registry α) := ⟨empty⟩

instance : Inhabited (Registry α) := ⟨empty⟩

/-- The number of registrations. -/
def size (r : Registry α) : Nat := r.order.length

/-- The slot with a number, counted from one. -/
def slot? (r : Registry α) : Nat → Option (Slot α)
  | 0 => none
  | i + 1 => r.slots[i]?

/-- Who is registered under an identity: slot and version have to agree. -/
def get? (r : Registry α) (id : ListenerId) : Option α :=
  match r.slot? id.slot with
  | some s => if s.version = id.version then s.occupant else none
  | none => none

/-- Replace the slot with a number, counted from one. -/
def setSlot (r : Registry α) (i : Nat) (s : Slot α) : Registry α :=
  { r with slots := r.slots.setIfInBounds (i - 1) s }

/-- Renew the stored list of the registered. -/
def refresh (r : Registry α) : Registry α :=
  { r with snapshot := r.order.filterMap r.get? }

/-- Put a value into the slot freed last, or into a new slot if none is free. -/
def occupy (r : Registry α) (a : α) : ListenerId × Registry α :=
  match r.free with
  | i :: rest =>
      let version := ((r.slot? i).elim 0 Slot.version) + 2
      (⟨i, version⟩, { r.setSlot i ⟨version, some a⟩ with free := rest })
  | [] => (⟨r.slots.size + 1, 1⟩, { r with slots := r.slots.push ⟨1, some a⟩ })

/-- Register a value behind all others, under a new identity. -/
def append (r : Registry α) (a : α) : ListenerId × Registry α :=
  let (id, r) := r.occupy a
  (id, { r with order := r.order ++ [id] }.refresh)

/-- Remove the registration with an identity, if there is one. -/
def remove (r : Registry α) (id : ListenerId) : Registry α :=
  match r.get? id with
  | some _ =>
      { r.setSlot id.slot ⟨id.version, none⟩ with
        free := id.slot :: r.free
        order := r.order.filter (fun other => !decide (other = id)) }.refresh
  | none => r

/-- Forget all registrations and all used versions. -/
def clear (_ : Registry α) : Registry α := ∅

section

variable [DecidableEq α]

/-- The identity under which a value is registered. -/
def find? (r : Registry α) (a : α) : Option ListenerId :=
  r.order.find? (fun id => decide (r.get? id = some a))

/-- Register a value, once: a value that is registered keeps its identity and its place. -/
def register (r : Registry α) (a : α) : ListenerId × Registry α :=
  match r.find? a with
  | some id => (id, r)
  | none => r.append a

end

@[simp] theorem size_empty : (∅ : Registry α).size = 0 := rfl

@[simp] theorem get?_empty (id : ListenerId) : (∅ : Registry α).get? id = none := by
  obtain ⟨slot, version⟩ := id
  cases slot <;> rfl

@[simp] theorem clear_eq_empty (r : Registry α) : r.clear = ∅ := rfl

theorem remove_of_get?_eq_none {r : Registry α} {id : ListenerId} (h : r.get? id = none) :
    r.remove id = r := by
  simp [remove, h]

end Registry

end HighlightSync
