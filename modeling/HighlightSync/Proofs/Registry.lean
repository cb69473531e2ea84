import HighlightSync.Registry.Basic
import Mathlib.Data.List.Basic

/-!
# Sound registries

A registry keeps the same facts three times: in its slots, in the order of registrations,
and in the stored list. `Registry.Sound` says that the three agree, that nobody is
registered twice, and that the free slots are vacant. Every operation keeps a registry
sound, and what it does to the stored list is said without the slots: a registration puts
the value behind the others (`Sound.append`), and a removal takes at most one away and moves
nobody (`Sound.remove`).
-/

namespace HighlightSync.Registry

variable {α : Type u}

/-- Slots, order and stored list agree, and nobody is registered twice. -/
structure Sound (r : Registry α) : Prop where
  vacant : ∀ i ∈ r.free, ∃ v, r.slot? i = some ⟨v, none⟩
  free_nodup : r.free.Nodup
  listed : ∀ id, id ∈ r.order ↔ (r.get? id).isSome = true
  order_nodup : r.order.Nodup
  stored : r.snapshot = r.order.filterMap r.get?
  nodup : r.snapshot.Nodup

section Slots

theorem slot?_setSlot {r : Registry α} {i j : Nat} {s : Slot α} (hi : (r.slot? i).isSome = true) :
    (r.setSlot i s).slot? j = if j = i then some s else r.slot? j := by
  cases i with
  | zero => simp [slot?] at hi
  | succ i =>
      cases j with
      | zero => simp [slot?]
      | succ j =>
          simp only [slot?, setSlot, Nat.add_sub_cancel, Nat.add_right_cancel_iff] at hi ⊢
          rw [Array.getElem?_setIfInBounds]
          by_cases e : i = j
          · subst e
            have bound : i < r.slots.size := by simpa using hi
            simp [bound]
          · rw [if_neg e, if_neg (Ne.symm e)]

theorem get?_eq_some_iff {r : Registry α} {id : ListenerId} {a : α} :
    r.get? id = some a ↔ r.slot? id.slot = some ⟨id.version, some a⟩ := by
  rw [get?]
  split
  · rename_i s hs
    rw [hs]
    obtain ⟨version, occupant⟩ := s
    by_cases e : version = id.version <;> simp [e]
  · rename_i hs
    simp [hs]

theorem get?_congr {r q : Registry α} {id : ListenerId} (h : r.slot? id.slot = q.slot? id.slot) :
    r.get? id = q.get? id := by
  rw [get?, h, get?]

theorem get?_of_vacant {r : Registry α} {id : ListenerId} {v : Nat}
    (h : r.slot? id.slot = some ⟨v, none⟩) : r.get? id = none := by
  rw [get?]
  rw [h]
  simp

end Slots

/-- Occupation fills one slot that gave nobody, and leaves the others as they are. -/
theorem occupy_spec {r : Registry α} (vacant : ∀ i ∈ r.free, ∃ v, r.slot? i = some ⟨v, none⟩)
    (nodup : r.free.Nodup) (a : α) :
    ∃ i v, (r.occupy a).1 = ⟨i, v⟩ ∧
      (∀ j, (r.occupy a).2.slot? j = if j = i then some ⟨v, some a⟩ else r.slot? j) ∧
      (∀ id : ListenerId, id.slot = i → r.get? id = none) ∧
      (∀ j ∈ (r.occupy a).2.free, j ≠ i ∧ j ∈ r.free) ∧ (r.occupy a).2.free.Nodup ∧
      (r.occupy a).2.order = r.order := by
  obtain ⟨slots, free, order, snapshot⟩ := r
  cases free with
  | nil =>
      refine ⟨slots.size + 1, 1, rfl, ?_, ?_, by simp [occupy], .nil, rfl⟩
      · intro j
        cases j with
        | zero => rfl
        | succ j => simp only [occupy, slot?, Array.getElem?_push, Nat.add_right_cancel_iff]
      · intro id hid
        simp [get?, hid, slot?]
  | cons i rest =>
      obtain ⟨v, hv⟩ := vacant i (by simp)
      rw [List.nodup_cons] at nodup
      simp only [occupy, hv, Option.elim_some]
      refine ⟨i, v + 2, rfl, fun j => slot?_setSlot (by rw [hv]; rfl), ?_, ?_, nodup.2, rfl⟩
      · intro id hid
        exact get?_of_vacant (v := v) (by rw [hid]; exact hv)
      · intro j hj
        exact ⟨fun e => nodup.1 (e ▸ hj), List.mem_cons_of_mem _ hj⟩

theorem get?_of_fill {r q : Registry α} {i v : Nat} {a : α}
    (slot : ∀ j, q.slot? j = if j = i then some ⟨v, some a⟩ else r.slot? j)
    (nobody : ∀ id : ListenerId, id.slot = i → r.get? id = none) (id : ListenerId) :
    q.get? id = if id = ⟨i, v⟩ then some a else r.get? id := by
  by_cases same : id.slot = i
  · have here : q.slot? id.slot = some ⟨v, some a⟩ := by rw [slot, if_pos same]
    rw [nobody id same]
    obtain ⟨j, version⟩ := id
    cases same
    rw [get?]
    rw [here]
    by_cases e : version = v
    · simp [e]
    · simp [e, Ne.symm e]
  · rw [if_neg (fun e => same (by rw [e]))]
    exact get?_congr (by rw [slot, if_neg same])

/-- A removal is seen under its identity alone. -/
theorem get?_remove (r : Registry α) (id other : ListenerId) :
    (r.remove id).get? other = if other = id then none else r.get? other := by
  rw [remove]
  split
  · rename_i a ha
    have occupied := get?_eq_some_iff.mp ha
    have slot : ∀ j, ((r.setSlot id.slot ⟨id.version, none⟩).slot? j) =
        if j = id.slot then some ⟨id.version, none⟩ else r.slot? j :=
      fun j => slot?_setSlot (by rw [occupied]; rfl)
    by_cases same : other.slot = id.slot
    · have gone : (r.setSlot id.slot ⟨id.version, none⟩).get? other = none :=
        get?_of_vacant (v := id.version) (by rw [slot, if_pos same])
      change (r.setSlot id.slot ⟨id.version, none⟩).get? other = _
      rw [gone]
      split
      · rfl
      · rename_i different
        symm
        rw [Option.eq_none_iff_forall_ne_some]
        intro b hb
        rw [get?_eq_some_iff, same, occupied, Option.some.injEq, Slot.mk.injEq] at hb
        obtain ⟨i, v⟩ := id
        obtain ⟨j, u⟩ := other
        exact different (by rw [ListenerId.mk.injEq]; exact ⟨same, hb.1.symm⟩)
    · rw [if_neg (fun e => same (by rw [e]))]
      change (r.setSlot id.slot ⟨id.version, none⟩).get? other = _
      exact get?_congr (by rw [slot, if_neg same])
  · rename_i nobody
    split
    · rename_i e
      rw [e, nobody]
    · rfl

namespace Sound

variable {r : Registry α}

theorem empty : (∅ : Registry α).Sound where
  vacant := fun _ h => absurd h List.not_mem_nil
  free_nodup := .nil
  listed := by
    intro id
    rw [get?_empty]
    exact iff_of_false List.not_mem_nil Bool.false_ne_true
  order_nodup := .nil
  stored := rfl
  nodup := .nil

theorem mem_snapshot_iff (h : r.Sound) {a : α} : a ∈ r.snapshot ↔ ∃ id, r.get? id = some a := by
  rw [h.stored, List.mem_filterMap]
  constructor
  · rintro ⟨id, _, hid⟩
    exact ⟨id, hid⟩
  · rintro ⟨id, hid⟩
    exact ⟨id, (h.listed id).mpr (by rw [hid]; rfl), hid⟩

theorem size_eq (h : r.Sound) : r.size = r.snapshot.length := by
  have all : ∀ ids : List ListenerId, (∀ id ∈ ids, id ∈ r.order) →
      (ids.filterMap r.get?).length = ids.length := by
    intro ids
    induction ids with
    | nil => exact fun _ => rfl
    | cons id ids ih =>
        intro mem
        obtain ⟨a, ha⟩ := Option.isSome_iff_exists.mp ((h.listed id).mp (mem id (by simp)))
        rw [List.filterMap_cons_some ha, List.length_cons, List.length_cons,
          ih fun other ho => mem other (by simp [ho])]
  rw [h.stored, all r.order fun _ ho => ho]
  rfl

theorem get?_append (h : r.Sound) (a : α) (id : ListenerId) :
    (r.append a).2.get? id = if id = (r.append a).1 then some a else r.get? id := by
  obtain ⟨i, v, name, slot, nobody, -⟩ := occupy_spec h.vacant h.free_nodup a
  rw [show (r.append a).1 = ⟨i, v⟩ from name]
  exact get?_of_fill slot nobody id

/-- A value that is not registered is registered behind all others. -/
theorem append (h : r.Sound) {a : α} (new : a ∉ r.snapshot) :
    (r.append a).2.Sound ∧ (r.append a).2.snapshot = r.snapshot ++ [a] := by
  obtain ⟨i, v, name, slot, nobody, free, free_nodup, order⟩ := occupy_spec h.vacant h.free_nodup a
  have get : ∀ id, (r.append a).2.get? id = if id = ⟨i, v⟩ then some a else r.get? id :=
    name ▸ h.get?_append a
  have order' : (r.append a).2.order = r.order ++ [⟨i, v⟩] := by
    rw [← name, ← order]
    rfl
  have fresh : ⟨i, v⟩ ∉ r.order := by
    rw [h.listed, nobody ⟨i, v⟩ rfl]
    exact Bool.false_ne_true
  have stored : (r.append a).2.snapshot = r.snapshot ++ [a] := by
    have old : r.order.filterMap (r.append a).2.get? = r.order.filterMap r.get? :=
      List.filterMap_congr fun id hid => by rw [get, if_neg (ne_of_mem_of_not_mem hid fresh)]
    change ((r.append a).2.order).filterMap (r.append a).2.get? = _
    rw [order', List.filterMap_append, old, ← h.stored, List.filterMap_cons_some (b := a)]
    · rfl
    · rw [get, if_pos rfl]
  refine ⟨⟨?_, free_nodup, ?_, ?_, rfl, ?_⟩, stored⟩
  · intro j hj
    obtain ⟨other, old⟩ := free j hj
    obtain ⟨u, hu⟩ := h.vacant j old
    refine ⟨u, ?_⟩
    change (r.occupy a).2.slot? j = _
    rw [slot, if_neg other, hu]
  · intro id
    rw [order', List.mem_append, List.mem_singleton, get, h.listed]
    by_cases e : id = ⟨i, v⟩ <;> simp [e]
  · rw [order']
    exact List.nodup_append.mpr ⟨h.order_nodup, by simp, by
      intro id hid other ho e
      exact fresh (List.mem_singleton.mp ho ▸ e ▸ hid)⟩
  · rw [stored]
    exact List.nodup_append.mpr ⟨h.nodup, by simp, by
      intro b hb c hc e
      exact new (List.mem_singleton.mp hc ▸ e ▸ hb)⟩

/-- A removal takes at most one away and moves nobody. -/
theorem remove (h : r.Sound) (id : ListenerId) :
    (r.remove id).Sound ∧ (r.remove id).snapshot.Sublist r.snapshot := by
  cases found : r.get? id with
  | none => exact (remove_of_get?_eq_none found).symm ▸ ⟨h, .refl _⟩
  | some a =>
      have occupied := get?_eq_some_iff.mp found
      have get := get?_remove r id
      have order : (r.remove id).order = r.order.filter (fun other => !decide (other = id)) := by
        simp only [Registry.remove, found]
        rfl
      have stored : (r.remove id).snapshot =
          (r.order.filter fun other => !decide (other = id)).filterMap r.get? := by
        have same : (r.remove id).snapshot = (r.remove id).order.filterMap (r.remove id).get? := by
          simp only [Registry.remove, found]
          rfl
        rw [same, order]
        refine List.filterMap_congr fun other ho => ?_
        rw [get, if_neg (by simpa using (List.mem_filter.mp ho).2)]
      have sub : (r.remove id).snapshot.Sublist r.snapshot := by
        rw [stored, h.stored]
        exact List.filter_sublist.filterMap _
      refine ⟨⟨?_, ?_, ?_, ?_, ?_, h.nodup.sublist sub⟩, sub⟩
      · intro i hi
        have slot : (r.remove id).slot? i =
            if i = id.slot then some ⟨id.version, none⟩ else r.slot? i := by
          simp only [Registry.remove, found]
          exact slot?_setSlot (by rw [occupied]; rfl)
        have free : i = id.slot ∨ i ∈ r.free := by
          simp only [Registry.remove, found] at hi
          exact List.mem_cons.mp hi
        rw [slot]
        by_cases e : i = id.slot
        · exact ⟨id.version, if_pos e⟩
        · rw [if_neg e]
          exact h.vacant i (free.resolve_left e)
      · have taken : id.slot ∉ r.free := by
          intro hf
          obtain ⟨v, hv⟩ := h.vacant id.slot hf
          rw [occupied] at hv
          simp at hv
        simp only [Registry.remove, found]
        exact List.nodup_cons.mpr ⟨taken, h.free_nodup⟩
      · intro other
        rw [order, List.mem_filter, h.listed, get]
        by_cases e : other = id <;> simp [e]
      · rw [order]
        exact h.order_nodup.filter _
      · simp only [Registry.remove, found]
        rfl

variable [DecidableEq α]

theorem find?_eq_none_iff (h : r.Sound) {a : α} : r.find? a = none ↔ a ∉ r.snapshot := by
  rw [find?, List.find?_eq_none, h.stored, List.mem_filterMap]
  simp

end Sound

end HighlightSync.Registry
