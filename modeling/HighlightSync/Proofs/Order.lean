import HighlightSync.Proofs.History
import Mathlib.Data.List.Perm.Basic

/-!
# The order of those who stay

Listeners of a handler and targets of a translator come one at a time, behind all others, and
those who go leave the order of the others alone (`Turnover`). So whoever comes while another is
there stands behind it for as long as both stay (`sublist_of_path`): the order is the one in
which those who are there have come.
-/

namespace HighlightSync

theorem eq_filter_of_sublist {α : Type u} [DecidableEq α] {l r : List α} (once : r.Nodup)
    (left : l.Sublist r) : l = r.filter (· ∈ l) := by
  have all : l.filter (· ∈ l) = l := List.filter_eq_self.mpr fun a mem => decide_eq_true mem
  have kept := left.filter (· ∈ l)
  rw [all] at kept
  refine kept.eq_of_length_le (List.Subperm.length_le ?_)
  exact List.subperm_of_subset (once.filter _) fun a mem => by
    simpa using (List.mem_filter.mp mem).2

theorem sublist_of_turnover {α : Type u} [DecidableEq α] {before after : List α} {a b : α}
    (once : before.Nodup) (turnover : Turnover before after) (order : [a, b].Sublist before)
    (first : a ∈ after) (second : b ∈ after) : [a, b].Sublist after := by
  obtain left | ⟨c, -, rfl⟩ := turnover
  · rw [eq_filter_of_sublist once left]
    simpa [first, second] using order.filter (· ∈ after)
  · exact order.trans (List.sublist_append_left before [c])

namespace Config

/-- In a row that turns over at most once in each move, whoever comes while another is there
stays behind it for as long as both stay. -/
theorem sublist_of_path {α : Type u} [DecidableEq α] {I : World → Prop} (row : World → List α)
    (keeps : ∀ c d, I c.world → Next c d → I d.world)
    (once : ∀ w, I w → (row w).Nodup)
    (turns : ∀ c d, I c.world → Next c d → Turnover (row c.world) (row d.world))
    {c₀ c₁ c : Config} {a b : α} (holds : I c₀.world) (old : a ∈ row c₀.world)
    (new : b ∉ row c₀.world) (comes : Next c₀ c₁)
    (stay : Path (fun d => a ∈ row d.world ∧ b ∈ row d.world) c₁ c) :
    [a, b].Sublist (row c.world) := by
  have start : [a, b].Sublist (row c₁.world) := by
    have there : b ∈ row c₁.world := stay.starts.2
    obtain left | ⟨g, -, grown⟩ := turns c₀ c₁ holds comes
    · exact absurd (left.subset there) new
    · rw [grown] at there ⊢
      obtain rfl : b = g := by simpa [new] using there
      exact (List.singleton_sublist.mpr old).append (.refl [b])
  refine (stay.keeps (I := fun d => I d.world ∧ [a, b].Sublist (row d.world))
    ⟨keeps _ _ holds comes, start⟩ fun d e _ both next before => ?_).2
  exact ⟨keeps d e before.1 next,
    sublist_of_turnover (once _ before.1) (turns d e before.1 next) before.2 both.1 both.2⟩

/-- A listener that is registered while another is there stays behind it for as long as both
stay. -/
theorem sublist_listeners {h : HandlerId} {c₀ c₁ c : Config} {l m : Listener}
    (sound : c₀.world.Sound) (old : l ∈ c₀.world.listeners h)
    (new : m ∉ c₀.world.listeners h) (comes : Next c₀ c₁)
    (stay : Path (fun d => l ∈ d.world.listeners h ∧ m ∈ d.world.listeners h) c₁ c) :
    [l, m].Sublist (c.world.listeners h) :=
  sublist_of_path (I := World.Sound) (fun w => w.listeners h)
    (fun _ _ sound next => (next.rewires sound).1) (fun _ sound => (sound.registries h).nodup)
    (fun _ _ sound next => (next.rewires sound).2 h) sound old new comes stay

end Config

end HighlightSync
