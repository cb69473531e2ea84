import HighlightSync.Machine.Step

/-!
# Runs

`Steps n c d` says that exactly `n` steps lead from configuration `c` to `d`. Steps are
deterministic, so a configuration that comes to rest does so in one way
(`Steps.rest_unique`).

`run` follows a run for as long as there are steps and fuel. It gives the configuration at
rest, or nothing when the fuel does not suffice (`run_eq_some_iff`). A cyclic wiring
without depth limits may have no end, so no fuel suffices for every configuration.
-/

namespace HighlightSync.Config

/-- A configuration is at rest when there is no step from it. -/
def AtRest (c : Config) : Prop := c.step = none

theorem atRest_iff {c : Config} : c.AtRest ↔ c.stack = [] := by
  constructor
  · intro h
    rw [AtRest, step] at h
    split at h
    · assumption
    · contradiction
    · contradiction
  · intro h
    rw [AtRest, step, h]

/-- Exactly `n` steps lead from one configuration to another. -/
inductive Steps : Nat → Config → Config → Prop where
  | refl (c) : Steps 0 c c
  | cons {n c d e} : c.step = some d → Steps n d e → Steps (n + 1) c e

namespace Steps

@[simp] theorem zero_iff {c d : Config} : Steps 0 c d ↔ c = d := by
  constructor
  · intro h
    cases h
    rfl
  · rintro rfl
    exact .refl c

theorem single {c d : Config} (h : c.step = some d) : Steps 1 c d := .cons h (.refl d)

/-- Runs compose, and their lengths add. -/
theorem trans {m n : Nat} {c d e : Config} (h : Steps m c d) (g : Steps n d e) :
    Steps (m + n) c e := by
  induction h with
  | refl => rwa [Nat.zero_add]
  | cons hs _ ih =>
      rw [Nat.add_right_comm]
      exact .cons hs (ih g)

theorem of_atRest {n : Nat} {c d : Config} (h : Steps n c d) (rest : c.AtRest) :
    n = 0 ∧ c = d := by
  cases h with
  | refl => exact ⟨rfl, rfl⟩
  | cons hs _ =>
      rw [AtRest, hs] at rest
      contradiction

/-- Two runs to rest from one configuration have the same length and the same end. -/
theorem rest_unique {m n : Nat} {c d e : Config} (h : Steps m c d) (g : Steps n c e)
    (hd : d.AtRest) (he : e.AtRest) : m = n ∧ d = e := by
  induction h generalizing n with
  | refl =>
      obtain ⟨rfl, rfl⟩ := g.of_atRest hd
      exact ⟨rfl, rfl⟩
  | cons hs hr ih =>
      cases g with
      | refl =>
          rw [AtRest, hs] at he
          contradiction
      | cons gs gr =>
          rw [hs] at gs
          cases gs
          obtain ⟨rfl, rfl⟩ := ih gr hd
          exact ⟨rfl, rfl⟩

end Steps

/-- Follow a run to its end, for fewer steps than there is fuel. A configuration that is
not at rest is given up for its successor, so that its world is changed in place. -/
def run : Nat → Config → Option Config
  | 0, _ => none
  | fuel + 1, c =>
      if c.stack.isEmpty then some c
      else
        match c.step with
        | none => none
        | some d => run fuel d

theorem run_succ (fuel : Nat) (c : Config) :
    run (fuel + 1) c =
      match c.step with
      | none => some c
      | some d => run fuel d := by
  rw [run]
  split
  · rename_i h
    rw [atRest_iff.mpr (List.isEmpty_iff.mp h)]
  · rename_i h
    split
    · rename_i rest
      exact absurd (List.isEmpty_iff.mpr (atRest_iff.mp rest)) h
    · rfl

/-- Fuel suffices exactly when the run comes to rest in fewer steps. -/
theorem run_eq_some_iff {fuel : Nat} {c d : Config} :
    run fuel c = some d ↔ ∃ n, n < fuel ∧ Steps n c d ∧ d.AtRest := by
  induction fuel generalizing c with
  | zero => simp [run]
  | succ fuel ih =>
      rw [run_succ]
      split
      · rename_i rest
        constructor
        · intro h
          cases h
          exact ⟨0, Nat.succ_pos fuel, .refl _, rest⟩
        · rintro ⟨n, _, hr, _⟩
          exact congrArg some (hr.of_atRest rest).2
      · rename_i e hs
        rw [ih]
        constructor
        · rintro ⟨n, hn, hr, rest⟩
          exact ⟨n + 1, Nat.succ_lt_succ hn, .cons hs hr, rest⟩
        · rintro ⟨n, hn, hr, rest⟩
          cases hr with
          | refl =>
              rw [AtRest, hs] at rest
              contradiction
          | cons gs gr =>
              rw [hs] at gs
              cases gs
              exact ⟨_, Nat.lt_of_succ_lt_succ hn, gr, rest⟩

/-- Whatever is found out about the end of a run is true of the configuration that its steps
lead to. -/
theorem exists_steps_of_run {fuel : Nat} {c : Config} {p : Config → Bool}
    (h : (run fuel c).any p = true) : ∃ n d, Steps n c d ∧ d.AtRest ∧ p d = true := by
  obtain ⟨d, ends, found⟩ := (Option.any_eq_true _ _).mp h
  obtain ⟨n, -, steps, rest⟩ := run_eq_some_iff.mp ends
  exact ⟨n, d, steps, rest, found⟩

end HighlightSync.Config
