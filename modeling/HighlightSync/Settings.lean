import HighlightSync.Fault
import HighlightSync.Text.Quoted

/-!
# Settings of a handler

A handler may have a name, which only reports show, and a depth limit. A handler with
depth limit `n` refuses to join a cascade in which `n` calls are already open, so a limit
of zero would refuse everything and is not allowed.
-/

namespace HighlightSync

/-- The settings a handler is created with. -/
structure Settings where
  name : Option String
  depthLimit : Option Nat
  deriving DecidableEq

namespace Settings

/-- Neither name nor limit. -/
def plain : Settings := ⟨none, none⟩

instance : Inhabited Settings := ⟨plain⟩

/-- Only a name. -/
def named (name : String) : Settings := ⟨some name, none⟩

/-- One adjustment of settings under construction. -/
inductive Adjustment where
  | name (s : String)
  | depthLimit (n : Nat)

/-- Make one adjustment. -/
def adjust (s : Settings) : Adjustment → Settings
  | .name n => { s with name := some n }
  | .depthLimit n => { s with depthLimit := some n }

/-- Plain settings after a row of adjustments, of which later ones win. -/
def build (steps : List Adjustment) : Settings := steps.foldl adjust plain

/-- What is wrong with the settings, if anything. -/
def fault? (s : Settings) : Option Fault :=
  if s.depthLimit = some 0 then some (.badSettings "max_cascade_depth must be at least 1")
  else none

/-- Whether a handler with these settings stays out of a cascade with `depth` open calls;
if so, the limit it obeys. -/
def refuses? (s : Settings) (depth : Nat) : Option Nat :=
  s.depthLimit.filter (· ≤ depth)

@[simp] theorem fault?_eq_none_iff {s : Settings} : s.fault? = none ↔ s.depthLimit ≠ some 0 := by
  simp [fault?]

theorem refuses?_eq_some_iff {s : Settings} {depth limit : Nat} :
    s.refuses? depth = some limit ↔ s.depthLimit = some limit ∧ limit ≤ depth := by
  simp [refuses?, Option.filter_eq_some_iff]

/-- The name inside a description. -/
def describeName (s : Settings) : String :=
  match s.name with
  | none => "None"
  | some n => "Some(" ++ String.ofList (Text.quoted n) ++ ")"

end Settings

end HighlightSync
