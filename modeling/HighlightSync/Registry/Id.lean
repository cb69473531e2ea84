import HighlightSync.Text.Decimal

/-!
# Identities of registrations

A registration is known by the slot that it occupies and by a version that tells it from
the earlier occupants of that slot. Versions in use are odd: `1` at first, and two more at
each reuse. The written form joins the two numbers by the letter `v`, as in `2v1`.

A reader is lenient in one point: an even version stands for the odd one after it. The
written form of an identity in use is read as that identity (`ListenerId.read?_render`).
-/

namespace HighlightSync

/-- The identity of one registration. Slots are counted from one. -/
structure ListenerId where
  slot : Nat
  version : Nat
  deriving DecidableEq, Inhabited

namespace ListenerId

/-- The written form: slot, the letter `v`, version. -/
def chars (id : ListenerId) : List Char :=
  Text.digits id.slot ++ 'v' :: Text.digits id.version

/-- The written form as a string. -/
def render (id : ListenerId) : String := String.ofList id.chars

/-- Round a version up to an odd number. -/
def oddVersion (v : Nat) : Nat := if v % 2 = 0 then v + 1 else v

/-- Read a written identity. Other texts name no registration. -/
def ofChars? (cs : List Char) : Option ListenerId :=
  match cs.dropWhile (· ≠ 'v') with
  | [] => none
  | _ :: version =>
      (Text.readDigits? (cs.takeWhile (· ≠ 'v'))).bind fun slot =>
        (Text.readDigits? version).map fun version => ⟨slot, oddVersion version⟩

/-- Read a written identity from a string. -/
def read? (s : String) : Option ListenerId := ofChars? s.toList

theorem oddVersion_of_odd {v : Nat} (h : v % 2 = 1) : oddVersion v = v := by
  simp [oddVersion, h]

theorem ofChars?_chars (id : ListenerId) :
    ofChars? id.chars = some ⟨id.slot, oddVersion id.version⟩ := by
  have plain : ∀ c ∈ Text.digits id.slot, decide (c ≠ 'v') = true := by
    intro c hc
    have digit := Text.isDigit_of_mem_digits hc
    rw [decide_eq_true_eq]
    rintro rfl
    revert digit
    decide
  have slot : id.chars.takeWhile (· ≠ 'v') = Text.digits id.slot := by
    rw [chars, List.takeWhile_append_of_pos plain]
    simp
  have rest : id.chars.dropWhile (· ≠ 'v') = 'v' :: Text.digits id.version := by
    rw [chars, List.dropWhile_append_of_pos plain]
    simp
  simp only [ofChars?, rest, slot, Text.readDigits?_digits, Option.bind_some, Option.map_some]

/-- The written form of an identity in use is read as that identity. -/
theorem read?_render {id : ListenerId} (h : id.version % 2 = 1) : read? id.render = some id := by
  rw [read?, render, String.toList_ofList, ofChars?_chars, oddVersion_of_odd h]

end ListenerId

end HighlightSync
