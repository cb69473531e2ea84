import HighlightSync.KeySet.Summary
import Mathlib.Data.Sum.Basic
import Mathlib.Tactic.SplitIfs

/-!
# What is written can be read in one way only

A written form is legible if it tells what was written and where it ends, in front of anything that
may come behind it (`Text.Legible`). A number is legible if no digit comes behind it, and a quoted
text always, because no character in it is written with a bare quote (`Text.legible_quoted`). A list
in brackets is legible if its parts are and none begins with a closing bracket
(`Text.Legible.bracketed`). So a key is legible, however deep its lists are (`Key.legible`).

A summary is such a list. Its parts are keys and at most one count of the keys left out, which
begins as no key does. So summaries with the same limit are the same text only for sets of the same
size with the same keys up to the limit (`KeySet.summary_eq_iff`).
-/

namespace HighlightSync

namespace Text

variable {α : Type u}

/-- The written form of a value tells the value and where it ends, in front of what ends it. -/
def Legible (Ends : List Char → Prop) (write : α → List Char) (a : α) : Prop :=
  ∀ b rest rest', Ends rest → Ends rest' → write a ++ rest = write b ++ rest' →
    a = b ∧ rest = rest'

/-- No digit comes first. -/
def NoDigit (rest : List Char) : Prop := ∀ c ∈ rest.head?, c.isDigit = false

/-- Anything may come. -/
def Anything (_ : List Char) : Prop := True

theorem Legible.cancel {write : α → List Char} {a b : α} {rest rest' : List Char}
    (legible : Legible Anything write a) (same : write a ++ rest = write b ++ rest') :
    a = b ∧ rest = rest' := legible b rest rest' trivial trivial same

theorem noDigit_cons {c : Char} (other : c.isDigit = false) (rest : List Char) :
    NoDigit (c :: rest) := by
  intro d first
  cases first
  exact other

theorem cut_unique {p : Char → Bool} {cs ds rest rest' : List Char}
    (pass : ∀ c ∈ cs, p c = true) (pass' : ∀ d ∈ ds, p d = true)
    (fail : ∀ c ∈ rest.head?, p c = false) (fail' : ∀ c ∈ rest'.head?, p c = false)
    (same : cs ++ rest = ds ++ rest') : cs = ds ∧ rest = rest' := by
  have cut : ∀ {cs rest : List Char}, (∀ c ∈ cs, p c = true) → (∀ c ∈ rest.head?, p c = false) →
      (cs ++ rest).takeWhile p = cs := by
    intro cs rest pass fail
    rw [List.takeWhile_append_of_pos pass]
    cases rest with
    | nil => simp
    | cons c rest => simp [fail c rfl]
  have fronts : cs = ds := by rw [← cut pass fail, same, cut pass' fail']
  subst fronts
  exact ⟨rfl, List.append_cancel_left same⟩

theorem digits_append_ne {c : Char} (other : c.isDigit = false) (n : Nat)
    (rest rest' : List Char) : digits n ++ rest ≠ c :: rest' := by
  intro same
  obtain ⟨d, ds, written⟩ := List.exists_cons_of_ne_nil (digits_ne_nil n)
  rw [written, List.cons_append, List.cons.injEq] at same
  have digit := isDigit_of_mem_digits (written ▸ List.mem_cons_self : d ∈ digits n)
  rw [same.1, other] at digit
  cases digit

theorem legible_digits (n : Nat) : Legible NoDigit digits n := by
  intro m rest rest' ends ends' same
  obtain ⟨numbers, rests⟩ := cut_unique (fun _ => isDigit_of_mem_digits)
    (fun _ => isDigit_of_mem_digits) ends ends' same
  exact ⟨digits_injective numbers, rests⟩

theorem decimal_append_ne {c : Char} (other : c ≠ '-' ∧ c.isDigit = false) (n : Int)
    (rest rest' : List Char) : decimal n ++ rest ≠ c :: rest' := by
  cases n with
  | ofNat n => exact digits_append_ne other.2 n rest rest'
  | negSucc n =>
      intro same
      exact other.1 (List.cons.inj same).1.symm

theorem legible_decimal (n : Int) : Legible NoDigit decimal n := by
  intro m rest rest' ends ends' same
  cases n with
  | ofNat n =>
      cases m with
      | ofNat m =>
          obtain ⟨rfl, rests⟩ := legible_digits n m rest rest' ends ends' same
          exact ⟨rfl, rests⟩
      | negSucc m => exact absurd same (digits_append_ne (by decide) n rest _)
  | negSucc n =>
      cases m with
      | ofNat m => exact absurd same.symm (digits_append_ne (by decide) m rest' _)
      | negSucc m =>
          obtain ⟨numbers, rests⟩ :=
            legible_digits (n + 1) (m + 1) rest rest' ends ends' (List.cons.inj same).2
          exact ⟨by rw [Nat.succ.inj numbers], rests⟩

/-- Up to base sixteen, different numbers have different digits. -/
theorem toDigits_injective {base : Nat} (two : 1 < base) (small : base ≤ 16) {m n : Nat}
    (same : Nat.toDigits base m = Nat.toDigits base n) : m = n := by
  have last : ∀ i < 16, ∀ j < 16, Nat.digitChar i = Nat.digitChar j → i = j := by decide
  have digit : ∀ n, n % base < 16 := fun n =>
    Nat.lt_of_lt_of_le (Nat.mod_lt n (Nat.lt_of_succ_lt two)) small
  have front : ∀ n, 0 < (Nat.toDigits base (n / base)).length := fun _ => Nat.length_toDigits_pos
  induction m using Nat.strongRecOn generalizing n with
  | ind m ih =>
      have lengths := congrArg List.length same
      rw [Nat.toDigits_eq_if (n := m) two, Nat.toDigits_eq_if (n := n) two] at same lengths
      split_ifs at same lengths with low low'
      · exact last m (by omega) n (by omega) (List.cons.inj same).1
      · have longer := front n
        simp only [List.length_append, List.length_singleton] at lengths
        omega
      · have longer := front m
        simp only [List.length_append, List.length_singleton] at lengths
        omega
      · obtain ⟨fronts, ends⟩ := List.append_inj' same rfl
        have higher : m / base = n / base := ih _ (Nat.div_lt_self (by omega) two) fronts
        have lower : m % base = n % base := last _ (digit m) _ (digit n) (List.cons.inj ends).1
        rw [← Nat.div_add_mod m base, higher, lower, Nat.div_add_mod]

theorem ne_brace_of_mem_toDigits {base n : Nat} (two : 1 < base) {c : Char}
    (mem : c ∈ Nat.toDigits base n) : c ≠ '}' := by
  induction n using Nat.strongRecOn with
  | ind n ih =>
      rw [Nat.toDigits_eq_if two] at mem
      split_ifs at mem with low
      · rw [List.mem_singleton.mp mem]
        exact Nat.digitChar_ne '}' (by decide)
      · rcases List.mem_append.mp mem with front | last
        · exact ih _ (Nat.div_lt_self (by omega) two) front
        · rw [List.mem_singleton.mp last]
          exact Nat.digitChar_ne '}' (by decide)

theorem legible_codePoint (c : Char) : Legible Anything codePoint c := by
  intro d rest rest' _ _ same
  simp only [codePoint, List.cons_append, List.append_assoc, List.nil_append, List.cons.injEq,
    true_and] at same
  have brace : ∀ c : Char, ∀ e ∈ Nat.toDigits 16 c.toNat, (e != '}') = true := fun c e mem => by
    simpa using ne_brace_of_mem_toDigits (by decide) mem
  obtain ⟨numbers, rests⟩ :=
    cut_unique (p := (· != '}')) (brace c) (brace d) (by simp) (by simp) same
  exact ⟨Char.toNat_inj.mp (toDigits_injective (by decide) (by decide) numbers),
    (List.cons.inj rests).2⟩

/-- The character that a mark behind a backslash stands for. -/
def unmark (m : Char) : Char :=
  if m = 'n' then '\n'
  else if m = 'r' then '\r'
  else if m = 't' then '\t'
  else if m = '0' then '\x00'
  else m

/-- How a character may be written in quotes. -/
inductive Escaped (c : Char) : List Char → Prop where
  | marked (m : Char) (code : m ≠ 'u') (stands : unmark m = c) : Escaped c ['\\', m]
  | plain (backslash : c ≠ '\\') (quote : c ≠ '"') : Escaped c [c]
  | coded : Escaped c (codePoint c)

theorem escaped (c : Char) : Escaped c (escape c) := by
  unfold escape
  split_ifs with quote backslash newline carriage tab zero shown
  · exact .marked '"' (by decide) quote.symm
  · exact .marked '\\' (by decide) backslash.symm
  · exact .marked 'n' (by decide) newline.symm
  · exact .marked 'r' (by decide) carriage.symm
  · exact .marked 't' (by decide) tab.symm
  · exact .marked '0' (by decide) zero.symm
  · exact .plain backslash quote
  · exact .coded

theorem escape_append_ne (c : Char) (rest rest' : List Char) : escape c ++ rest ≠ '"' :: rest' := by
  have form := escaped c
  generalize escape c = cs at form
  cases form with
  | marked m code stands => simp
  | plain backslash quote => simp [quote]
  | coded => simp [codePoint]

theorem legible_escape (c : Char) : Legible Anything escape c := by
  intro d rest rest' _ _ same
  have first := escaped c
  have second := escaped d
  generalize escape c = cs at first same
  generalize escape d = ds at second same
  cases first with
  | marked m code stands =>
      cases second with
      | marked m' code' stands' =>
          obtain ⟨rfl, rests⟩ := List.cons.inj (List.cons.inj same).2
          exact ⟨stands.symm.trans stands', rests⟩
      | plain backslash quote => exact absurd (List.cons.inj same).1.symm backslash
      | coded => exact absurd (List.cons.inj (List.cons.inj same).2).1 code
  | plain backslash quote =>
      cases second with
      | marked m code stands => exact absurd (List.cons.inj same).1 backslash
      | plain _ _ => exact List.cons.inj same
      | coded => exact absurd (List.cons.inj same).1 backslash
  | coded =>
      cases second with
      | marked m code stands => exact absurd (List.cons.inj (List.cons.inj same).2).1.symm code
      | plain backslash quote => exact absurd (List.cons.inj same).1.symm backslash
      | coded => exact (legible_codePoint c).cancel same

theorem exists_commaList_cons (p : List Char) (ps : List (List Char)) :
    ∃ rest, commaList (p :: ps) = p ++ rest := by
  cases ps with
  | nil => exact ⟨[], by simp⟩
  | cons q ps => exact ⟨_, rfl⟩

theorem comma_commaList (write : α → List Char) (a : α) (as : List α) :
    ',' :: ' ' :: commaList ((a :: as).map write) =
      (a :: as).flatMap fun a => ',' :: ' ' :: write a := by
  induction as generalizing a with
  | nil => simp
  | cons b as ih =>
      rw [List.map_cons, List.map_cons, commaList_cons_cons, ← List.map_cons, ih b]
      rfl

namespace Legible

variable {Ends : List Char → Prop} {write : α → List Char} {as : List α}

/-- A row of legible parts is legible in front of a closing character that no part begins with. -/
theorem row (close : Char) (closes : ∀ rest, Ends (close :: rest))
    (continues : ∀ a rest, Ends (write a ++ rest))
    (opens : ∀ a rest rest', write a ++ rest ≠ close :: rest')
    (parts : ∀ a ∈ as, Legible Ends write a) :
    Legible Anything (fun as => as.flatMap write ++ [close]) as := by
  have ends : ∀ (as : List α) rest, Ends (as.flatMap write ++ close :: rest) := by
    intro as rest
    cases as with
    | nil => exact closes rest
    | cons a as =>
        rw [List.flatMap_cons, List.append_assoc]
        exact continues a _
  intro bs rest rest' _ _ same
  simp only [List.append_assoc, List.singleton_append] at same
  induction as generalizing bs with
  | nil =>
      cases bs with
      | nil => exact ⟨rfl, (List.cons.inj same).2⟩
      | cons b bs =>
          rw [List.flatMap_cons, List.append_assoc] at same
          exact absurd same.symm (opens b _ _)
  | cons a as ih =>
      rw [List.flatMap_cons, List.append_assoc] at same
      cases bs with
      | nil => exact absurd same (opens a _ _)
      | cons b bs =>
          rw [List.flatMap_cons, List.append_assoc] at same
          obtain ⟨rfl, behind⟩ :=
            parts a List.mem_cons_self b _ _ (ends as rest) (ends bs rest') same
          obtain ⟨rfl, rests⟩ := ih (fun c mem => parts c (List.mem_cons_of_mem a mem)) bs behind
          exact ⟨rfl, rests⟩

/-- Legible parts between commas make a legible list in brackets, if none begins with a closing
bracket. -/
theorem bracketed (opens : ∀ a rest rest', write a ++ rest ≠ ']' :: rest')
    (parts : ∀ a ∈ as, Legible NoDigit write a) :
    Legible Anything (fun as => '[' :: (commaList (as.map write) ++ [']'])) as := by
  -- With one more comma in front, the list is a row of parts that begin with a comma.
  let next (a : α) : List Char := ',' :: ' ' :: write a
  have continued : ∀ a ∈ as, Legible NoDigit next a := by
    intro a mem b rest rest' ends ends' same
    exact parts a mem b rest rest' ends ends' (List.cons.inj (List.cons.inj same).2).2
  have rows := row ']' (fun _ => noDigit_cons (by decide) _)
    (fun _ _ => noDigit_cons (by decide) _) (fun _ _ _ same => by cases same) continued
  intro bs rest rest' _ _ same
  have inner : commaList (as.map write) ++ ']' :: rest =
      commaList (bs.map write) ++ ']' :: rest' := by simpa using same
  cases as with
  | nil =>
      cases bs with
      | nil => exact ⟨rfl, (List.cons.inj inner).2⟩
      | cons b bs =>
          obtain ⟨behind, written⟩ := exists_commaList_cons (write b) (bs.map write)
          rw [List.map_cons, written, List.append_assoc] at inner
          exact absurd inner.symm (opens b _ _)
  | cons a as =>
      cases bs with
      | nil =>
          obtain ⟨behind, written⟩ := exists_commaList_cons (write a) (as.map write)
          rw [List.map_cons, written, List.append_assoc] at inner
          exact absurd inner (opens a _ _)
      | cons b bs =>
          apply rows.cancel
          simp only [next, ← comma_commaList, List.cons_append, List.append_assoc,
            List.nil_append, inner]

end Legible

/-- A quoted text is legible, whatever comes behind it. -/
theorem legible_quoted (s : String) : Legible Anything quoted s := by
  intro t rest rest' _ _ same
  obtain ⟨chars, rests⟩ := (Legible.row '"' (fun _ => trivial) (fun _ _ => trivial)
    escape_append_ne fun c _ => legible_escape c).cancel (List.cons.inj same).2
  exact ⟨String.toList_inj.mp chars, rests⟩

end Text

namespace Key

open Text

theorem chars_append_ne {c : Char} (number : c ≠ '-' ∧ c.isDigit = false)
    (other : c ≠ '"' ∧ c ≠ '[') (k : Key) (rest rest' : List Char) :
    chars k ++ rest ≠ c :: rest' := by
  cases k with
  | int n => exact decimal_append_ne number n rest rest'
  | text s =>
      intro same
      exact other.1 (List.cons.inj same).1.symm
  | list ks =>
      intro same
      exact other.2 (List.cons.inj same).1.symm

mutual

/-- A key is legible if no digit comes behind it. -/
theorem legible : ∀ k : Key, Legible NoDigit chars k
  | .int n => by
      intro l rest rest' ends ends' same
      cases l with
      | int m =>
          obtain ⟨rfl, rests⟩ := legible_decimal n m rest rest' ends ends' same
          exact ⟨rfl, rests⟩
      | text t => exact absurd same (decimal_append_ne (by decide) n rest _)
      | list ls => exact absurd same (decimal_append_ne (by decide) n rest _)
  | .text s => by
      intro l rest rest' _ _ same
      cases l with
      | int m => exact absurd same.symm (decimal_append_ne (by decide) m rest' _)
      | text t =>
          obtain ⟨rfl, rests⟩ := (legible_quoted s).cancel same
          exact ⟨rfl, rests⟩
      | list ls => cases (List.cons.inj same).1
  | .list ks => by
      intro l rest rest' _ _ same
      cases l with
      | int m => exact absurd same.symm (decimal_append_ne (by decide) m rest' _)
      | text t => cases (List.cons.inj same).1
      | list ls =>
          rw [chars_list, chars_list] at same
          obtain ⟨rfl, rests⟩ := (Legible.bracketed (chars_append_ne (by decide) (by decide))
            (legible_each ks)).cancel same
          exact ⟨rfl, rests⟩
termination_by structural k => k

theorem legible_each : ∀ ks : List Key, ∀ k ∈ ks, Legible NoDigit chars k
  | [], _, mem => nomatch mem
  | k :: ks, l, mem => by
      rcases List.mem_cons.mp mem with first | mem
      · rw [first]
        exact legible k
      · exact legible_each ks l mem
termination_by structural ks => ks

end

end Key

namespace KeySet

open Text

/-- What a summary names: its first keys, and how many others there are if there are any. -/
def named (limit : Nat) (s : KeySet) : List (Key ⊕ Nat) :=
  (s.toList.take limit).map .inl ++ if limit < s.size then [.inr (s.size - limit)] else []

/-- A key in its written form, or a number as the closing part. -/
def partChars : Key ⊕ Nat → List Char := Sum.elim Key.chars elision

theorem summaryParts_eq_map (limit : Nat) (s : KeySet) :
    s.summaryParts limit = (s.named limit).map partChars := by
  rw [summaryParts, named, List.map_append, List.map_map]
  congr 1
  split <;> rfl

theorem legible_part (p : Key ⊕ Nat) : Legible NoDigit partChars p := by
  have mark : ∀ k rest rest', Key.chars k ++ rest ≠ '…' :: rest' :=
    Key.chars_append_ne (by decide) (by decide)
  intro q rest rest' ends ends' same
  cases p with
  | inl k =>
      cases q with
      | inl l =>
          obtain ⟨rfl, rests⟩ := Key.legible k l rest rest' ends ends' same
          exact ⟨rfl, rests⟩
      | inr n => exact absurd same (mark k rest _)
  | inr m =>
      cases q with
      | inl l => exact absurd same.symm (mark l rest' _)
      | inr n =>
          simp only [partChars, Sum.elim_inr, elision, List.cons_append, List.append_assoc,
            List.cons.injEq, true_and] at same
          obtain ⟨rfl, rests⟩ := legible_digits m n _ _ (noDigit_cons (by decide) _)
            (noDigit_cons (by decide) _) same
          exact ⟨rfl, by simpa using rests⟩

theorem partChars_append_ne (p : Key ⊕ Nat) (rest rest' : List Char) :
    partChars p ++ rest ≠ ']' :: rest' := by
  cases p with
  | inl k => exact Key.chars_append_ne (by decide) (by decide) k rest rest'
  | inr n =>
      intro same
      cases (List.cons.inj same).1

theorem named_eq_of_summary_eq {limit : Nat} {s t : KeySet}
    (same : s.summary limit = t.summary limit) : s.named limit = t.named limit := by
  have texts := String.ofList_injective same
  rw [summaryChars, summaryChars, summaryParts_eq_map, summaryParts_eq_map] at texts
  exact ((Legible.bracketed partChars_append_ne fun p _ => legible_part p).cancel
    (congrArg (· ++ []) texts)).1

theorem keys_named (limit : Nat) (s : KeySet) :
    (s.named limit).filterMap Sum.getLeft? = s.toList.take limit := by
  rw [named, List.filterMap_append, List.filterMap_map]
  split <;> simp [Function.comp_def]

theorem omitted_named (limit : Nat) (s : KeySet) :
    (s.named limit).filterMap Sum.getRight? =
      if limit < s.size then [s.size - limit] else [] := by
  rw [named, List.filterMap_append, List.filterMap_map]
  split <;> simp [Function.comp_def]

theorem named_eq_iff {limit : Nat} {s t : KeySet} :
    s.named limit = t.named limit ↔
      s.size = t.size ∧ s.toList.take limit = t.toList.take limit := by
  constructor
  · intro same
    have keys : s.toList.take limit = t.toList.take limit := by
      rw [← keys_named, same, keys_named]
    refine ⟨?_, keys⟩
    have lengths : min limit s.size = min limit t.size := by
      simpa [size] using congrArg List.length keys
    have omitted := omitted_named limit s
    rw [same, omitted_named] at omitted
    -- Either both sets have more keys than are named, and as many are left out, or neither has.
    split_ifs at omitted with more more'
    · have counts := (List.cons.inj omitted).1
      omega
    · omega
  · rintro ⟨sizes, keys⟩
    rw [named, named, sizes, keys]

theorem inr_mem_named {limit omitted : Nat} {s : KeySet} :
    .inr omitted ∈ s.named limit ↔ 0 < omitted ∧ limit + omitted = s.size := by
  rw [named, List.mem_append, or_iff_right (by simp [-List.map_take])]
  split <;> simp <;> omega

/-- Summaries with the same limit are the same text exactly for sets that have as many keys, and
the same keys in front up to the limit. The closing part that counts the others is written exactly
if there are others, and together with the limit its count makes the size. -/
theorem summary_eq_iff (limit : Nat) (s t : KeySet) :
    (s.summary limit = t.summary limit ↔
      s.size = t.size ∧ s.toList.take limit = t.toList.take limit) ∧
    ∀ omitted, elision omitted ∈ s.summaryParts limit ↔ 0 < omitted ∧ limit + omitted = s.size := by
  constructor
  · rw [← named_eq_iff]
    constructor
    · exact named_eq_of_summary_eq
    · intro same
      rw [summary, summary, summaryChars, summaryChars, summaryParts_eq_map, summaryParts_eq_map,
        same]
  · intro omitted
    rw [summaryParts_eq_map, ← inr_mem_named, List.mem_map]
    constructor
    · rintro ⟨p, mem, written⟩
      have count : p = .inr omitted :=
        (legible_part p (.inr omitted) [] [] (by simp [NoDigit]) (by simp [NoDigit])
          (congrArg (· ++ []) written)).1
      rwa [← count]
    · intro mem
      exact ⟨_, mem, rfl⟩

/-- A text that spells out how a list goes on and what comes at its end imitates neither. -/
example :
    summary 1 (ofList [.text "a\", … +1 more]"]) = "[\"a\\\", … +1 more]\"]" ∧
      summary 1 (ofList [.text "a", .text "b"]) = "[\"a\", … +1 more]" := by
  decide +kernel

end KeySet

end HighlightSync
