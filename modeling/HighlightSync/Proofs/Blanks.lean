import HighlightSync.Proofs.TwoWay
import HighlightSync.Proofs.Unison

/-!
# No answer and an empty answer

A mapper that has no mapping for a key may say so, or answer with the empty set. Whichever it does,
nothing else can be told apart. Two sessions in which mappers answer alike up to that
(`Answer.yield`), ask for the same inner operations and fail alike, are the same at every moment
(`Stage.agree_of_blanks`): keys, listeners and targets, callbacks, replies and reports.

A table and the inverse of its inverse answer alike in this sense. The latter has lost the entries
with the empty set.
-/

namespace HighlightSync

/-- What comes of an answer: the keys, none if there is no mapping, or the failure. -/
def Answer.yield (a : Answer) : Except String KeySet := a.map fun fine => fine.getD ∅

/-- Sessions may differ in mappers: where one has no mapping, the other may answer with the empty
set. -/
def blanks : Likeness where
  aside _ := false
  settings := Eq
  lenient := False
  answer a a' := a'.yield = a.yield
  origin _ _ := True
  id := Eq
  count := Eq
  registry := Eq

theorem inUnison_blanks : blanks.InUnison := ⟨fun _ => rfl, rfl, rfl, rfl⟩

theorem Answer.same_of_yield_eq {a a' : Answer} (same : Answer.yield a' = Answer.yield a) :
    (∃ message, a = .error message ∧ a' = .error message) ∨
      ∃ fine fine', a = .ok fine ∧ a' = .ok fine' ∧ fine'.getD ∅ = fine.getD ∅ := by
  cases a with
  | error message =>
      cases a' with
      | error message' =>
          cases same
          exact .inl ⟨_, rfl, rfl⟩
      | ok fine' => cases same
  | ok fine =>
      cases a' with
      | error message' => cases same
      | ok fine' => exact .inr ⟨fine, fine', rfl, rfl, Except.ok.inj same⟩

theorem lawful_blanks : blanks.Lawful (fun _ => True) (fun _ => True) := by
  refine inUnison_blanks.lawful (fun same => same ▸ rfl) (fun _ same => .inl (same ▸ rfl)) ?_ rfl
  intro a a' same
  refine (Answer.same_of_yield_eq same).imp_right ?_
  rintro ⟨fine, fine', rfl, rfl, keys⟩
  refine ⟨fine, fine', rfl, rfl, fun k => ?_⟩
  have mem : ∀ o : Option KeySet, (∃ s, o = some s ∧ k ∈ s) ↔ k ∈ o.getD ∅ := fun o => by
    cases o <;> simp
  rw [mem, mem, keys]

theorem KeyTable.yield_answer_inverse_inverse (t : KeyTable) (k : Key) :
    Answer.yield (t.inverse.inverse.answer k) = Answer.yield (t.answer k) := by
  have related : ∀ (u : KeyTable) (f : Key), f ∈ (u.find? k).getD ∅ ↔ u.Relates k f := fun u f => by
    cases found : u.find? k <;> simp [Relates, found]
  refine congrArg Except.ok (KeySet.ext_mem fun f => ?_)
  rw [related, related, relates_inverse, relates_inverse]

namespace Stage

/-- Whether there is no mapping or an empty one makes no difference. Of two sessions in which
mappers, those of scripts and of lazy input included, answer alike up to that, wherever one comes
to, the other comes to a stage at which all that can be told is the same; where one ends, so does
the other. A table and the inverse of its inverse are mappers that answer alike. -/
theorem agree_of_blanks :
    (∀ t : KeyTable, MapperSpec.Alike blanks (Script.Alike blanks) (some (.table t))
      (some (.table t.inverse.inverse))) ∧
    ∀ {w w' : World} {ops ops' : List Op}, w.Alike blanks w' → Script.Alike blanks ops ops' →
      (∀ s, Comes next? (startIn w ops) s → ∃ s', Comes next? (startIn w' ops') s' ∧
        s.AgreeUpTo id s' ∧ (s.next? = none → s'.next? = none)) ∧
      (∀ s', Comes next? (startIn w' ops') s' → ∃ s, Comes next? (startIn w ops) s ∧
        s.AgreeUpTo id s' ∧ (s'.next? = none → s.next? = none)) := by
  refine ⟨fun t => .some (fun _ => t.yield_answer_inverse_inverse) (fun _ _ => .nil) trivial,
    fun {w w' ops ops'} worlds same => ?_⟩
  have total : ∀ {s s' : Stage}, s.Agree blanks s' → s.AgreeUpTo id s' := fun agree =>
    agree.agreeUpTo inUnison_blanks (fun _ _ => Eq.symm) fun op r r' replies => by
      cases replies <;> simp_all [blanks]
  refine ⟨fun s run => ?_, fun s' run => ?_⟩
  · obtain ⟨s', goes, agree, ends⟩ := exists_agree_of_calm lawful_blanks worlds same run nofun
    exact ⟨s', goes, total agree, ends⟩
  · obtain ⟨s, goes, agree, ends⟩ :=
      exists_agree_swap_of_calm lawful_blanks worlds same nofun run
    exact ⟨s, goes, total agree, ends⟩

/-- A table with no fine key for `1`, and no entry for `3`. -/
def gappy : KeyTable := .ofPairs [(.int 1, []), (.int 2, [.int 20])]

/-- A session in which keys are translated that have fine keys and that have none, first these by
themselves. A view puts the mapper in once more, and moves keys on the source. -/
def sorting (spec : MapperSpec Op) : List Op :=
  [.act (.createHandler "h" .plain), .act (.createHandler "g" ⟨none, some 3⟩),
    .act (.createListener "v" { onlooker with
      script := fun _ => some [.swapMapper "t" (some spec),
        .move .highlight "h" ⟨none, [.key (.int 1), .key (.int 2), .key (.int 4)]⟩]
      times := 1 }),
    .act (.addListener "g" "v"), .act (.createTranslator "t" "h" (some spec)),
    .act (.addTarget "t" "g"), .move .highlight "h" ⟨none, [.key (.int 1)]⟩,
    .move .highlight "h" ⟨none, [.key (.int 2), .key (.int 3)]⟩, .reset "h"]

theorem alike_sorting {spec spec' : MapperSpec Op}
    (specs : MapperSpec.Alike blanks (Script.Alike blanks) (some spec) (some spec')) :
    Script.Alike blanks (sorting spec) (sorting spec') := by
  have plain : ∀ a : Action Op, a.isBare = true → Op.Alike blanks (.act a) (.act a) :=
    fun a bare => .act (.same a bare)
  have moves : ∀ name (ks : List Key), Op.Alike blanks (.move .highlight name ⟨none, ks.map .key⟩)
      (.move .highlight name ⟨none, ks.map .key⟩) := fun name ks => .move _ name none <| by
    induction ks with
    | nil => exact .nil
    | cons k ks ih => exact .both (.key k) ih
  have script : Script.Alike blanks _ _ :=
    .both (.swapMapper "t" specs) (.both (moves "h" [.int 1, .int 2, .int 4]) .nil)
  refine .both (.act (.createHandler "h" rfl)) (.both (.act (.createHandler "g" rfl)) ?_)
  refine .both (.act (.createListener rfl (.mk _ _ _ _ fun _ => .some script))) ?_
  refine .both (plain _ rfl) (.both (.act (.createTranslator _ _ specs)) (.both (plain _ rfl) ?_))
  exact .both (moves _ [_]) (.both (moves _ [_, _]) (.both (.reset _) .nil))

/-- With the inverse of the inverse, which has lost an entry, the session is answered alike. -/
theorem agree_of_blanks_sorting :
    gappy.inverse.inverse ≠ gappy ∧
      ∃ s s', Comes next? (startIn ∅ (sorting (.table gappy))) s ∧ s.next? = none ∧
        Comes next? (startIn ∅ (sorting (.table gappy.inverse.inverse))) s' ∧ s'.next? = none ∧
        s.AgreeUpTo id s' ∧ s'.past.map Turn.reply = s.past.map Turn.reply := by
  have ends : (go (fun _ => True) 109 (startIn ∅ (sorting (.table gappy)))).any (fun s =>
      s.next?.isNone) = true := by decide +kernel
  obtain ⟨s, goes, atEnd⟩ := (Option.any_eq_true _ _).mp ends
  have last : s.next? = none := by simpa using atEnd
  have run : Comes next? (startIn ∅ (sorting (.table gappy))) s :=
    Relation.ReflTransGen.mono (fun _ _ step => step.2) _ _ (goesBy_of_go goes)
  obtain ⟨tables, agreeing⟩ := agree_of_blanks
  obtain ⟨s', run', agree, done⟩ := (agreeing .of_empty (alike_sorting (tables gappy))).1 s run
  exact ⟨by decide +kernel, s, s', run, last, run', done last, agree, agree.replies_eq⟩

end Stage

end HighlightSync
