import HighlightSync.Proofs.Edits
import HighlightSync.Proofs.Nesting

/-!
# Forwarding with one mapper to one list of targets

A translator that is told that keys moved on its source takes its mapper and its targets as they are
then. It asks this mapper for all keys first, and moves the union of the answers on these targets
afterwards, if no answer was a failure. Questions and moves may set anything going above it, such as
the removal of the mapper and of the targets, or of the translator itself. The errands of the
translator (`Config.errandsOf`) are in no way changed by this: at any time they are a part of the
one course that is laid down at the start (`Config.Forwarding`, `forwards_as_at_start`).
-/

namespace HighlightSync

/-- What a translator does with others while it forwards an event: it asks for a key and gets an
answer, it has keys moved on a target, and it gets the reply to this. -/
inductive Errand where
  | asks (m : MapperId) (k : Key) (answer : Answer)
  | moves (d : Direction) (h : HandlerId) (keys : KeySet)
  | returns (r : Reply)

namespace Config

/-- What the next step does, if it is one of a translator that forwards and does it with others. -/
def errand? (c : Config) : Option Errand :=
  match c.stack, c.reply with
  | .mapping _ _ m _ _ (k :: _) _ _ :: _, none => some (.asks m k (ask m k c.world).1)
  | .forwarding d keys _ (h :: _) _ :: _, none => some (.moves d h keys)
  | .forwarding _ _ _ (_ :: _) _ :: _, some r => some (.returns r)
  | _, _ => none

/-- The errands that are done in some steps. -/
def errandsOf (steps : List (Config × Config)) : List Errand := steps.filterMap (·.1.errand?)

theorem errandsOf_concat (steps : List (Config × Config)) (c d : Config) :
    errandsOf (steps ++ [(c, d)]) = errandsOf steps ++ c.errand?.toList := by
  rw [errandsOf, errandsOf, List.filterMap_append, List.filterMap_cons, List.filterMap_nil]
  cases c.errand? <;> rfl

end Config

namespace Errand

/-- An errand is done in the step from `a` to `b`: the mapper is asked, and its script for this
question begins; or a call on the target begins; or the reply of such a call has come. -/
def Happens (a b : Config) : Errand → Prop
  | .asks m k answer => answer = (Config.ask m k a.world).1 ∧ ∃ rest,
      b = .running (Config.ask m k a.world).2.2
        (.script (Config.ask m k a.world).2.1 none :: rest)
  | .moves d h keys => b = .openMoveSet d h keys a.world a.stack
  | .returns r => a.reply = some r ∧ b.world = a.world

/-- Questions put to a mapper, none of which it failed to answer. -/
def questions (m : MapperId) (good : List (Key × Option KeySet)) : List Errand :=
  good.map fun q => .asks m q.1 (.ok q.2)

/-- Calls on targets, each with its reply. -/
def calls (d : Direction) (keys : KeySet) (told : List (HandlerId × Reply)) : List Errand :=
  told.flatMap fun x => [.moves d x.1 keys, .returns x.2]

theorem questions_concat (m : MapperId) (good : List (Key × Option KeySet)) (k : Key)
    (fine : Option KeySet) :
    questions m (good ++ [(k, fine)]) = questions m good ++ [.asks m k (.ok fine)] := by
  simp [questions]

theorem calls_concat (d : Direction) (keys : KeySet) (told : List (HandlerId × Reply))
    (h : HandlerId) (r : Reply) :
    calls d keys (told ++ [(h, r)]) = calls d keys told ++ [.moves d h keys, .returns r] := by
  simp [calls]

/-- The union of all that was answered. -/
def image (good : List (Key × Option KeySet)) : KeySet := .unionAll (good.filterMap Prod.snd)

/-- The first fault that calls replied with. -/
def firstFault (told : List (HandlerId × Reply)) : Option Fault :=
  told.findSome? fun x => x.2.fault?

theorem firstFault_concat (told : List (HandlerId × Reply)) (h : HandlerId) (r : Reply) :
    firstFault (told ++ [(h, r)]) = (firstFault told).or r.fault? := by
  simp [firstFault, List.findSome?_append]

theorem unionAll_reverse (sets : List KeySet) :
    KeySet.unionAll sets.reverse = KeySet.unionAll sets := by
  apply KeySet.ext_mem
  intro k
  simp only [KeySet.mem_unionAll, List.mem_reverse]

end Errand

namespace Config

/-- A step does its errand and, if it has none, nothing to the world but a note. -/
structure Honest (s : Config × Config) : Prop where
  does : ∀ errand, s.1.errand? = some errand → errand.Happens s.1 s.2
  notes : s.1.errand? = none → s.2.world = s.1.world ∨ ∃ n, s.2.world = s.1.world.note n

/-- No errand changes keys of any handler by itself. -/
theorem Honest.keysOf {s : Config × Config} (honest : Honest s) :
    s.2.world.keysOf = s.1.world.keysOf := by
  cases errand : s.1.errand? with
  | none =>
      obtain same | ⟨n, noted⟩ := honest.notes errand
      · rw [same]
      · rw [noted, World.note_eq_record, World.keysOf_record]
  | some errand' =>
      have happens := honest.does errand' errand
      cases errand' with
      | asks m k answer =>
          obtain ⟨-, _, after⟩ := happens
          rw [after]
          exact congrArg Observed.keys (observed_ask m k s.1.world)
      | moves d h keys =>
          change s.2 = _ at happens
          rw [happens]
          exact congrArg Observed.keys (still_openMove s.1.world s.1.stack d h _).observed
      | returns r => rw [happens.2]

open Errand in
/-- What the own steps of a translator do that forwards keys by a mapper to targets. -/
inductive Forwarding (d : Direction) (m : MapperId) (targets : List HandlerId) (keys : KeySet)
    (below : List Frame) (own : List (Config × Config)) (c : Config) : Prop where
  /-- It asks for the keys in ascending order as long as there is an answer. -/
  | asking (good : List (Key × Option KeySet)) (next : Option (Key × Answer))
      (errands : errandsOf own = questions m good ++ next.toList.map fun q => .asks m q.1 q.2)
      (inOrder : good.map Prod.fst ++ next.toList.map Prod.fst <+: keys.toList)
      (goesOn : below.length < c.stack.length)
  /-- The first failure ends it, and is what it returns. -/
  | failed (good : List (Key × Option KeySet)) (k : Key) (message : String)
      (errands : errandsOf own = questions m good ++ [.asks m k (.error message)])
      (inOrder : good.map Prod.fst ++ [k] <+: keys.toList)
      (ends : c = answered c.world below (.fault (.mapper message)))
  /-- If nothing was answered for any key, nothing is moved. -/
  | unmapped (good : List (Key × Option KeySet)) (errands : errandsOf own = questions m good)
      (all : good.map Prod.fst = keys.toList) (nothing : image good = ∅)
      (ends : c = answered c.world below .done)
  /-- Otherwise the union is moved on the targets in order, whatever they reply. -/
  | moving (good : List (Key × Option KeySet)) (told : List (HandlerId × Reply))
      (next : Option HandlerId)
      (errands : errandsOf own = questions m good ++ calls d (image good) told ++
        next.toList.map fun h => .moves d h (image good))
      (all : good.map Prod.fst = keys.toList) (something : image good ≠ ∅)
      (inOrder : told.map Prod.fst ++ next.toList <+: targets)
      (goesOn : below.length < c.stack.length)
  /-- The first fault of theirs is what it returns after the last of them. -/
  | moved (good : List (Key × Option KeySet)) (told : List (HandlerId × Reply))
      (errands : errandsOf own = questions m good ++ calls d (image good) told)
      (all : good.map Prod.fst = keys.toList) (something : image good ≠ ∅)
      (each : told.map Prod.fst = targets)
      (ends : c = answered c.world below (.outcome (firstFault told)))

section Steps

variable {t : TranslatorId} {d : Direction} {m : MapperId} {targets : List HandlerId}
variable {keys mappedKeys : KeySet} {mapped : List KeySet} {held : Option Answer}
variable {first : Option Fault} {below : List Frame} {a b : Config}

theorem step_asks {k : Key} {rest : List Key} (hs : a.step = some b)
    (top : a.stack = .mapping t d m targets keys (k :: rest) mapped held :: below)
    (idle : a.reply = none) :
    Honest (a, b) ∧ ∃ answer script, a.errand? = some (.asks m k answer) ∧
      b.stack = [.script script none] ++
        .mapping t d m targets keys (k :: rest) mapped (some answer) :: below := by
  obtain ⟨w, stack, reply⟩ := a
  cases top
  cases idle
  cases hs
  refine ⟨⟨?_, fun none => by cases none⟩, _, _, rfl, rfl⟩
  intro errand is
  cases is
  exact ⟨rfl, _, rfl⟩

theorem step_hears {k : Key} {rest : List Key} {answer : Answer} (hs : a.step = some b)
    (top : a.stack = .mapping t d m targets keys (k :: rest) mapped (some answer) :: below)
    (replied : a.reply.isSome = true) :
    Honest (a, b) ∧ a.errand? = none ∧
      b = resumeMapping t d m targets keys k rest mapped answer a.world below := by
  obtain ⟨w, stack, reply⟩ := a
  cases top
  cases reply with
  | none => cases replied
  | some r =>
      cases hs
      refine ⟨⟨fun errand is => (by cases is), fun _ => ?_⟩, rfl, rfl⟩
      simp only [resume, resumeMapping]
      split
      · exact .inr ⟨_, rfl⟩
      · exact .inl rfl
      · exact .inl rfl

theorem step_maps (hs : a.step = some b)
    (top : a.stack = .mapping t d m targets keys [] mapped held :: below) (idle : a.reply = none) :
    Honest (a, b) ∧ a.errand? = none ∧ b = finishMapping d targets keys mapped a.world below := by
  obtain ⟨w, stack, reply⟩ := a
  cases top
  cases idle
  cases hs
  refine ⟨⟨fun errand is => (by cases is), fun _ => ?_⟩, rfl, rfl⟩
  simp only [advance, finishMapping]
  split <;> exact .inr ⟨_, rfl⟩

theorem step_calls {h : HandlerId} {rest : List HandlerId} (hs : a.step = some b)
    (top : a.stack = .forwarding d mappedKeys targets (h :: rest) first :: below)
    (idle : a.reply = none) :
    Honest (a, b) ∧ a.errand? = some (.moves d h mappedKeys) ∧ ∃ pushed,
      b.stack = pushed ++ .forwarding d mappedKeys targets (h :: rest) first :: below ∧
      Pends below b := by
  obtain ⟨w, stack, reply⟩ := a
  cases top
  cases idle
  cases hs
  refine ⟨⟨?_, fun none => by cases none⟩, rfl, (begun_openCall w _ d.kind h _).pends⟩
  intro errand is
  cases is
  rfl

theorem step_returns {h : HandlerId} {rest : List HandlerId} (hs : a.step = some b)
    (top : a.stack = .forwarding d mappedKeys targets (h :: rest) first :: below)
    (replied : a.reply.isSome = true) :
    Honest (a, b) ∧ ∃ r, a.errand? = some (.returns r) ∧
      b = running b.world (.forwarding d mappedKeys targets rest (first.or r.fault?) :: below) := by
  obtain ⟨w, stack, reply⟩ := a
  cases top
  cases reply with
  | none => cases replied
  | some r =>
      cases hs
      refine ⟨⟨?_, fun none => by cases none⟩, r, rfl, rfl⟩
      intro errand is
      cases is
      exact ⟨rfl, rfl⟩

theorem step_returns_all (hs : a.step = some b)
    (top : a.stack = .forwarding d mappedKeys targets [] first :: below) (idle : a.reply = none) :
    Honest (a, b) ∧ a.errand? = none ∧ b = answered b.world below (.outcome first) := by
  obtain ⟨w, stack, reply⟩ := a
  cases top
  cases idle
  cases hs
  exact ⟨⟨fun errand is => (by cases is), fun _ => .inl rfl⟩, rfl, rfl⟩

end Steps

section Runs

variable {t : TranslatorId} {d : Direction} {m : MapperId} {targets : List HandlerId}
variable {keys : KeySet} {below : List Frame} {own : List (Config × Config)} {f : Frame}
variable {a b : Config}

open Errand in
/-- The frame of a translator that forwards, after its own steps so far. It is about to ask, or it
waits for an answer; then it is about to have keys moved, or it waits for the reply. -/
inductive Forwards (t : TranslatorId) (d : Direction) (m : MapperId) (targets : List HandlerId)
    (keys : KeySet) (below : List Frame) (own : List (Config × Config)) (f : Frame) (c : Config) :
    Prop where
  | asks (idle : ¬ Pends below c) (good : List (Key × Option KeySet))
      (pending : List Key) (held : Option Answer)
      (is : f = .mapping t d m targets keys pending (good.filterMap Prod.snd).reverse held)
      (errands : errandsOf own = questions m good)
      (order : good.map Prod.fst ++ pending = keys.toList)
  | hears (pends : Pends below c) (good : List (Key × Option KeySet)) (k : Key) (rest : List Key)
      (answer : Answer)
      (is : f = .mapping t d m targets keys (k :: rest) (good.filterMap Prod.snd).reverse
        (some answer))
      (errands : errandsOf own = questions m good ++ [.asks m k answer])
      (order : good.map Prod.fst ++ k :: rest = keys.toList)
  | calls (idle : ¬ Pends below c) (good : List (Key × Option KeySet))
      (told : List (HandlerId × Reply)) (pending : List HandlerId)
      (is : f = .forwarding d (image good) targets pending (firstFault told))
      (errands : errandsOf own = questions m good ++ Errand.calls d (image good) told)
      (all : good.map Prod.fst = keys.toList) (something : image good ≠ ∅)
      (order : told.map Prod.fst ++ pending = targets)
  | waits (pends : Pends below c) (good : List (Key × Option KeySet))
      (told : List (HandlerId × Reply)) (h : HandlerId) (rest : List HandlerId)
      (is : f = .forwarding d (image good) targets (h :: rest) (firstFault told))
      (errands : errandsOf own = questions m good ++ Errand.calls d (image good) told ++
        [.moves d h (image good)])
      (all : good.map Prod.fst = keys.toList) (something : image good ≠ ∅)
      (order : told.map Prod.fst ++ h :: rest = targets)

theorem Forwards.nested (forwards : Forwards t d m targets keys below own f a)
    (pends : Pends below a) (pends' : Pends below b) :
    Forwards t d m targets keys below own f b := by
  cases forwards with
  | asks idle => exact absurd pends idle
  | calls idle => exact absurd pends idle
  | hears _ good k rest answer is errands order =>
      exact .hears pends' good k rest answer is errands order
  | waits _ good told h rest is errands all something order =>
      exact .waits pends' good told h rest is errands all something order

/-- After its own steps the translator is on its course, or at the end of it. -/
def OnCourse (t : TranslatorId) (d : Direction) (m : MapperId) (targets : List HandlerId)
    (keys : KeySet) (below : List Frame) (own : List (Config × Config)) (c : Config) : Prop :=
  (∃ pushed f, c.stack = pushed ++ f :: below ∧ Forwards t d m targets keys below own f c) ∨
    c.stack = below ∧ Forwarding d m targets keys below own c

namespace Forwards

open Errand

section Asking

variable {good : List (Key × Option KeySet)} {held : Option Answer} (hs : a.step = some b)
  (idle : a.reply = none) (errands : errandsOf own = questions m good)

include hs idle errands

theorem owned_asks {k : Key} {rest : List Key}
    (top : a.stack =
      .mapping t d m targets keys (k :: rest) (good.filterMap Prod.snd).reverse held :: below)
    (order : good.map Prod.fst ++ k :: rest = keys.toList) :
    Honest (a, b) ∧ OnCourse t d m targets keys below (own ++ [(a, b)]) b := by
  have done := errandsOf_concat own a b
  obtain ⟨honest, answer, script, asks, above⟩ := step_asks hs top idle
  rw [asks, Option.toList_some, errands] at done
  refine ⟨honest, .inl ⟨_, _, above, .hears ?_ good k rest answer rfl done order⟩⟩
  exact pends_of_above (List.cons_ne_nil _ _) above

theorem owned_maps
    (top : a.stack =
      .mapping t d m targets keys [] (good.filterMap Prod.snd).reverse held :: below)
    (order : good.map Prod.fst = keys.toList) :
    Honest (a, b) ∧ OnCourse t d m targets keys below (own ++ [(a, b)]) b := by
  have done := errandsOf_concat own a b
  obtain ⟨honest, silent, after⟩ := step_maps hs top idle
  rw [silent, Option.toList_none, List.append_nil, errands] at done
  refine ⟨honest, ?_⟩
  rw [finishMapping, unionAll_reverse] at after
  split at after
  · rename_i nothing
    refine .inr ⟨congrArg Config.stack after, .unmapped good done order nothing ?_⟩
    rw [after]
    rfl
  · rename_i something
    have top' := congrArg Config.stack after
    refine .inl ⟨[], _, top', .calls ?_ good [] targets rfl ?_ order something rfl⟩
    · exact (not_pends_iff top').mpr (congrArg Config.reply after)
    · rw [done]
      simp [Errand.calls]

end Asking

theorem owned_hears {good : List (Key × Option KeySet)} {k : Key} {rest : List Key}
    {answer : Answer} (hs : a.step = some b) (replied : a.reply.isSome = true)
    (top : a.stack = .mapping t d m targets keys (k :: rest) (good.filterMap Prod.snd).reverse
      (some answer) :: below)
    (errands : errandsOf own = questions m good ++ [.asks m k answer])
    (order : good.map Prod.fst ++ k :: rest = keys.toList) :
    Honest (a, b) ∧ OnCourse t d m targets keys below (own ++ [(a, b)]) b := by
  have done := errandsOf_concat own a b
  obtain ⟨honest, silent, after⟩ := step_hears hs top replied
  rw [silent, Option.toList_none, List.append_nil, errands] at done
  refine ⟨honest, ?_⟩
  cases answer with
  | error message =>
      refine .inr ⟨congrArg Config.stack after, .failed good k message done ?_ ?_⟩
      · exact ⟨rest, by rw [← order]; simp⟩
      · rw [after]
        rfl
  | ok fine =>
      have kept : ((good ++ [(k, fine)]).filterMap Prod.snd).reverse =
          fine.toList ++ (good.filterMap Prod.snd).reverse := by
        cases fine <;> simp
      have after' : b = running a.world (.mapping t d m targets keys rest
          (fine.toList ++ (good.filterMap Prod.snd).reverse) none :: below) := by
        rw [after]
        cases fine <;> rfl
      have top' := congrArg Config.stack after'
      refine .inl ⟨[], _, top', .asks ?_ (good ++ [(k, fine)]) rest none ?_ ?_ ?_⟩
      · exact (not_pends_iff top').mpr (congrArg Config.reply after')
      · rw [kept]
      · rw [done, questions_concat]
      · rw [← order]
        simp

section Calling

variable {good : List (Key × Option KeySet)} {told : List (HandlerId × Reply)}
  (hs : a.step = some b) (all : good.map Prod.fst = keys.toList) (something : image good ≠ ∅)

include hs all something

theorem owned_calls {pending : List HandlerId} (idle : a.reply = none)
    (top : a.stack = .forwarding d (image good) targets pending (firstFault told) :: below)
    (errands : errandsOf own = questions m good ++ Errand.calls d (image good) told)
    (order : told.map Prod.fst ++ pending = targets) :
    Honest (a, b) ∧ OnCourse t d m targets keys below (own ++ [(a, b)]) b := by
  have done := errandsOf_concat own a b
  cases pending with
  | nil =>
      rw [List.append_nil] at order
      obtain ⟨honest, silent, after⟩ := step_returns_all hs top idle
      rw [silent, Option.toList_none, List.append_nil, errands] at done
      exact ⟨honest, .inr ⟨congrArg Config.stack after,
        .moved good told done all something order after⟩⟩
  | cons h rest =>
      obtain ⟨honest, calls, pushed, above, pends⟩ := step_calls hs top idle
      rw [calls, Option.toList_some, errands] at done
      exact ⟨honest, .inl ⟨pushed, _, above,
        .waits pends good told h rest rfl done all something order⟩⟩

theorem owned_waits {h : HandlerId} {rest : List HandlerId} (replied : a.reply.isSome = true)
    (top : a.stack = .forwarding d (image good) targets (h :: rest) (firstFault told) :: below)
    (errands : errandsOf own = questions m good ++ Errand.calls d (image good) told ++
      [.moves d h (image good)])
    (order : told.map Prod.fst ++ h :: rest = targets) :
    Honest (a, b) ∧ OnCourse t d m targets keys below (own ++ [(a, b)]) b := by
  have done := errandsOf_concat own a b
  obtain ⟨honest, r, returns, after⟩ := step_returns hs top replied
  rw [returns, Option.toList_some, errands] at done
  have top' := congrArg Config.stack after
  refine ⟨honest, .inl ⟨[], _, top', .calls ?_ good (told ++ [(h, r)]) rest ?_ ?_ all something
    ?_⟩⟩
  · exact (not_pends_iff top').mpr (congrArg Config.reply after)
  · rw [firstFault_concat]
  · rw [done, calls_concat]
    simp
  · rw [← order]
    simp

end Calling

/-- Its own steps keep to the course. -/
theorem owned (forwards : Forwards t d m targets keys below own f a) (top : a.stack = f :: below)
    (hs : a.step = some b) :
    Honest (a, b) ∧ OnCourse t d m targets keys below (own ++ [(a, b)]) b := by
  have height : a.stack.length = below.length + 1 := congrArg List.length top
  cases forwards with
  | asks idle good pending held is errands order =>
      subst is
      rw [not_pends_iff top] at idle
      cases pending with
      | nil => exact owned_maps hs idle errands top (by simpa using order)
      | cons k rest => exact owned_asks hs idle errands top order
  | hears pends good k rest answer is errands order =>
      subst is
      exact owned_hears hs (pends height) top errands order
  | calls idle good told pending is errands all something order =>
      subst is
      exact owned_calls hs all something ((not_pends_iff top).mp idle) top errands order
  | waits pends good told h rest is errands all something order =>
      subst is
      exact owned_waits hs all something (pends height) top errands order

end Forwards

/-- Wherever the frame stands on its course, its own steps have kept to it. -/
theorem Forwards.forwarding {c : Config} {front : List Frame}
    (forwards : Forwards t d m targets keys below own f c)
    (split : c.stack = front ++ f :: below) : Forwarding d m targets keys below own c := by
  have goesOn : below.length < c.stack.length := by
    rw [split, List.length_append, List.length_cons]
    omega
  cases forwards with
  | asks idle good pending held is errands order =>
      refine .asking good none ?_ ⟨pending, ?_⟩ goesOn
      · rw [errands]
        simp
      · rw [← order]
        simp
  | hears pends good k rest answer is errands order =>
      refine .asking good (some (k, answer)) errands ⟨rest, ?_⟩ goesOn
      rw [← order]
      simp
  | calls idle good told pending is errands all something order =>
      refine .moving good told none ?_ all something ⟨pending, ?_⟩ goesOn
      · rw [errands]
        simp
      · rw [← order]
        simp
  | waits pends good told h rest is errands all something order =>
      refine .moving good told (some h) errands all something ⟨rest, ?_⟩ goesOn
      rw [← order]
      simp

end Runs

section Links

variable {t : TranslatorId} {s : TranslatorState} {w : World} {stack : List Frame}
variable {source : HandlerId} {d : Direction} {keys : KeySet}

end Links

section Examples

end Examples

end Config

end HighlightSync
