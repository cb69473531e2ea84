import HighlightSync.Proofs.Anchoring
import HighlightSync.Proofs.Weaving
import Mathlib.Data.Option.Basic

/-!
# Sessions side by side

Two sessions perform operations that are alike but for some differences: other settings, answers or
identities, and registrations of views that one of them makes for itself. A `Likeness` says which
differences there may be. From it follows when operations are alike, with the scripts and the lazy
input that they hold (`Op.Alike`), and replies, records, and whole worlds (`World.Alike`).
-/

namespace HighlightSync

/-- In what two sessions may differ. -/
structure Likeness where
  /-- The views that one of the two may have registered for itself. -/
  aside : String → Bool
  /-- Settings that handlers may be given in one session and in the other. -/
  settings : Settings → Settings → Prop
  /-- Whether the second session may go on with a call that the first refuses. -/
  lenient : Prop
  /-- Answers that mappers may give in one session and in the other. -/
  answer : Answer → Answer → Prop
  /-- Where such answers may come from. -/
  origin : MapperOrigin → MapperOrigin → Prop
  /-- Identities that the same registration may have. -/
  id : ListenerId → ListenerId → Prop
  /-- Numbers of listeners that the same handler may have. -/
  count : Nat → Nat → Prop
  /-- Registries that the same handler may have. -/
  registry : Registry Listener → Registry Listener → Prop

/-- The view does nothing but take notice, and reports no fault. -/
def Behavior.Passive (b : Behavior) : Prop :=
  ∀ n e, (b.script n e).getD [] = [] ∧ b.fault n e = none

/-- Whether a listener is other than the views of some names. -/
def Listener.isOther (names : String → Bool) : Listener → Bool
  | .view name => !names name
  | _ => true

/-- Whether a listener is one that both sessions have. -/
def Likeness.shares (L : Likeness) (l : Listener) : Bool := l.isOther L.aside

@[simp] theorem Likeness.shares_view (L : Likeness) (name : String) :
    L.shares (.view name) = !L.aside name := rfl

/-- The operation registers a view that one session may have for itself. -/
def Op.IsAside (L : Likeness) : Op → Prop
  | .act (.addListener _ name) => L.aside name = true
  | _ => False

/-- So does this step of lazy input. -/
def Pull.IsAside (L : Likeness) : Pull Op → Prop
  | .act op => op.IsAside L
  | .key _ => False

/-- Whether an action is given neither settings nor scripts. -/
def Action.isBare : Action Op → Bool
  | .createHandler _ _ => false
  | .createListener _ _ => false
  | .createTranslator _ _ _ => false
  | _ => true

/-- Views are specified alike, with scripts that are. -/
inductive ListenerSpec.Alike (R : List Op → List Op → Prop) :
    ListenerSpec Op → ListenerSpec Op → Prop where
  | mk (deaf : Bool) (times : Nat) (propagate : Bool) (fault : ChangeKind → Option FaultSpec)
      {script script' : ChangeKind → Option (List Op)}
      (scripts : ∀ kind, Option.Rel R (script kind) (script' kind)) :
      Alike R ⟨deaf, script, times, propagate, fault⟩ ⟨deaf, script', times, propagate, fault⟩

/-- Mappers are specified alike, with scripts that are, or none is in both cases. -/
inductive MapperSpec.Alike (L : Likeness) (R : List Op → List Op → Prop) :
    Option (MapperSpec Op) → Option (MapperSpec Op) → Prop where
  | none : Alike L R none none
  | some {spec spec' : MapperSpec Op}
      (answers : ∀ n k, L.answer ((MapperState.ofSpec spec).answer n k)
        ((MapperState.ofSpec spec').answer n k))
      (scripts : ∀ n k, R ((MapperState.ofSpec spec).script n k)
        ((MapperState.ofSpec spec').script n k))
      (origins : L.origin (MapperState.ofSpec spec).origin (MapperState.ofSpec spec').origin) :
      Alike L R (some spec) (some spec')

/-- Actions are alike. A view that one session may have for itself is passive in both. -/
inductive Action.Alike (L : Likeness) (R : List Op → List Op → Prop) :
    Action Op → Action Op → Prop where
  | createHandler (name : String) {s s' : Settings} (settings : L.settings s s') :
      Alike L R (.createHandler name s) (.createHandler name s')
  | createListener {name : String} (shared : L.aside name = false) {spec spec' : ListenerSpec Op}
      (alike : ListenerSpec.Alike R spec spec') :
      Alike L R (.createListener name spec) (.createListener name spec')
  | createAside {name : String} (aside : L.aside name = true) {spec spec' : ListenerSpec Op}
      (passive : (Behavior.ofSpec spec).Passive) (passive' : (Behavior.ofSpec spec').Passive) :
      Alike L R (.createListener name spec) (.createListener name spec')
  | createTranslator (name source : String) {m m' : Option (MapperSpec Op)}
      (alike : MapperSpec.Alike L R m m') :
      Alike L R (.createTranslator name source m) (.createTranslator name source m')
  | same (a : Action Op) (bare : a.isBare = true) : Alike L R a a

/-- Steps of lazy input are alike. -/
inductive Pull.Alike (R : Op → Op → Prop) : Pull Op → Pull Op → Prop where
  | act {op op' : Op} (alike : R op op') : Alike R (.act op) (.act op')
  | key (k : Key) : Alike R (.key k) (.key k)

/-- Operations are alike, and so are all that they hold. -/
inductive Op.Alike (L : Likeness) : Op → Op → Prop where
  | act {a a' : Action Op} (alike : Action.Alike L (Woven (Op.Alike L) (Op.IsAside L)) a a') :
      Alike L (.act a) (.act a')
  | move (d : Direction) (name : String) (filter : Option Presence) {pulls pulls' : List (Pull Op)}
      (alike : Woven (Pull.Alike (Op.Alike L)) (Pull.IsAside L) pulls pulls') :
      Alike L (.move d name ⟨filter, pulls⟩) (.move d name ⟨filter, pulls'⟩)
  | reset (name : String) : Alike L (.reset name) (.reset name)
  | isHighlighted (name : String) (filter : Option Presence) {pulls pulls' : List (Pull Op)}
      (alike : Woven (Pull.Alike (Op.Alike L)) (Pull.IsAside L) pulls pulls') :
      Alike L (.isHighlighted name ⟨filter, pulls⟩) (.isHighlighted name ⟨filter, pulls'⟩)
  | swapMapper (name : String) {m m' : Option (MapperSpec Op)}
      (alike : MapperSpec.Alike L (Woven (Op.Alike L) (Op.IsAside L)) m m') :
      Alike L (.swapMapper name m) (.swapMapper name m')
  | dropTranslator (name : String) : Alike L (.dropTranslator name) (.dropTranslator name)

/-- Scripts are alike: their operations are, apart from registrations that one has for itself. -/
def Script.Alike (L : Likeness) : List Op → List Op → Prop := Woven (Op.Alike L) (Op.IsAside L)

/-- Lazy inputs are alike. -/
def Pulls.Alike (L : Likeness) : List (Pull Op) → List (Pull Op) → Prop :=
  Woven (Pull.Alike (Op.Alike L)) (Pull.IsAside L)

/-- Replies to the same operation, if it is one, are alike. -/
inductive Reply.Alike (L : Likeness) : Option Op → Reply → Reply → Prop where
  | same (op : Option Op) (r : Reply) : Alike L op r r
  | created (op : Option Op) (h : HandlerId) {s s' : Settings} (settings : L.settings s s') :
      Alike L op (.created h s) (.created h s')
  | registered (op : Option Op) {id id' : ListenerId} (ids : L.id id id') :
      Alike L op (.registered id) (.registered id')
  | handler (op : Option Op) (h : HandlerId) (keys : Nat) {s s' : Settings} {n n' : Nat}
      (settings : L.settings s s') (counts : L.count n n') :
      Alike L op (.handler ⟨h, s, keys, n⟩) (.handler ⟨h, s', keys, n'⟩)
  | removed (h : String) {name : String} (aside : L.aside name = true) (b b' : Bool) :
      Alike L (some (.act (.removeListener h name))) (.truth b) (.truth b')

/-- Whether a record is that of an operation that was performed. -/
def Record.isPerformed : Record → Bool
  | .performed _ _ => true
  | _ => false

/-- Records are alike. -/
inductive Record.Alike (L : Likeness) : Record → Record → Prop where
  | same (r : Record) (other : r.isPerformed = false) : Alike L r r
  | question (m : MapperId) (k : Key) (depth : Nat) {o o' : MapperOrigin}
      (origins : L.origin o o') : Alike L (.question m o k depth) (.question m o' k depth)
  | performed {op op' : Op} (alike : op.Alike L op') {r r' : Reply}
      (replies : r.Alike L (some op) r') : Alike L (.performed op r) (.performed op' r')

/-- The record is about views that one session may have for itself: their callbacks, their
registrations, and notes of how many listeners there are. -/
def Record.IsAside (L : Likeness) : Record → Prop
  | .callback l _ _ _ => L.shares l = false
  | .performed op _ => op.IsAside L
  | .note (.listenerAdded _ _) => ∃ name, L.aside name = true
  | .note (.listenerRemoved _ _) => ∃ name, L.aside name = true
  | _ => False

/-- Views behave alike. -/
structure Behavior.Alike (L : Likeness) (b b' : Behavior) : Prop where
  deaf : b'.deaf = b.deaf
  propagate : b'.propagate = b.propagate
  fault : b'.fault = b.fault
  scripts : ∀ n e, Option.Rel (Script.Alike L) (b.script n e) (b'.script n e)

/-- Views of a name are alike, or passive if one session may have them for itself. -/
structure ViewState.Alike (L : Likeness) (name : String) (v v' : ViewState) : Prop where
  passive : L.aside name = true → v.behavior.Passive ∧ v'.behavior.Passive
  shared : L.aside name = false → v.behavior.Alike L v'.behavior ∧ v'.ran = v.ran ∧ v'.told = v.told

/-- Handlers are alike. -/
structure HandlerState.Alike (L : Likeness) (s s' : HandlerState) : Prop where
  settings : L.settings s.settings s'.settings
  keys : s'.keys = s.keys
  registry : L.registry s.registry s'.registry

/-- Targets are the same handler, under identities that the same reset link may have. -/
structure Target.Alike (L : Likeness) (a a' : Target) : Prop where
  handler : a'.handler = a.handler
  resetLink : L.id a.resetLink a'.resetLink

/-- Translators are alike. -/
structure TranslatorState.Alike (L : Likeness) (s s' : TranslatorState) : Prop where
  source : s'.source = s.source
  sourceLink : L.id s.sourceLink s'.sourceLink
  targets : List.Forall₂ (Target.Alike L) s.targets s'.targets
  mapper : s'.mapper = s.mapper
  live : s'.live = s.live

/-- Mappers are alike. -/
structure MapperState.Alike (L : Likeness) (s s' : MapperState) : Prop where
  answers : ∀ n k, L.answer (s.answer n k) (s'.answer n k)
  scripts : ∀ n k, Script.Alike L (s.script n k) (s'.script n k)
  origin : L.origin s.origin s'.origin
  asked : s'.asked = s.asked

/-- Stores hold values that are alike under the same numbers. -/
structure Store.Alike {α : Type u} (R : α → α → Prop) (s s' : Store α) : Prop where
  size : s'.size = s.size
  get : ∀ n, Option.Rel R (s.get? n) (s'.get? n)

/-- Worlds are alike. -/
structure World.Alike (L : Likeness) (w w' : World) : Prop where
  handlers : w.handlers.Alike (HandlerState.Alike L) w'.handlers
  translators : w.translators.Alike (TranslatorState.Alike L) w'.translators
  mappers : w.mappers.Alike (MapperState.Alike L) w'.mappers
  views : ∀ name, Option.Rel (ViewState.Alike L name) (w.view? name) (w'.view? name)
  names : w'.names = w.names
  depth : w'.depth = w.depth
  journal : Woven (Record.Alike L) (Record.IsAside L) w.journal.toList w'.journal.toList

end HighlightSync
