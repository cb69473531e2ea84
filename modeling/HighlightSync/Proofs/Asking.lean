import HighlightSync.Proofs.Flood

/-!
# Listeners that only ask

A query leaves everything that a cascade depends on as it is: the layout, the sets, and the
number of calls that were refused (`World.Unmoved`). Views whose scripts consist of queries
therefore take no part in a cascade: telling one of an event comes to an end and moves nothing
(`ends_tellView`).
-/

namespace HighlightSync

/-- The actions that only ask. -/
inductive Action.IsQuery {α : Type} : Action α → Prop where
  | inspectHandler (name : String) : IsQuery (.inspectHandler name)
  | contains (name : String) (k : Key) : IsQuery (.contains name k)
  | keys (name : String) : IsQuery (.keys name)
  | depth : IsQuery .depth
  | threadDepth : IsQuery .threadDepth
  | inspectTranslator (name : String) : IsQuery (.inspectTranslator name)
  | unknown (word : String) : IsQuery (.unknown word)

/-- The operations that only ask. Keys that are asked about may be handed over lazily, as
long as their input only asks, too. -/
inductive Op.IsQuery : Op → Prop where
  | act {a : Action Op} : a.IsQuery → IsQuery (.act a)
  | isHighlighted (name : String) {feed : Feed Op} :
      (∀ op, .act op ∈ feed.pulls → IsQuery op) → IsQuery (.isHighlighted name feed)

/-- The scripts of a view consist of queries. -/
def Behavior.Asks (b : Behavior) : Prop :=
  ∀ ran e ops, b.script ran e = some ops → ∀ op ∈ ops, op.IsQuery

/-- The view with a name only asks. -/
def Layout.Asks (L : Layout) (name : String) : Prop := ∀ b, L.behavior name = some b → b.Asks

namespace World

/-- Whatever a cascade depends on is the same. -/
structure Unmoved (w v : World) : Prop where
  layout : v.layout = w.layout
  keys : v.keysOf = w.keysOf
  refusals : v.refusals = w.refusals

theorem refusals_record (w : World) {r : Record}
    (h : ∀ g depth limit, r ≠ .note (.cascadeRefused g depth limit)) :
    (w.record r).refusals = w.refusals := by
  simp only [refusals, toList_journal_record, List.countP_append, List.countP_singleton]
  cases r with
  | note n =>
      cases n with
      | cascadeRefused g depth limit => exact absurd rfl (h g depth limit)
      | _ => rfl
  | _ => rfl

theorem refusals_cascadeRefused (w : World) (h : HandlerId) (depth limit : Nat) :
    (w.note (.cascadeRefused h depth limit)).refusals = w.refusals + 1 := by
  simp [refusals, note_eq_record]

namespace Unmoved

variable {w v u : World}

theorem refl (w : World) : w.Unmoved w := ⟨rfl, rfl, rfl⟩

theorem of_eq (same : v = w) : w.Unmoved v :=
  ⟨congrArg World.layout same, congrArg World.keysOf same, congrArg World.refusals same⟩

theorem trans (h : w.Unmoved v) (g : v.Unmoved u) : w.Unmoved u :=
  ⟨g.layout.trans h.layout, g.keys.trans h.keys, g.refusals.trans h.refusals⟩

theorem record (w : World) {r : Record}
    (h : ∀ g depth limit, r ≠ .note (.cascadeRefused g depth limit)) : w.Unmoved (w.record r) :=
  ⟨rfl, rfl, w.refusals_record h⟩

end Unmoved

theorem execute_of_isQuery {a : Action Op} (query : a.IsQuery) (w : World) :
    (w.execute a).2 = w := by
  have effect := w.effect_execute a
  generalize (w.execute a).2 = v at effect
  cases query <;> cases effect <;> rfl

end World

namespace Config

variable {w : World} {stack : List Frame}

theorem Ends.unmoved {v : World} {c : Config} (same : w.Unmoved v)
    (h : Ends v.Unmoved c stack) : Ends w.Unmoved c stack :=
  h.mono fun _ => same.trans

theorem ends_reading_query {h : HandlerId} {filter : Option Presence} {pulls : List (Pull Op)}
    (acts : ∀ op, .act op ∈ pulls → ∀ w stack, Ends w.Unmoved (perform op w stack) stack)
    (taken : List Key) (w : World) :
    Ends w.Unmoved (running w (.reading h .query filter pulls taken :: stack)) stack := by
  induction pulls generalizing taken w with
  | nil => exact .cons rfl (.of_answered _ (.refl w))
  | cons pull pulls ih =>
      have rest := ih fun op mem => acts op (List.mem_cons_of_mem pull mem)
      cases pull with
      | key k =>
          have read : w.Unmoved (w.record (.keyRead h k w.depth)) := .record w (by simp)
          exact .cons rfl ((rest _ _).unmoved read)
      | act op =>
          refine .cons rfl ((acts op List.mem_cons_self w _).andThen fun v r same => ?_)
          have performed : v.Unmoved (v.record (.performed op r)) := .record v (by simp)
          exact ((rest _ _).unmoved performed).unmoved same

theorem ends_perform_query {op : Op} (query : op.IsQuery) (w : World) (stack : List Frame) :
    Ends w.Unmoved (perform op w stack) stack := by
  induction query generalizing w stack with
  | act query => exact .of_answered _ (.of_eq (World.execute_of_isQuery query w))
  | isHighlighted name _ ih =>
      simp only [perform, onHandler]
      split
      · exact .of_answered _ (.refl w)
      · exact ends_reading_query ih [] w

theorem ends_script_query {ops : List Op} (queries : ∀ op ∈ ops, op.IsQuery)
    (first : Option Fault) (w : World) (stack : List Frame) :
    Ends w.Unmoved (running w (.script ops first :: stack)) stack := by
  induction ops generalizing first w with
  | nil => exact .cons rfl (.of_answered _ (.refl w))
  | cons op ops ih =>
      have asked := ends_perform_query (queries op List.mem_cons_self) w
      refine .cons rfl ((asked _).andThen fun v r same => ?_)
      have performed : v.Unmoved (v.record (.performed op r)) := .record v (by simp)
      have rest := ih (fun op mem => queries op (List.mem_cons_of_mem _ mem)) (first.or r.fault?)
      exact ((rest _).unmoved performed).unmoved same

/-- A view that only asks comes to an end when it is told of an event, and moves nothing. -/
theorem ends_tellView {name : String} (asks : w.layout.Asks name) (e : Event)
    (stack : List Frame) : Ends w.Unmoved (tellView name e w stack) stack := by
  have told : ∀ heeded, w.Unmoved (w.record (.callback (.view name) e w.depth heeded)) :=
    fun _ => .record w (by simp)
  have counted : ∀ heeded {f : ViewState → ViewState}, (∀ v, (f v).behavior = v.behavior) →
      w.Unmoved ((w.record (.callback (.view name) e w.depth heeded)).modifyView name f) :=
    fun heeded _ same => (told heeded).trans ⟨World.layout_modifyView _ name same, rfl, rfl⟩
  simp only [tellView]
  split
  · exact .of_answered _ (.refl w)
  · rename_i v found
    have behaves : w.layout.behavior name = some v.behavior :=
      congrArg (Option.map ViewState.behavior) found
    split
    · exact .of_answered _ (counted _ fun _ => rfl)
    · rename_i ops script
      have asked := fun w => ends_script_query (asks _ behaves _ e ops script) none w
        (.callback v.behavior.propagate (v.behavior.fault v.told e) :: stack)
      have ran := (asked _).unmoved (counted (!v.behavior.deaf)
        (f := fun v => { v with told := v.told + 1, ran := v.ran + 1 }) fun _ => rfl)
      exact ran.andThen fun u r same => .of_answered _ same

end Config

end HighlightSync
