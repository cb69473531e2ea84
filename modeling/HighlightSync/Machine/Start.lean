import HighlightSync.Machine.Frame

/-!
# How work starts

Each function gives the configuration in which some piece of work has just begun, on top
of what was left to do before: a call on a handler, the callback of a listener, a question
to a mapper, or an operation. Work that is over at once leaves only its reply.

A call is bracketed by a span, and the depth limit of the handler is checked inside it
before anything else. A refused call leaves the handler alone and reads no key.
-/

namespace HighlightSync.Config

/-- Nothing is left of some work but its reply. -/
def answered (w : World) (stack : List Frame) (r : Reply) : Config := ⟨w, stack, some r⟩

/-- Go on with the innermost frame. -/
def running (w : World) (stack : List Frame) : Config := ⟨w, stack, none⟩

/-- Begin a call on a handler, whose body is the given frame. -/
def openCall (kind : ChangeKind) (h : HandlerId) (body : Frame) (w : World)
    (stack : List Frame) : Config :=
  let w := w.record (.enter (.call kind h))
  match (w.handler? h).bind fun s => s.settings.refuses? w.depth with
  | some limit =>
      answered ((w.note (.cascadeRefused h w.depth limit)).record (.exit (.call kind h))) stack
        (.fault (.cascadeTooDeep limit))
  | none => running { w with depth := w.depth + 1 } (body :: .call kind h :: stack)

/-- Begin to move keys on a handler. -/
def openMove (d : Direction) (h : HandlerId) (feed : Feed Op) (w : World)
    (stack : List Frame) : Config :=
  openCall d.kind h (.reading h (.move d) feed.filter feed.pulls []) w stack

/-- Begin to move a set of keys on a handler. -/
def openMoveSet (d : Direction) (h : HandlerId) (keys : KeySet) (w : World)
    (stack : List Frame) : Config :=
  openMove d h ⟨none, keys.toList.map .key⟩ w stack

/-- Begin to reset a handler. -/
def openReset (h : HandlerId) (w : World) (stack : List Frame) : Config :=
  openCall .reset h (.clearing h) w stack

/-- Tell a view of an event. -/
def tellView (name : String) (e : Event) (w : World) (stack : List Frame) : Config :=
  match w.view? name with
  | none => answered w stack .done
  | some v =>
      let w := w.record (.callback (.view name) e w.depth (!v.behavior.deaf))
      let fault := v.behavior.fault v.told e
      match v.behavior.script v.ran e with
      | none =>
          answered (w.modifyView name fun v => { v with told := v.told + 1 }) stack
            (.outcome (fault.bind w.faultOf))
      | some ops =>
          running (w.modifyView name fun v => { v with told := v.told + 1, ran := v.ran + 1 })
            (.script ops none :: .callback v.behavior.propagate fault :: stack)

/-- Tell the source link of a translator that keys moved on the source. Without a mapper
or without targets there is nothing to forward. -/
def tellForward (t : TranslatorId) (s : TranslatorState) (d : Direction) (keys : KeySet)
    (w : World) (stack : List Frame) : Config :=
  let w := w.record (.enter .forward)
  match s.mapper, s.targetHandlers with
  | none, _ => answered w (.forward t :: stack) .done
  | some _, [] => answered w (.forward t :: stack) .done
  | some m, targets =>
      running w (.mapping t d m targets keys keys.toList [] none :: .forward t :: stack)

/-- Tell a listener of an event. A link of a translator that is gone does nothing, and
neither does a reset link whose source is gone; a reset link heeds only resets. -/
def tell (l : Listener) (e : Event) (w : World) (stack : List Frame) : Config :=
  match l with
  | .view name => tellView name e w stack
  | .sourceLink t =>
      let w := w.record (.callback l e w.depth true)
      match w.translator? t with
      | none => answered w stack .done
      | some s =>
          if w.isAtWork stack t then
            match e.change with
            | .move d keys => tellForward t s d keys w stack
            | .reset => running w (.resetTargets t s.targetHandlers none :: stack)
          else answered w stack .done
  | .resetLink t =>
      let w := w.record (.callback l e w.depth true)
      match w.translator? t, e.change with
      | some s, .reset =>
          if w.isHeld stack s.source then openReset s.source w stack
          else answered w stack .done
      | _, _ => answered w stack .done

/-- The question that a mapper is asked: its answer, its script, and the world in which the
question counts. -/
def ask (m : MapperId) (k : Key) (w : World) : Answer × List Op × World :=
  match w.mapper? m with
  | none => (.ok none, [], w)
  | some s =>
      (s.answer s.asked k, s.script s.asked k,
        (w.record (.question m s.origin k w.depth)).modifyMapper m fun s =>
          { s with asked := s.asked + 1 })

/-- Go on with the handler that goes by a name, or refuse. -/
def onHandler (name : String) (w : World) (stack : List Frame) (f : HandlerId → Config) :
    Config :=
  match w.handlerNamed? name with
  | none => answered w stack (.refused .noHandler)
  | some h => f h

/-- Go on with the translator that goes by a name, or refuse. -/
def onTranslator (name : String) (w : World) (stack : List Frame)
    (f : TranslatorId → TranslatorState → Config) : Config :=
  match w.translatorNamed? name with
  | none => answered w stack (.refused .noTranslator)
  | some t =>
      match w.translator? t with
      | none => answered w stack (.refused .noTranslator)
      | some s => f t s

/-- Begin an operation. A new mapper is made first, the source is then reset, and the new
mapper takes the place of the old one at the end, whatever the reset reports. -/
def perform (op : Op) (w : World) (stack : List Frame) : Config :=
  match op with
  | .act a =>
      let (r, w) := w.execute a
      answered w stack r
  | .move d name feed => onHandler name w stack fun h => openMove d h feed w stack
  | .reset name => onHandler name w stack fun h => openReset h w stack
  | .isHighlighted name feed =>
      onHandler name w stack fun h =>
        running w (.reading h .query feed.filter feed.pulls [] :: stack)
  | .swapMapper name spec =>
      onTranslator name w stack fun t s =>
        match spec with
        | none => openReset s.source w (.swap t none :: stack)
        | some spec =>
            let (m, w) := w.addMapperOf spec
            openReset s.source w (.swap t (some m) :: stack)
  | .dropTranslator name =>
      onTranslator name w stack fun t s =>
        if stack.any (Frame.swapsMapperOf t) then answered w stack (.refused .busy)
        else answered ((w.dropTranslator t s).forget name) stack .done

end HighlightSync.Config
