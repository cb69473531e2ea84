import HighlightSync.World.Wiring

/-!
# Actions that are answered at once

`World.execute` carries out one action. An action that names nobody, or takes a name that
is in use, is refused and leaves the world as it is.
-/

namespace HighlightSync.World

/-- Whether a name of a handler or translator is in use. -/
def isTaken (w : World) (name : String) : Bool := (w.names.lookup name).isSome

/-- What there is to know about a handler. -/
def handlerInfo (h : HandlerId) (s : HandlerState) : HandlerInfo :=
  ⟨h, s.settings, s.keys.size, s.registry.size⟩

/-- What there is to know about a translator. -/
def translatorInfo (s : TranslatorState) : TranslatorInfo :=
  ⟨s.source, s.targetHandlers, s.mapper.isSome⟩

/-- Go on with the handler that goes by a name, or refuse. -/
def onHandler (w : World) (name : String) (f : HandlerId → HandlerState → Reply × World) :
    Reply × World :=
  match w.handlerNamed? name with
  | none => (.refused .noHandler, w)
  | some h =>
      match w.handler? h with
      | none => (.refused .noHandler, w)
      | some s => f h s

/-- Go on with the translator that goes by a name, or refuse. -/
def onTranslator (w : World) (name : String)
    (f : TranslatorId → TranslatorState → Reply × World) : Reply × World :=
  match w.translatorNamed? name with
  | none => (.refused .noTranslator, w)
  | some t =>
      match w.translator? t with
      | none => (.refused .noTranslator, w)
      | some s => f t s

/-- Go on with the view of a name, as a listener, or refuse. -/
def onView (w : World) (name : String) (f : Listener → Reply × World) : Reply × World :=
  match w.view? name with
  | none => (.refused .noListener, w)
  | some _ => f (.view name)

/-- Add a view under a name. -/
def addView (w : World) (name : String) (b : Behavior) : World :=
  { w with views := w.views ++ [(name, ⟨b, 0, 0⟩)] }

/-- Carry out an action. A fresh thread has a cascade of its own, in which no call is open. -/
def execute (w : World) : Action Op → Reply × World
  | .createHandler name settings =>
      if w.isTaken name then (.refused .nameTaken, w)
      else
        match settings.fault? with
        | some f => (.fault f, w)
        | none =>
            let (h, w) := w.addHandler settings
            (.created h settings, w.bind name (.handler h))
  | .dropHandler name => w.onHandler name fun _ _ => (.done, w.forget name)
  | .inspectHandler name => w.onHandler name fun h s => (.handler (handlerInfo h s), w)
  | .contains name k => w.onHandler name fun _ s => (.truth (decide (k ∈ s.keys)), w)
  | .keys name => w.onHandler name fun _ s => (.keys s.keys, w)
  | .depth => (.number w.depth, w)
  | .threadDepth => (.number 0, w)
  | .createListener name spec =>
      if (w.view? name).isSome then (.refused .nameTaken, w)
      else (.done, w.addView name (.ofSpec spec))
  | .addListener name l =>
      w.onHandler name fun h _ => w.onView l fun l =>
        let (id, w) := w.attach h l
        (.registered id, w)
  | .removeListener name l =>
      w.onHandler name fun h _ => w.onView l fun l =>
        let (b, w) := w.detachListener h l
        (.truth b, w)
  | .removeListenerId name id =>
      w.onHandler name fun h _ =>
        match id with
        | none => (.truth false, w)
        | some id =>
            let (b, w) := w.detach h id
            (.truth b, w)
  | .removeAllListeners name => w.onHandler name fun h _ => (.done, w.detachAll h)
  | .createTranslator name source spec =>
      if w.isTaken name then (.refused .nameTaken, w)
      else
        w.onHandler source fun h _ =>
          let (t, w) := w.addTranslator h
          let w := w.bind name (.translator t)
          match spec with
          | none => (.done, w)
          | some spec =>
              let (m, w) := w.addMapperOf spec
              (.done, w.setMapper t (some m))
  | .addTarget name target =>
      w.onTranslator name fun t s => w.onHandler target fun h _ =>
        match w.addTarget t s h with
        | (.error f, w) => (.fault f, w)
        | (.ok b, w) => (.truth b, w)
  | .removeTarget name target =>
      w.onTranslator name fun t s => w.onHandler target fun h _ =>
        let (b, w) := w.removeTarget t s h
        (.truth b, w)
  | .removeAllTargets name =>
      w.onTranslator name fun t s => (.done, w.removeAllTargets t s)
  | .inspectTranslator name =>
      w.onTranslator name fun _ s => (.translator (translatorInfo s), w)
  | .unknown _ => (.refused .unknownOperation, w)

end HighlightSync.World
