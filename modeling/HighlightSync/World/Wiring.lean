import HighlightSync.World.Basic

/-!
# Wiring: listeners, links and targets

Everything here happens at once: no listener is told of it and no script runs. A listener
is registered on a handler at most once. A translator registers its source link when it is
made and a reset link on each target, keeps the identities it is given, and takes links
away by these identities alone.
-/

namespace HighlightSync.World

/-- Create a handler. -/
def addHandler (w : World) (settings : Settings) : HandlerId × World :=
  (⟨w.handlers.next⟩, { w with handlers := w.handlers.push ⟨settings, ∅, ∅⟩ })

/-- Put a mapper in place that can be given to a translator. -/
def addMapper (w : World) (m : MapperState) : MapperId × World :=
  (⟨w.mappers.next⟩, { w with mappers := w.mappers.push m })

/-- Put the mapper in place that a specification asks for. -/
def addMapperOf (w : World) (spec : MapperSpec Op) : MapperId × World :=
  w.addMapper (.ofSpec spec)

/-- Replace the registry of a handler. -/
def setRegistry (w : World) (h : HandlerId) (r : Registry Listener) : World :=
  w.modifyHandler h fun s => { s with registry := r }

/-- Register a listener on a handler, behind those already there. A listener that is
registered keeps its place. -/
def attach (w : World) (h : HandlerId) (l : Listener) : ListenerId × World :=
  let r := w.registryOf h
  match r.find? l with
  | some id => (id, w)
  | none =>
      let (id, r) := r.append l
      (id, (w.setRegistry h r).note (.listenerAdded h r.size))

/-- Remove the registration with an identity from a handler. Tells whether there was one. -/
def detach (w : World) (h : HandlerId) (id : ListenerId) : Bool × World :=
  let r := w.registryOf h
  match r.get? id with
  | some _ =>
      let r := r.remove id
      (true, (w.setRegistry h r).note (.listenerRemoved h r.size))
  | none => (false, w)

/-- Remove a listener from a handler. Tells whether it was registered. -/
def detachListener (w : World) (h : HandlerId) (l : Listener) : Bool × World :=
  match (w.registryOf h).find? l with
  | some id => w.detach h id
  | none => (false, w)

/-- Remove all listeners from a handler, which starts its registry afresh. -/
def detachAll (w : World) (h : HandlerId) : World := w.setRegistry h (w.registryOf h).clear

/-- Make a translator on a source, with its link registered there. -/
def addTranslator (w : World) (source : HandlerId) : TranslatorId × World :=
  let t : TranslatorId := ⟨w.translators.next⟩
  let (id, w) := w.attach source (.sourceLink t)
  (t, { w with translators := w.translators.push ⟨source, id, [], none, true⟩ }.note
    (.translatorAttached source))

/-- Give a translator a mapper, or none. -/
def setMapper (w : World) (t : TranslatorId) (m : Option MapperId) : World :=
  w.modifyTranslator t fun s => { s with mapper := m }

/-- Make a handler a target of a translator, with a reset link registered on it. The source
cannot be a target; a handler that is a target already stays one. -/
def addTarget (w : World) (t : TranslatorId) (s : TranslatorState) (h : HandlerId) :
    Except Fault Bool × World :=
  if h = s.source then (.error (.selfTarget h), w)
  else if h ∈ s.targetHandlers then (.ok false, w)
  else
    let (id, w) := w.attach h (.resetLink t)
    (.ok true, (w.note (.targetAdded s.source h)).modifyTranslator t fun s =>
      { s with targets := s.targets ++ [⟨h, id⟩] })

/-- Take the reset link of a former target away. -/
def release (w : World) (target : Target) : World :=
  (w.detach target.handler target.resetLink).2.note (.targetRemoved target.handler)

/-- Make a handler no longer a target. Tells whether it was one. -/
def removeTarget (w : World) (t : TranslatorId) (s : TranslatorState) (h : HandlerId) :
    Bool × World :=
  match s.targets.find? (fun target => decide (target.handler = h)) with
  | some target =>
      (true, (w.modifyTranslator t fun s =>
        { s with targets := s.targets.filter fun other => !decide (other.handler = h) }).release
          target)
  | none => (false, w)

/-- Remove all targets of a translator, in order. -/
def removeAllTargets (w : World) (t : TranslatorId) (s : TranslatorState) : World :=
  s.targets.foldl release (w.modifyTranslator t fun s => { s with targets := [] })

/-- Drop a translator: its targets go first, then its link on the source. -/
def dropTranslator (w : World) (t : TranslatorId) (s : TranslatorState) : World :=
  let w := w.removeAllTargets t s
  ((w.detach s.source s.sourceLink).2.note (.translatorDetached s.source)).modifyTranslator t
    fun s => { s with live := false }

end HighlightSync.World
