import HighlightSync.World.Execute

/-!
# Frames and configurations

While operations run, listeners, mappers and lazy input may start further ones, on the
same handlers and to any depth. What is left to do at each level is a frame, and the stack
of frames, innermost first, together with the world is a configuration. A configuration
may carry a reply: it is the answer to what the innermost frame was waiting for.

A frame that waits keeps the thing it waits for at the head of its list.
-/

namespace HighlightSync

/-- What keys are read for. -/
inductive Purpose where
  | move (d : Direction)
  | query

/-- What is left to do at one level. -/
inductive Frame where
  /-- Run a script; the first fault met so far. -/
  | script (pending : List Op) (first : Option Fault)
  /-- Read the keys that were handed to a handler; those read so far, the last one first. -/
  | reading (h : HandlerId) (purpose : Purpose) (filter : Option Presence)
      (pulls : List (Pull Op)) (taken : List Key)
  /-- Clear a handler. -/
  | clearing (h : HandlerId)
  /-- Leave a call on a handler, which is one level of the cascade. -/
  | call (kind : ChangeKind) (h : HandlerId)
  /-- Tell listeners of an event; the first fault they reported so far. -/
  | fanOut (e : Event) (pending : List Listener) (first : Option Fault)
  /-- End a callback with a fault of its own, or with one from its script. -/
  | callback (propagate : Bool) (fault : Option FaultSpec)
  /-- Leave the forwarding of an event by a translator. -/
  | forward (t : TranslatorId)
  /-- Ask a mapper for the keys of an event; the sets it has answered so far, the last one
  first, and the answer to the question being put. -/
  | mapping (t : TranslatorId) (d : Direction) (m : MapperId) (targets : List HandlerId)
      (keys : KeySet) (pending : List Key) (mapped : List KeySet) (held : Option Answer)
  /-- Move keys on targets; all targets, those left, and the first fault met so far. -/
  | forwarding (d : Direction) (keys : KeySet) (targets pending : List HandlerId)
      (first : Option Fault)
  /-- Reset targets; those left and the first fault met so far. -/
  | resetTargets (t : TranslatorId) (pending : List HandlerId) (first : Option Fault)
  /-- Put a new mapper in place of the old one. -/
  | swap (t : TranslatorId) (m : Option MapperId)

/-- A world, what is left to do in it, and the reply last given. -/
structure Config where
  world : World
  stack : List Frame
  reply : Option Reply

namespace Frame

/-- Whether the frame belongs to work of a translator on an event of its source. Such work
keeps the state of the translator even when it is dropped meanwhile. -/
def worksFor (t : TranslatorId) : Frame → Bool
  | .forward u => decide (u = t)
  | .resetTargets u _ _ => decide (u = t)
  | _ => false

/-- Whether the frame replaces the mapper of a translator. -/
def swapsMapperOf (t : TranslatorId) : Frame → Bool
  | .swap u _ => decide (u = t)
  | _ => false

/-- Whether the frame keeps a handler in existence: a call on it or the reading of its
keys, or the work of a translator that has it as source or has yet to reach it. -/
def holds (w : World) (h : HandlerId) : Frame → Bool
  | .reading g _ _ _ _ => decide (g = h)
  | .clearing g => decide (g = h)
  | .call _ g => decide (g = h)
  | .forward t => (w.translator? t).any fun s => decide (s.source = h)
  | .mapping _ _ _ targets _ _ _ _ => decide (h ∈ targets)
  | .forwarding _ _ targets _ _ => decide (h ∈ targets)
  | .resetTargets t pending _ =>
      (w.translator? t).any (fun s => decide (s.source = h)) || decide (h ∈ pending)
  | _ => false

end Frame

namespace World

/-- Whether something keeps a handler in existence: a name, a live translator that leads
from it or to it, or work in progress. -/
def isHeld (w : World) (stack : List Frame) (h : HandlerId) : Bool :=
  w.namesHandler h || w.linksHandler h || stack.any (Frame.holds w h)

/-- Whether the links of a translator still act: it is live, or has work in progress. -/
def isAtWork (w : World) (stack : List Frame) (t : TranslatorId) : Bool :=
  (w.translator? t).any TranslatorState.live || stack.any (Frame.worksFor t)

end World

end HighlightSync
