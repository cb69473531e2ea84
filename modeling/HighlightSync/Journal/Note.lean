import HighlightSync.Event
import HighlightSync.Fault
import HighlightSync.KeySet.Summary

/-!
# Notes about the working of handlers and translators

Handlers and translators report what they do in notes. A note is kept as what it says; its
level, the area it comes from, its text and its fields are functions of it. Failures are
warnings, changes of the wiring of translators are for debugging, all else is for tracing.

Work that takes a while, calls on handlers and forwarding, is bracketed by a span, which
is entered before the work and left after it.
-/

namespace HighlightSync

/-- How important a note is. -/
inductive Level where
  | warn
  | debug
  | trace
  deriving DecidableEq

/-- The written form of a level. -/
def Level.render : Level → String
  | .warn => "WARN"
  | .debug => "DEBUG"
  | .trace => "TRACE"

/-- The part of the library a note comes from. -/
inductive Area where
  | core
  | handler
  | translator
  | cascade
  deriving DecidableEq

/-- The written form of an area. -/
def Area.render : Area → String
  | .core => "hilite_core"
  | .handler => "hilite_core::handler"
  | .translator => "hilite_core::translator"
  | .cascade => "hilite_core::cascade"

/-- What a handler or a translator reports. -/
inductive Note where
  | listenerAdded (h : HandlerId) (listeners : Nat)
  | listenerRemoved (h : HandlerId) (listeners : Nat)
  | nothingMoved (h : HandlerId) (d : Direction)
  | moved (h : HandlerId) (d : Direction) (keys : KeySet)
  | nothingToReset (h : HandlerId)
  | cleared (h : HandlerId) (count : Nat)
  | listenerFailed (h : HandlerId) (f : Fault)
  | cascadeRefused (h : HandlerId) (depth limit : Nat)
  | mapperFailed (source : HandlerId) (k : Key) (message : String)
  | nothingMapped (keys : KeySet)
  | forwarding (d : Direction) (targets : Nat) (keys : KeySet)
  | mapperReplaced (source : HandlerId) (hasMapper : Bool)
  | targetAdded (source target : HandlerId)
  | targetRemoved (target : HandlerId)
  | translatorAttached (source : HandlerId)
  | translatorDetached (source : HandlerId)

/-- The value of a field of a note. -/
inductive Field where
  | text (s : String)
  | number (n : Nat)
  | flag (b : Bool)

namespace Note

/-- How important a note is. -/
def level : Note → Level
  | .listenerFailed .. | .cascadeRefused .. | .mapperFailed .. => .warn
  | .mapperReplaced .. | .targetAdded .. | .targetRemoved .. => .debug
  | .translatorAttached .. | .translatorDetached .. => .debug
  | _ => .trace

/-- Where a note comes from. -/
def area : Note → Area
  | .cascadeRefused .. => .cascade
  | .translatorAttached .. | .translatorDetached .. => .core
  | .mapperFailed .. | .nothingMapped .. | .forwarding .. | .mapperReplaced .. => .translator
  | .targetAdded .. | .targetRemoved .. => .translator
  | _ => .handler

/-- The text of a note. -/
def message : Note → String
  | .listenerAdded .. => "listener added"
  | .listenerRemoved .. => "listener removed"
  | .nothingMoved _ .highlight => "all keys already highlighted"
  | .nothingMoved _ .unhighlight => "no keys were highlighted"
  | .moved _ .highlight _ => "keys highlighted"
  | .moved _ .unhighlight _ => "keys unhighlighted"
  | .nothingToReset _ => "nothing highlighted, reset skipped"
  | .cleared .. => "highlight reset"
  | .listenerFailed .. => "highlight listener failed"
  | .cascadeRefused .. => "highlight cascade too deep, refusing mutation"
  | .mapperFailed .. => "key mapper failed, event not translated"
  | .nothingMapped _ => "no key has a mapping"
  | .forwarding .. => "forwarding translated keys"
  | .mapperReplaced .. => "translator mapper replaced"
  | .targetAdded .. => "translation target added"
  | .targetRemoved _ => "translation target removed"
  | .translatorAttached _ => "translator attached"
  | .translatorDetached _ => "translator detached"

/-- The written form of a direction in a note. -/
def directionText : Direction → String
  | .highlight => "Highlight"
  | .unhighlight => "Unhighlight"

/-- A key set in a note, shortened. -/
def keysField (ks : KeySet) : String × Field := ("keys", .text (ks.summary KeySet.defaultLimit))

/-- The named values that are shown of a note. Some notes know more than they show. -/
def fields : Note → List (String × Field)
  | .listenerAdded h n | .listenerRemoved h n =>
      [("handler", .text h.render), ("listeners", .number n)]
  | .nothingMoved .. | .nothingToReset _ => []
  | .moved _ _ ks => [("count", .number ks.size), keysField ks]
  | .cleared _ n => [("cleared", .number n)]
  | .listenerFailed h f => [("handler", .text h.render), ("error", .text f.message)]
  | .cascadeRefused _ depth limit => [("depth", .number depth), ("max_depth", .number limit)]
  | .mapperFailed source k m =>
      [("source", .text source.render), ("key", .text k.render), ("error", .text m)]
  | .nothingMapped ks => [keysField ks]
  | .forwarding d n ks =>
      [("direction", .text (directionText d)), ("targets", .number n), keysField ks]
  | .mapperReplaced source b => [("source", .text source.render), ("has_mapper", .flag b)]
  | .targetAdded source target =>
      [("source", .text source.render), ("target_handler", .text target.render)]
  | .targetRemoved target => [("target_handler", .text target.render)]
  | .translatorAttached source | .translatorDetached source =>
      [("source", .text source.render)]

end Note

/-- A stretch of work: a call on a handler, or the forwarding of moved keys. -/
inductive Span where
  | call (kind : ChangeKind) (h : HandlerId)
  | forward
  deriving DecidableEq

/-- The name of the span of a call. -/
def ChangeKind.spanName : ChangeKind → String
  | .highlight => "hilite::highlight"
  | .unhighlight => "hilite::unhighlight"
  | .reset => "hilite::reset"

namespace Span

/-- The name of a span. -/
def name : Span → String
  | .call kind _ => kind.spanName
  | .forward => "forward"

/-- The named values that the opening of a span carries. -/
def fields : Span → List (String × Field)
  | .call _ h => [("handler", .text h.render)]
  | .forward => []

end Span

end HighlightSync
