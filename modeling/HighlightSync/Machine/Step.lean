import HighlightSync.Machine.Start

/-!
# Steps

One step either lets the innermost frame go on, or hands it the reply that it was waiting
for. A configuration without frames is at rest.

Two rules fix what listeners can rely on. A call first reads all its keys and only then
changes the handler's set, in one step, and a call that changes nothing tells nobody. And
the listeners told of a change are those of the registry's list at that step, each once,
whatever happens to the registry afterwards.
-/

namespace HighlightSync.Config

/-- A handler has changed: set its keys, note the change, and tell its listeners. -/
def announce (h : HandlerId) (c : Change) (n : Note) (w : World) (stack : List Frame) :
    Config :=
  let listeners := (w.registryOf h).snapshot
  let w := (w.modifyHandler h fun s => { s with keys := c.apply s.keys }).note n
  running w (.fanOut ⟨h, c⟩ listeners none :: stack)

/-- All keys are read: move those that really move, or answer the query. -/
def finishReading (h : HandlerId) (purpose : Purpose) (taken : List Key) (w : World)
    (stack : List Frame) : Config :=
  match purpose with
  | .query => answered w stack (.truth ((KeySet.ofList taken).isSubset (w.keysOf h)))
  | .move d =>
      let moved := d.effect (.ofList taken.reverse) (w.keysOf h)
      if moved = ∅ then answered (w.note (.nothingMoved h d)) stack .done
      else announce h (.move d moved) (.moved h d moved) w stack

/-- Clear a handler, unless it is empty already. -/
def clear (h : HandlerId) (w : World) (stack : List Frame) : Config :=
  let keys := w.keysOf h
  if keys = ∅ then answered (w.note (.nothingToReset h)) stack .done
  else announce h .reset (.cleared h keys.size) w stack

/-- All keys of an event are mapped: forward the union of the answers to the targets. -/
def finishMapping (d : Direction) (targets : List HandlerId) (keys : KeySet)
    (answers : List KeySet) (w : World) (stack : List Frame) : Config :=
  let mapped := KeySet.unionAll answers
  if mapped = ∅ then answered (w.note (.nothingMapped keys)) stack .done
  else
    running (w.note (.forwarding d targets.length mapped))
      (.forwarding d mapped targets targets none :: stack)

/-- Let a frame go on. -/
def advance (f : Frame) (w : World) (stack : List Frame) : Config :=
  match f with
  | .script [] first => answered w stack (.outcome first)
  | .script (op :: _) _ => perform op w (f :: stack)
  | .reading h purpose _ [] taken => finishReading h purpose taken w stack
  | .reading _ _ _ (.act op :: _) _ => perform op w (f :: stack)
  | .reading h purpose filter (.key k :: pulls) taken =>
      let kept := filter.all fun p => p.admits k (w.keysOf h)
      running (w.record (.keyRead h k w.depth))
        (.reading h purpose filter pulls (if kept then k :: taken else taken) :: stack)
  | .clearing h => clear h w stack
  | .fanOut _ [] first => answered w stack (.outcome first)
  | .fanOut e (l :: _) _ => tell l e w (f :: stack)
  | .mapping _ d _ targets keys [] mapped _ => finishMapping d targets keys mapped w stack
  | .mapping t d m targets keys (k :: pending) mapped _ =>
      let (answer, script, w) := ask m k w
      running w (.script script none ::
        .mapping t d m targets keys (k :: pending) mapped (some answer) :: stack)
  | .forwarding _ _ _ [] first => answered w stack (.outcome first)
  | .forwarding d keys _ (h :: _) _ => openMoveSet d h keys w (f :: stack)
  | .resetTargets _ [] first => answered w stack (.outcome first)
  | .resetTargets _ (h :: _) _ => openReset h w (f :: stack)
  | .call _ _ | .callback _ _ | .forward _ | .swap _ _ => answered w (f :: stack) .done

/-- A mapper has answered: stop at a failure, else go on with the next key. -/
def resumeMapping (t : TranslatorId) (d : Direction) (m : MapperId) (targets : List HandlerId)
    (keys : KeySet) (k : Key) (pending : List Key) (mapped : List KeySet)
    (answer : Answer) (w : World) (stack : List Frame) : Config :=
  match answer with
  | .error message =>
      let source := (w.translator? t).elim ⟨0⟩ TranslatorState.source
      answered (w.note (.mapperFailed source k message)) stack (.fault (.mapper message))
  | .ok none => running w (.mapping t d m targets keys pending mapped none :: stack)
  | .ok (some fine) =>
      running w (.mapping t d m targets keys pending (fine :: mapped) none :: stack)

/-- Hand a frame the reply that it was waiting for. -/
def resume (f : Frame) (r : Reply) (w : World) (stack : List Frame) : Config :=
  match f with
  | .script (op :: ops) first =>
      running (w.record (.performed op r)) (.script ops (first.or r.fault?) :: stack)
  | .script [] first => answered w stack (.outcome first)
  | .reading h purpose filter (.act op :: pulls) taken =>
      running (w.record (.performed op r)) (.reading h purpose filter pulls taken :: stack)
  | .reading _ _ _ _ _ | .clearing _ => running w (f :: stack)
  | .call kind h =>
      answered ({ w with depth := w.depth - 1 }.record (.exit (.call kind h))) stack r
  | .fanOut e pending first =>
      let w := match r.fault? with
        | some fault => w.note (.listenerFailed e.source fault)
        | none => w
      running w (.fanOut e pending.tail (first.or r.fault?) :: stack)
  | .callback propagate fault =>
      let own := fault.bind w.faultOf
      answered w stack (.outcome (if propagate then r.fault?.or own else own))
  | .forward _ => answered (w.record (.exit .forward)) stack r
  | .mapping t d m targets keys (k :: pending) mapped (some answer) =>
      resumeMapping t d m targets keys k pending mapped answer w stack
  | .mapping _ _ _ _ _ _ _ _ => running w (f :: stack)
  | .forwarding d keys targets pending first =>
      running w (.forwarding d keys targets pending.tail (first.or r.fault?) :: stack)
  | .resetTargets t pending first =>
      running w (.resetTargets t pending.tail (first.or r.fault?) :: stack)
  | .swap t m =>
      let source := (w.translator? t).elim ⟨0⟩ TranslatorState.source
      answered ((w.setMapper t m).note (.mapperReplaced source m.isSome)) stack r

/-- One step. There is none when no frame is left. -/
def step (c : Config) : Option Config :=
  match c.stack, c.reply with
  | [], _ => none
  | f :: stack, none => some (advance f c.world stack)
  | f :: stack, some r => some (resume f r c.world stack)

@[simp] theorem step_running (w : World) (f : Frame) (stack : List Frame) :
    (running w (f :: stack)).step = some (advance f w stack) := rfl

@[simp] theorem step_answered (w : World) (f : Frame) (stack : List Frame) (r : Reply) :
    (answered w (f :: stack) r).step = some (resume f r w stack) := rfl

end HighlightSync.Config
