import ScriptHost.Bridge
import ScriptHost.Variant.Reference

/-! Which values of an interpreter are still in use, and what happens to the others: each
box is emptied once, the object in it being told through a detached context; a table may
have a function for its end; and weak tables lose what is gone. All this comes about on request,
or between the steps of running functions, whenever the interpreter sees fit. -/

namespace ScriptHost

/-- What of its entries a table does not hold on to. -/
structure Weakness where
  keys : Bool
  values : Bool

namespace Heap

/-- What may be taken away. Functions of the libraries stay. -/
def isCell (h : Heap) : Value → Bool
  | .table _ | .box _ | .thread _ | .fault _ _ => true
  | .function f =>
    match h.functions[f.address]? with
    | some (.builtin b) => b = .print
    | _ => true
  | _ => false

def weakness (h : Heap) (id : Nat) : Weakness :=
  match h.metaField (.table id) "__mode" with
  | .string bytes =>
    let mode := Origin.nameOf bytes
    ⟨mode.contains 'k', mode.contains 'v'⟩
  | _ => ⟨false, false⟩

/-- What an entry of a table holds on to by itself. -/
def entryHolds (h : Heap) (w : Weakness) (e : Key × Value) : List Value :=
  (if w.keys then [] else [e.1.toValue]) ++
    if w.values || (w.keys && h.isCell e.1.toValue) then [] else [e.2]

/-- What a value holds on to. A box holds nothing inside the interpreter. -/
def holds (h : Heap) : Value → List Value
  | .table id =>
    let t := h.table id
    (t.meta?.map Value.table).toList ++ t.entries.flatMap (h.entryHolds (h.weakness id))
  | .function f => ((h.functions[f.address]?).map Function.holds).getD []
  | .thread id => (h.threads[id]?).toList
  | _ => []

/-- The tables that hold on to a value as long as its key is in use. -/
def ephemerons (h : Heap) : List Nat :=
  (List.range h.tables.size).filter fun id =>
    let w := h.weakness id
    w.keys && !w.values

/-- The values whose keys are in use. -/
def promised (h : Heap) (seen : List Value) (id : Nat) : List Value :=
  if seen.contains (.table id) then
    (h.table id).entries.filterMap fun e => if seen.contains e.1.toValue then some e.2 else none
  else []

/-- The cells of `vs` that are not in `seen`. -/
def unseen (h : Heap) (seen vs : List Value) : List Value :=
  (vs.filter fun v => h.isCell v && !seen.contains v).eraseDups

/-- Everything that `latest` leads to is added to `seen`, step by step. -/
def spread (h : Heap) (ephemerons : List Nat) : Nat → List Value → List Value → List Value
  | 0, seen, _ => seen
  | fuel + 1, seen, latest =>
    match h.unseen seen (latest.flatMap h.holds ++ ephemerons.flatMap (h.promised seen)) with
    | [] => seen
    | next => spread h ephemerons fuel (seen ++ next) next

/-- The values that stand somewhere in the heap. -/
def places (h : Heap) : List Value :=
  h.tables.toList.flatMap (fun t =>
    (t.meta?.map Value.table).toList ++ t.entries.flatMap fun e => [e.1.toValue, e.2]) ++
    h.functions.toList.flatMap Function.holds ++ h.threads.toList

/-- The cells that can be reached from `roots`. Each step finds a new one, so that there
are no more steps than places. -/
def reached (h : Heap) (roots : List Value) : List Value :=
  let start := h.unseen [] roots
  h.spread h.ephemerons (roots.length + h.places.length) start start

/-- Only the entries of a table that pass. -/
def sift (id : Nat) (keep : Key × Value → Bool) (h : Heap) : Heap :=
  let t := h.table id
  h.setTable id
    { t with entries := t.entries.filter keep, proper := t.proper.sublist List.filter_sublist }

/-- Weak tables lose the values that are not in use. -/
def loseValues (h : Heap) (tables inUse : List Value) : Heap :=
  tables.foldl (fun h v => match v with
    | .table id =>
      if (h.weakness id).values then h.sift id fun e => !h.isCell e.2 || inUse.contains e.2 else h
    | _ => h) h

/-- Weak tables lose the entries whose keys are not in use. -/
def loseKeys (h : Heap) (tables inUse : List Value) : Heap :=
  tables.foldl (fun h v => match v with
    | .table id =>
      if (h.weakness id).keys then
        h.sift id fun e => !h.isCell e.1.toValue || inUse.contains e.1.toValue
      else h
    | _ => h) h

/-- The host values in boxes that are not finalized. -/
def liveValues (h : Heap) : List Variant := h.boxes.toList.filterMap (·.map Boxed.value)

end Heap

namespace Host

/-- The values that objects hold. What a finalization gave is only told. -/
def instanceReferences (x : Instance) : List Reference :=
  x.properties.flatMap (fun e => e.2.references) ++ x.connections.flatMap (fun e => e.2.references)

def references (h : Host) : List Reference := h.objects.flatMap instanceReferences

/-- An object counts the finalization of a box that it was in. -/
def countEnd (h : Host) (o : ObjectId) : Host :=
  h.update o fun x => { x with finalized := x.finalized + 1 }

/-- What an object answered to its finalization is kept. -/
def keepWill (h : Host) (o : ObjectId) (result : Except CallError Variant) : Host :=
  h.update o fun x => { x with lastWill := some result }

end Host

namespace Bridge

/-- The functions of the interpreter that the host refers to. -/
def functionsOf (b : Bridge) (held : List Reference) : List Value :=
  (held.filterMap Reference.function?).filterMap fun f =>
    if f.owner = b.id then some (.function f) else none

/-- Where the search begins: the globals, the marks, the libraries, what running functions hold,
what is yet to be finalized, and the functions that the host holds. -/
def roots (b : Bridge) (held : List Reference) : List Value :=
  [.table Heap.globals, .table Heap.arrayMark, .table Heap.dictionaryMark] ++
    b.heap.textMeta?.toList.map .table ++ b.libraries.map (fun e => .table e.2) ++
    b.heap.upkeep.frames.flatMap Frame.values ++ b.heap.upkeep.doomed ++ b.functionsOf held

/-- The references in boxes that are not finalized. -/
def boxReferences (b : Bridge) : List Reference := b.heap.liveValues.flatMap Variant.references

def reached (b : Bridge) (held : List Reference) : List Value := b.heap.reached (b.roots held)

/-- The factories that scripts can still call. -/
def factories (b : Bridge) (held : List Reference) : List Reference :=
  (b.reached held).filterMap fun
    | .function f =>
      match b.heap.functions[f.address]? with
      | some (.factory o) => some (.object o)
      | _ => none
    | _ => none

end Bridge

namespace Heap

/-- Decides on the end of what nothing in use leads to. Values that are to be finalized are gone
from weak tables at once, as keys they stay until they can no longer be had. -/
def condemn (h : Heap) (inUse all : List Value) : Heap :=
  let gone := h.finalizable.filter (!inUse.contains ·)
  let h := h.loseValues inUse inUse
  let h := h.loseValues (all.filter (!inUse.contains ·)) all
  let h := h.loseKeys all all
  { h with
    finalizable := h.finalizable.filter (inUse.contains ·)
    upkeep := { h.upkeep with
      doomed := h.upkeep.doomed ++ gone
      history := (gone.filterMap Value.box?).reverse.map .condemned ++ h.upkeep.history } }

/-- Decides on the end of everything. -/
def condemnAll (h : Heap) : Heap :=
  { h with
    finalizable := []
    upkeep := { h.upkeep.tell .closing with doomed := h.upkeep.doomed ++ h.finalizable } }

/-- What is next to be finalized, with what is in it if it is a box. -/
def next? (h : Heap) : Option (Value × Option Variant) :=
  h.upkeep.doomed.head?.map fun v => (v, v.box?.bind h.boxed?)

/-- What is next to be finalized is no longer in line. A box is empty from now on. -/
def takeDoomed (h : Heap) : Heap :=
  match h.upkeep.doomed with
  | [] => h
  | v :: rest =>
    let h := { h with upkeep := { h.upkeep with doomed := rest } }
    match v with
    | .box id => h.emptyBox id
    | _ => h

/-- All that had no more than some room is over. -/
def leave (h : Heap) (room : Nat) : Heap :=
  { h with upkeep := { h.upkeep with frames := h.upkeep.frames.dropWhile (·.room ≤ room) } }

/-- Something that runs holds some values now. What ran inside of it is over. -/
def enter (h : Heap) (frame : Frame) : Heap :=
  let h := h.leave frame.room
  { h with upkeep := { h.upkeep with frames := frame :: h.upkeep.frames } }

end Heap

namespace Collector

/-- What is next to be finalized, with what was in it if it is a box. An object counts the
finalization. -/
def takeNext : Act (Option (Value × Option Variant)) := do
  let next? := (← Act.heap).next?
  Act.modifyHeap Heap.takeDoomed
  match next? with
  | some (_, some (.object o)) => Act.modifyHost (·.countEnd o)
  | _ => pure ()
  return next?

/-- An object runs what it declares for its end, detached. A failure has no further effect. -/
def finalizeObject (o : ObjectId) : Act Unit := do
  match ← Request.reentry.override? .detached o .gc [] with
  | some result => Act.modifyHost (·.keepWill o result)
  | none => pure ()

/-- Calls what the metatable gives for the end of a table, unseen by hooks; a failure there
has no further effect. -/
def finalizeTable (id : Nat) : Act Unit := do
  match (← Act.heap).metaField (.table id) Metamethod.gc.name with
  | .nil => pure ()
  | f => do
    let hook := (← Act.bridge).hook?
    Act.modifyBridge fun b => { b with hook? := none }
    let _ ← (Request.reentry.call f [.table id]).attempt
    Act.modifyBridge fun b => { b with hook? := hook }

/-- What is done for the end of something that was taken. -/
def finalize : Option (Value × Option Variant) → Act Unit
  | some (_, some (.object o)) => finalizeObject o
  | some (.table id, _) => finalizeTable id
  | _ => pure ()

/-- Finalizes what is next. Meanwhile nothing else is collected. -/
def finalizeNext : Act Unit := do
  finalize (← takeNext)

def finalizeMany : Nat → Act Unit
  | 0 => pure ()
  | n + 1 => do
    finalizeNext
    finalizeMany n

/-- Finalizes everything whose end has been decided on. -/
def finalizeDoomed : Act Unit := do
  finalizeMany (← Act.heap).upkeep.doomed.length

/-- Decides on the end of what nothing leads to. What `held` lists is in use in any case, and what
is `spared` may be left for the next time. -/
def condemn (held : List Reference) (spared : List Value) : Act Unit := do
  let b ← Act.bridge
  let roots := b.roots (held ++ (← Act.host).references ++ b.boxReferences) ++ spared
  let inUse := b.heap.reached roots
  let all := b.heap.reached (roots ++ b.heap.finalizable.filter (!inUse.contains ·))
  Act.modifyHeap (·.condemn inUse all)

/-- Finalizes what nothing leads to; it can be used until it is taken away by the next
collection. -/
def cycle (held : List Reference) : Act Unit := do
  finalizeDoomed
  condemn held []
  finalizeDoomed

/-- A full collection on behalf of the host, which a function runs. -/
def collectOnce (held : List Reference) : Act (Except ScriptError Unit) :=
  Request.reentry.guard (Act.outside none (cycle held))

/-- Two full collections: what the first one finalizes, the second one takes away. -/
def collect (held : List Reference) : Act (Except ScriptError Unit) := do
  match ← collectOnce held with
  | .ok () => collectOnce held
  | .error e => return .error e

/-- Collects once more, unless a hook prevents that, and finalizes everything that is left. What
is made meanwhile goes with the interpreter. -/
def shutDown (held : List Reference) : Act Unit := do
  let _ ← collectOnce held
  Act.modifyHeap Heap.condemnAll
  finalizeDoomed

/-! ### Between steps -/

/-- A part of a collection. -/
inductive Chore
  /-- Decides on what is to be finalized. What has been seen in use before may be spared. -/
  | condemn (spared : List Value)
  | finalize

/-- What the collector does where it might act, which it does as often as it sees fit. -/
def Plan : Type := Nat → Option Chore

/-- Where the collector might act, it acts as planned. -/
def attend (held : List Reference) (plan : Plan) : Act Unit := do
  let n := (← Act.heap).upkeep.occasions
  Act.modifyHeap fun h => { h with upkeep := { h.upkeep with occasions := n + 1 } }
  match plan n with
  | some (.condemn spared) => condemn held spared
  | some .finalize => finalizeNext
  | none => pure ()

/-- The collector acts between the steps of running functions, but not while it finalizes. -/
abbrev attending (held : List Reference) (plan : Plan) : Pausing where
  pause frame := do
    Act.modifyHeap (·.enter (frame ()))
    attend held plan
  holding room references x := do
    let b ← Act.bridge
    Act.modifyHeap (·.enter ⟨room, b.functionsOf (references ())⟩)
    let a ← x
    Act.modifyHeap (·.leave room)
    return a

end Collector

end ScriptHost
