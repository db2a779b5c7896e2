import ScriptHost.Access
import ScriptHost.Codec.Decode
import ScriptHost.Host.State
import ScriptHost.Machine.Heap

/-! One interpreter with its settings, the world that it acts in, and actions on that
world. An action ends with a value, with an error that scripts can catch, or because it
may not go on. -/

namespace ScriptHost

/-- What a hook says to its events, which are numbered from one on: an error stops the
script. -/
def Verdict : Type := Nat → HookEvent → Option ScriptError

/-- An installed hook. -/
structure Hook where
  mask : Mask
  /-- Steps between two count events. -/
  interval : Nat
  /-- Without a verdict no event is refused. -/
  verdict? : Option Verdict
  /-- Nothing is recorded. -/
  quiet : Bool
  seen : Nat
  /-- Steps since the last count event. -/
  elapsed : Nat
  /-- What is being called while the script carries out a step. -/
  callee? : Option String
  /-- The latest error is a refusal of the hook. -/
  refused : Bool

namespace Hook

/-- What the hook says of its event numbered `n`, if it refuses it. -/
def refusal? (hook : Hook) (n : Nat) (e : HookEvent) : Option ScriptError :=
  hook.verdict?.bind fun verdict => verdict n e

/-- The hook where something is being called, or nothing. -/
def calling (hook : Hook) (callee? : Option String) : Hook :=
  { hook with callee? := callee?, refused := false }

end Hook

inductive Library
  | coroutine | table | io | os | string | utf8 | math | package
deriving DecidableEq

namespace Library

/-- The libraries that are safe to open. -/
def all : List Library := [coroutine, table, io, os, string, utf8, math, package]

def name : Library → String
  | coroutine => "coroutine" | table => "table" | io => "io" | os => "os" | string => "string"
  | utf8 => "utf8" | math => "math" | package => "package"

def ofName? (s : String) : Option Library := all.find? fun l => l.name = s

end Library

structure Bridge where
  /-- The name under which the bridge is known to observers. -/
  name : String
  /-- The number of the interpreter. -/
  id : Nat
  heap : Heap
  mode : AccessMode
  hook? : Option Hook
  /-- Whether printed lines reach an observer. -/
  prints : Bool
  /-- Whether errors that escape reach an observer. -/
  reports : Bool
  /-- The tables of the libraries opened so far. -/
  libraries : List (Library × Nat)

structure World where
  host : Host
  bridge : Bridge

inductive Outcome (α : Type) where
  | ok (a : α) (w : World)
  | raised (e : Value) (w : World)
  | exhausted

def Act (α : Type) : Type := World → Outcome α

namespace Act

@[inline] protected def pure {α : Type} (a : α) : Act α := fun w => .ok a w

@[inline] protected def bind {α β : Type} (x : Act α) (f : α → Act β) : Act β := fun w =>
  match x w with
  | .ok a w => f a w
  | .raised e w => .raised e w
  | .exhausted => .exhausted

instance : Monad Act where
  pure := Act.pure
  bind := Act.bind

protected theorem id_map {α : Type} (x : Act α) : id <$> x = x := by
  funext w
  show (match x w with
    | .ok a w => Outcome.ok a w
    | .raised e w => .raised e w
    | .exhausted => .exhausted) = x w
  cases x w <;> rfl

protected theorem bind_assoc {α β γ : Type} (x : Act α) (f : α → Act β) (g : β → Act γ) :
    x >>= f >>= g = x >>= fun a => f a >>= g := by
  funext w
  show Act.bind (Act.bind x f) g w = Act.bind x (fun a => Act.bind (f a) g) w
  unfold Act.bind
  cases x w <;> rfl

theorem bind_of_ok {α β : Type} {x : Act α} {f : α → Act β} {a : α} {w w' : World}
    (hx : x w = .ok a w') : (x >>= f) w = f a w' := by
  show Act.bind x f w = f a w'
  rw [Act.bind, hx]

instance : LawfulMonad Act := .mk' Act Act.id_map (fun _ _ => rfl) Act.bind_assoc

instance {α : Type} : Inhabited (Act α) := ⟨fun _ => .exhausted⟩

/-- There were too many steps, or too many nested calls of a host. -/
def exhausted {α : Type} : Act α := fun _ => .exhausted

def raise {α : Type} (e : Value) : Act α := fun w => .raised e w

/-- Runs `x`, and gives its error as a value. What it did stays done. -/
def attempt {α : Type} (x : Act α) : Act (Except Value α) := fun w =>
  match x w with
  | .ok a w => .ok (.ok a) w
  | .raised e w => .ok (.error e) w
  | .exhausted => .exhausted

def host : Act Host := fun w => .ok w.host w

def bridge : Act Bridge := fun w => .ok w.bridge w

def heap : Act Heap := fun w => .ok w.bridge.heap w

def modifyHost (f : Host → Host) : Act Unit := fun w => .ok () { w with host := f w.host }

def modifyBridge (f : Bridge → Bridge) : Act Unit := fun w => .ok () { w with bridge := f w.bridge }

def modifyHeap (f : Heap → Heap) : Act Unit :=
  modifyBridge fun b => { b with heap := f b.heap }

/-- A step of the heap that gives something. -/
def onHeap {α : Type} (f : Heap → α × Heap) : Act α := fun ⟨host, b⟩ =>
  match b with
  | ⟨name, id, heap, mode, hook, prints, reports, libraries⟩ =>
    let (a, heap) := f heap
    .ok a ⟨host, ⟨name, id, heap, mode, hook, prints, reports, libraries⟩⟩

/-- A step of the bridge that gives something. -/
def onBridge {α : Type} (f : Bridge → α × Bridge) : Act α := fun w =>
  let (a, b) := f w.bridge
  .ok a { w with bridge := b }

/-- A step of the host that gives something. -/
def onHost {α : Type} (f : Host → α × Host) : Act α := fun ⟨host, b⟩ =>
  let (a, host) := f host
  .ok a ⟨host, b⟩

def record (e : Event) : Act Unit := modifyHost (·.record e)

/-- The traceback of an error that arises while a script runs. Its text says nothing
about where. -/
def traceback : String := "stack traceback:"

/-- A host error on its way into a script. -/
def throw {α : Type} (e : ScriptError) : Act α := do
  raise (← onHeap (·.newFault (e.withTraceback traceback)))

/-- Continues with the result of a host call, or raises its error. -/
def orThrow {α : Type} (x : Except ScriptError α) : Act α :=
  match x with
  | .ok a => pure a
  | .error e => throw e

def newTable (t : Table) : Act Value := return .table (← onHeap (·.newTable t))

def newFunction (f : Function) : Act Value := do
  let owner := (← bridge).id
  return .function ⟨owner, ← onHeap (·.newFunction f)⟩

/-- A host value for the script. -/
def encode (v : Variant) : Act (Except Refusal Value) := do
  let owner := (← bridge).id
  onHeap (Heap.encode owner v)

def encodeAll (vs : List Variant) : Act (Except Refusal (List Value)) := do
  let owner := (← bridge).id
  onHeap (Heap.encodeAll owner vs)

/-- A host value for the script; a refusal is raised. -/
def push (v : Variant) : Act Value := do
  orThrow ((← encode v).mapError Refusal.error)

/-- The host value of a script value, nil if there is none. -/
def decode (v : Value) : Act Variant := do
  let b ← bridge
  return b.heap.decode b.id v

def decodeAll (vs : List Value) : Act (List Variant) := do
  let b ← bridge
  return vs.map (b.heap.decode b.id)

end Act

end ScriptHost
