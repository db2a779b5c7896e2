import ScriptHost.Detached
import ScriptHost.Proofs.Session.Fetching

/-! Signals. An operation of a signal is one call of its owner, which gets the signal's name first;
there is none if the signal is null or the operation lacks its target. -/

namespace ScriptHost

/-! ### Operations -/

/-- What can be done with a signal. -/
inductive SignalOperation
  | emit | connect | disconnect | isConnected
deriving DecidableEq

namespace SignalOperation

def name : SignalOperation → String
  | emit => "emit"
  | connect => "connect"
  | disconnect => "disconnect"
  | isConnected => "is_connected"

/-- The method of the owner that does it. -/
def ownerMethod : SignalOperation → String
  | emit => "emit_signal"
  | op => op.name

/-- The arguments for the owner behind the name of the signal: all those of an emission, else the
first one, a callable. -/
def passed : SignalOperation → List Variant → Except CallError (List Variant)
  | emit, args => .ok args
  | _, .callable c :: _ => .ok [.callable c]
  | _, [] => .error (.tooFewArguments 1 0)
  | _, v :: _ => .error (.invalidArgument 1 .callable v.kind)

theorem passed_of_ne_emit {op : SignalOperation} (h : op ≠ emit) (args : List Variant) :
    op.passed args = (Argument.callable args 0).map fun c => [.callable c] := by
  cases args with
  | nil => cases op <;> first | rfl | exact absurd rfl h
  | cons v rest => cases op <;> first | exact absurd rfl h | cases v <;> rfl

end SignalOperation

/-! ### Calls -/

namespace Signal

variable (s : Signal) (op : SignalOperation)

theorem isNull_iff (h : Host) :
    h.isNull s = true ↔ s.name = "" ∨ h.hasMethod s.object "emit_signal" = false := by
  simp [Host.isNull]

/-- What an operation comes to where the host is `h`. -/
def operate (r : Reentry) (ctx : Context) (args : List Variant) (h : Host) :
    Act (Except CallError Variant) :=
  match op.passed args with
  | .error e => pure (.error e)
  | .ok passed =>
    if h.isNull s then pure (.error .instanceIsNull)
    else r.callObject ctx s.object op.ownerMethod (.string s.name :: passed)

section

variable {s op} {r : Reentry} {ctx : Context} {args passed : List Variant} {h : Host}

theorem operate_of_fault {fault : CallError} (hp : op.passed args = .error fault) :
    s.operate op r ctx args h = pure (.error fault) := by
  rw [operate, hp]

theorem operate_of_null (hp : op.passed args = .ok passed) (hn : h.isNull s = true) :
    s.operate op r ctx args h = pure (.error .instanceIsNull) := by
  rw [operate, hp]
  exact if_pos hn

theorem operate_of_live (hp : op.passed args = .ok passed) (hn : h.isNull s = false) :
    s.operate op r ctx args h =
      r.callObject ctx s.object op.ownerMethod (.string s.name :: passed) := by
  rw [operate, hp]
  exact if_neg (Bool.eq_false_iff.mp hn)

end

theorem forward_eq (r : Reentry) (ctx : Context) (method : String) (args : List Variant)
    (w : World) : s.forward r ctx method args w =
      (if w.host.isNull s then pure (.error .instanceIsNull)
        else r.callObject ctx s.object method (.string s.name :: args) : Act _) w := by
  rw [forward, Act.bind_of_ok (Act.host_eq w)]

theorem call_eq_operate (r : Reentry) (ctx : Context) (args : List Variant) (w : World) :
    s.call r ctx op.name args w = s.operate op r ctx args w.host w := by
  by_cases emission : op = .emit
  · subst emission
    exact s.forward_eq r ctx "emit_signal" args w
  rw [operate, SignalOperation.passed_of_ne_emit emission]
  cases op with
  | emit => exact absurd rfl emission
  | _ =>
    unfold Signal.call SignalOperation.name
    dsimp only
    cases Argument.callable args 0 with
    | error e => rfl
    | ok c => exact s.forward_eq r ctx _ [.callable c] w

/-- The function of a signal's box does what the signal does with the arguments of the call; a fault
is raised, and a result handed to the script. -/
theorem does_operate {b : Nat} {f : ScriptFunction} {w : World}
    (hb : w.bridge.heap.boxed? b = some (.signal s)) (hf : w.HasMethod b op.name f)
    (args : List Value) :
    let passed := (Operation.ownArgs b args).map (w.bridge.heap.decode w.bridge.id)
    w.Does (.function f) args fun r =>
      s.operate op r .attached passed w.host >>= Reentry.returned op.name := by
  intro passed
  refine (Target.Runs.outside (.method b op.name)).does (fun r => r.target_outside hf nofun args) ?_
  intro r w₁ h₁
  have null : w₁.host.isNull s = w.host.isNull s := by
    simp only [Host.isNull, Host.hasMethod, Host.definition_congr h₁.objects]
  have called : r.callHeld (some (.signal s)) op.name passed w₁ =
      (s.operate op r .attached passed w.host >>= Reentry.returned op.name) w₁ := by
    refine Act.bind_congr_left ((s.call_eq_operate op r .attached passed w₁).trans ?_)
    rw [operate, operate, null]
  rw [← called, ← hb, ← h₁.heap]
  show r.runMethod b op.name args w₁ = _
  rw [r.runMethod_eq_callHeld, h₁.heap, h₁.id]

end Signal

/-- A null signal has no name, or an owner that cannot emit. Its operations come to an error
without a call of anything. Those of any other signal come to what one call of the owner comes to,
whose first argument is the signal's name. An operation that needs a callable looks for it before
all else. Scripts get the same from the functions that they read from the signal's box, with errors
raised. -/
theorem null_signals_refuse (s : Signal) (op : SignalOperation) :
    (∀ h : Host,
      h.isNull s = true ↔ s.name = "" ∨ h.hasMethod s.object "emit_signal" = false) ∧
    (∀ (r : Reentry) (ctx : Context) (args : List Variant) (w : World),
      let outcome := (Variant.signal s).invoke r ctx op.name args w
      (∀ fault, op.passed args = .error fault → outcome = .ok (.error fault) w) ∧
      ∀ passed, op.passed args = .ok passed →
        (w.host.isNull s = true → outcome = .ok (.error .instanceIsNull) w) ∧
        (w.host.isNull s = false → outcome =
          r.callObject ctx s.object op.ownerMethod (.string s.name :: passed) w)) ∧
    (∀ (r : Reentry) (of? : Option Origin) (b : Nat) (key : Value) (f : ScriptFunction)
      (w w₁ : World), w.bridge.heap.boxed? b = some (.signal s) →
      w.bridge.heap.decode w.bridge.id key = .string op.name →
      r.index (.box b) key of? w = .ok (.function f) w₁ → w₁.HasMethod b op.name f) ∧
    ∀ (b : Nat) (f : ScriptFunction) (args : List Value) (w : World),
      w.bridge.heap.boxed? b = some (.signal s) → w.HasMethod b op.name f →
      let given := (Operation.ownArgs b args).map (w.bridge.heap.decode w.bridge.id)
      let does := w.Does (.function f) args
      (∀ fault, op.passed given = .error fault → does fun _ => Act.throw (fault.toScript op.name)) ∧
      ∀ passed, op.passed given = .ok passed →
        (w.host.isNull s = true → does fun _ =>
          Act.throw (CallError.instanceIsNull.toScript op.name)) ∧
        (w.host.isNull s = false → does fun r =>
          r.callObject .attached s.object op.ownerMethod (.string s.name :: passed) >>=
            Reentry.returned op.name) := by
  refine ⟨s.isNull_iff, fun r ctx args w => ?_, fun r of? b key f w w₁ hb hk hr => ?_,
    fun b f args w hb hf => ?_⟩
  · intro outcome
    have operated : outcome = s.operate op r ctx args w.host w := s.call_eq_operate op r ctx args w
    refine ⟨fun fault hp => ?_, fun passed hp => ⟨fun hn => ?_, fun hn => ?_⟩⟩
    · rw [operated, Signal.operate_of_fault hp]
      rfl
    · rw [operated, Signal.operate_of_null hp hn]
      rfl
    · rw [operated, Signal.operate_of_live hp hn]
  · have listed : w.host.valueHasMethod (.signal s) op.name = true := by cases op <;> rfl
    have silent : ¬ w.host.AnswersReads (.signal s) := by
      rintro ⟨o, signal, -⟩
      cases signal
    exact Reentry.hasMethod_of_index hb hk listed silent hr
  · intro given does
    have operated : does fun r =>
        s.operate op r .attached given w.host >>= Reentry.returned op.name :=
      s.does_operate op hb hf args
    refine ⟨fun fault hp => ?_, fun passed hp => ⟨fun hn => ?_, fun hn => ?_⟩⟩
    · simp only [Signal.operate_of_fault hp] at operated
      exact operated
    · simp only [Signal.operate_of_null hp hn] at operated
      exact operated
    · simpa only [Signal.operate_of_live hp hn] using operated

/-! ### An owner that can emit, and one that cannot -/

/-- A world with an object that answers all operations with their arguments, and one that has no
methods. Signals of both are in boxes 0 and 1, whose functions for connecting come last. -/
def World.signalling : World where
  host :=
    let methods := ["emit_signal", "connect", "disconnect", "is_connected"]
    ⟨[.new ⟨"C"⟩ (.full "Thing" [] false (methods.map (·, .echo)) none []),
      .new ⟨"Z"⟩ (.bare "Plain")], [], []⟩
  bridge :=
    let b := Bridge.fresh "main" 1 .restrictive false
    let h := (b.heap.newBox ⟨.signal ⟨⟨"C"⟩, "s"⟩, rfl⟩).2
    let h := (h.newBox ⟨.signal ⟨⟨"Z"⟩, "s"⟩, rfl⟩).2
    { b with heap := ((h.newFunction (.method 0 "connect")).2.newFunction (.method 1 "connect")).2 }

/-- Scripts connect one of their functions to the signals of both objects. -/
theorem null_signals_refuse_signalling :
    let w := World.signalling
    let live : Signal := ⟨⟨"C"⟩, "s"⟩
    let null : Signal := ⟨⟨"Z"⟩, "s"⟩
    let held : Value := .function ⟨1, 0⟩
    let target : Callable := .script ⟨1, 0⟩
    let r := Reentry.upTo 1 .outermost
    w.bridge.heap.boxed? 0 = some (.signal live) ∧ w.HasMethod 0 "connect" ⟨1, 8⟩ ∧
    w.bridge.heap.boxed? 1 = some (.signal null) ∧ w.HasMethod 1 "connect" ⟨1, 9⟩ ∧
    w.host.isNull live = false ∧ w.host.isNull null = true ∧
    (Variant.signal live).invoke r .detached "connect" [.nil] w =
      .ok (.error (.invalidArgument 1 .callable .nil)) w ∧
    (∃ f w₁, r.index (.box 1) (.ofString "connect") none w = .ok (.function f) w₁ ∧
      w₁.HasMethod 1 "connect" f) ∧
    (w.Does (.function ⟨1, 8⟩) [.box 0, held, .nil] fun r =>
      r.callObject .attached ⟨"C"⟩ "connect" [.string "s", .callable target] >>=
        Reentry.returned "connect") ∧
    (w.Does (.function ⟨1, 9⟩) [.box 1, held] fun _ =>
      Act.throw (.runtime "error calling 'connect': instance is null")) ∧
    (w.Does (.function ⟨1, 9⟩) [.box 1] fun _ =>
      Act.throw (.runtime "error calling 'connect': too few arguments: expected 1, got 0")) := by
  intro w live null held target r
  obtain ⟨-, host_live, -, script_live⟩ := null_signals_refuse live .connect
  obtain ⟨-, -, read_null, script_null⟩ := null_signals_refuse null .connect
  have fetched_live : w.HasMethod 0 "connect" ⟨1, 8⟩ := rfl
  have fetched_null : w.HasMethod 1 "connect" ⟨1, 9⟩ := rfl
  have read : r.index (.box 1) (.ofString "connect") none w = .ok (.function ⟨1, 10⟩)
      (w.withHeap (w.bridge.heap.newFunction (.method 1 "connect")).2) := rfl
  refine ⟨rfl, fetched_live, rfl, fetched_null, rfl, rfl, ?_, ?_, ?_, ?_, ?_⟩
  · exact (host_live r .detached [.nil] w).1 _ rfl
  · exact ⟨_, _, read, read_null r none 1 _ _ w _ rfl rfl read⟩
  · exact ((script_live 0 ⟨1, 8⟩ [.box 0, held, .nil] w rfl fetched_live).2 _ rfl).2 rfl
  · exact ((script_null 1 ⟨1, 9⟩ [.box 1, held] w rfl fetched_null).2 _ rfl).1 rfl
  · exact (script_null 1 ⟨1, 9⟩ [.box 1] w rfl fetched_null).1 _ rfl

/-- Without a callable it does not count whether the signal is null. -/
theorem null_signals_want_targets :
    let w := World.signalling
    let null : Signal := ⟨⟨"Z"⟩, "s"⟩
    w.host.isNull null = true ∧
    w.host.callMethod (.signal null) "connect" [] = some (.error (.tooFewArguments 1 0), w.host) :=
  ⟨rfl, rfl⟩

end ScriptHost
