import ScriptHost.Bridge
import ScriptHost.Proofs.Box.Dispatch

/-! Callables that keep arguments. A call of one, however many bindings there are around it, is one
call of what stands at the bottom, with all arguments in order; and so is a call of its box. -/

namespace ScriptHost

/-! ### Bindings -/

/-- Arguments that are kept for every call, and where they go. -/
structure Binding where
  extra : List Variant
  placement : Placement

namespace Binding

/-- The arguments in front of those of a call, from the innermost binding to the outermost. -/
def front (bs : List Binding) : List Variant :=
  (bs.filter fun b => b.placement = .before).flatMap (·.extra)

/-- The arguments behind those of a call, from the outermost binding to the innermost. -/
def back (bs : List Binding) : List Variant :=
  (bs.reverse.filter fun b => b.placement = .after).flatMap (·.extra)

/-- An inner binding gets its arguments outside of all others. -/
theorem arrange_cons (b : Binding) (bs : List Binding) (args : List Variant) :
    Callable.arrange b.extra b.placement (front bs ++ args ++ back bs) =
      front (b :: bs) ++ args ++ back (b :: bs) := by
  obtain ⟨extra, placement⟩ := b
  cases placement <;> simp [Callable.arrange, front, back, List.filter_append]

end Binding

open Binding (front back)

namespace Callable

/-- The callable with bindings around it, the innermost first. -/
def wrap (f : Callable) : List Binding → Callable
  | [] => f
  | b :: rest => (f.bind b.extra b.placement).wrap rest

variable (f : Callable) (bs : List Binding)

theorem invoke_wrap (r : Reentry) (ctx : Context) (args : List Variant) :
    (f.wrap bs).invoke r ctx args = f.invoke r ctx (front bs ++ args ++ back bs) := by
  induction bs generalizing f with
  | nil => simp [wrap, front, back]
  | cons b rest ih => rw [wrap, ih, bind, invoke, Binding.arrange_cons]

theorem isValid_wrap (h : Host) : h.isValid (f.wrap bs) = h.isValid f := by
  induction bs generalizing f with
  | nil => rfl
  | cons b rest ih => exact ih _

theorem methodName?_wrap : (f.wrap bs).methodName? = f.methodName? := by
  induction bs generalizing f with
  | nil => rfl
  | cons b rest ih => exact ih _

theorem object?_wrap : (f.wrap bs).object? = f.object? := by
  induction bs generalizing f with
  | nil => rfl
  | cons b rest ih => exact ih _

/-! ### Calls by scripts -/

/-- What a script gets for a call of the callable with host values: the result as a script value, a
script error as it is, and any other fault as an error of the running script. -/
def serve (r : Reentry) (args : List Variant) : Act (List Value) := do
  match ← f.invoke r .attached args with
  | .ok v => return [← Act.push v]
  | .error (.script e) => Act.throw e
  | .error fault =>
    let name := f.methodName?.getD Reentry.namelessCallable
    Act.throw (.runtime ("error calling '" ++ name ++ "': " ++ fault.message))

/-- The call of a box is a call of what it holds, with the arguments as host values. -/
theorem runBox_eq_serve (r : Reentry) (box : Value) (args : List Value) (w : World) :
    r.runBox box (.callable f) args w =
      f.serve r (args.map (w.bridge.heap.decode w.bridge.id)) w := by
  rw [Reentry.runBox, Act.bind_of_ok (Act.decodeAll_eq args w), serve]
  refine congrFun (bind_congr fun result => ?_) w
  cases result with
  | ok v => rfl
  | error fault => cases fault <;> rfl

theorem serve_wrap (r : Reentry) (args : List Variant) :
    (f.wrap bs).serve r args = f.serve r (front bs ++ args ++ back bs) := by
  rw [serve, serve, invoke_wrap, methodName?_wrap]

end Callable

namespace Reentry

variable {w : World} {id : Nat} {c : Callable}

/-- A box of a callable is called itself. -/
theorem target_callable (r : Reentry) (hc : w.bridge.heap.boxed? id = some (.callable c))
    (args : List Value) :
    r.target (.box id) args w = .ok (.box (.box id) (.callable c), args) w := by
  have found : w.bridge.heap.target stackLimit (.box id) args =
      .ok (.box (.box id) (.callable c), args) := by
    show w.bridge.heap.target (stackLimit - 1 + 1) (.box id) args = _
    have answers : (Variant.callable c).answers .call = true := rfl
    rw [Heap.target, Heap.handler?_box hc, if_pos answers]
    simp
  rw [target, Act.bind_of_ok (Act.heap_eq _), found]
  rfl

end Reentry

/-- Callables with bindings are flat. A call is one call of what stands at the bottom, with the
arguments that are kept around those of the call; and so it is when a script calls the box, from
any place. -/
theorem bound_callables_flatten (f : Callable) (bs : List Binding) :
    (∀ (r : Reentry) (ctx : Context) (args : List Variant),
      (f.wrap bs).invoke r ctx args = f.invoke r ctx (front bs ++ args ++ back bs)) ∧
    (∀ h : Host, h.isValid (f.wrap bs) = h.isValid f) ∧
    (f.wrap bs).methodName? = f.methodName? ∧ (f.wrap bs).object? = f.object? ∧
    ∀ (w : World) (id : Nat) (args : List Value),
      w.bridge.heap.boxed? id = some (.callable (f.wrap bs)) →
      let passed := front bs ++ args.map (w.bridge.heap.decode w.bridge.id) ++ back bs
      w.Does (.box id) args fun r => f.serve r passed := by
  refine ⟨f.invoke_wrap bs, f.isValid_wrap bs, f.methodName?_wrap bs, f.object?_wrap bs, ?_⟩
  intro w id args hc passed
  refine (Target.Runs.box (.box id) (.callable (f.wrap bs))).does
    (fun r => r.target_callable hc args) fun r w₁ h₁ => ?_
  rw [Callable.runBox_eq_serve, Callable.serve_wrap, h₁.heap, h₁.id]

/-! ### A function with three bindings -/

/-- Two values in front of those of a call, and one behind them. -/
def Binding.three : List Binding := [⟨[.int 1], .before⟩, ⟨[.int 2], .after⟩, ⟨[.int 3], .before⟩]

/-- A world with a host function, which is in a box with three bindings. -/
def World.bound (behaviour : Behaviour) : World where
  host := ⟨[], [⟨⟨"n", "n"⟩, behaviour⟩], []⟩
  bridge :=
    let b := Bridge.fresh "main" 1 .restrictive false
    let f := Callable.wrap (.native ⟨"n", "n"⟩) Binding.three
    { b with heap := (b.heap.newBox ⟨.callable f, rfl⟩).2 }

theorem bound_callables_flatten_three :
    let f : Callable := .native ⟨"n", "n"⟩
    let w := World.bound .echo
    w.bridge.heap.boxed? 0 = some (.callable (f.wrap Binding.three)) ∧
      w.Does (.box 0) [.nil] fun r => f.serve r [.int 1, .int 3, .nil, .int 2] := by
  intro f w
  have boxed : w.bridge.heap.boxed? 0 = some (.callable (f.wrap Binding.three)) := rfl
  obtain ⟨-, -, -, -, flat⟩ := bound_callables_flatten f Binding.three
  exact ⟨boxed, flat w 0 [.nil] boxed⟩

/-- A script error that the host call gives is raised with its own kind. -/
theorem bound_callables_raise_other_errors :
    let w := World.bound (.fail (.script ⟨.conversion, "no way", none⟩))
    (∃ w', (Callable.native ⟨"n", "n"⟩).invoke (Reentry.upTo 1 .outermost) .attached
      [.int 1, .int 3, .int 2] w = .ok (.error (.script ⟨.conversion, "no way", none⟩)) w') ∧
    ∃ id e w', Reentry.applyValue (Reentry.upTo 1) .outermost (.box 0) [] w =
      .raised (.fault id e) w' ∧ e.kind = .conversion :=
  ⟨⟨_, rfl⟩, 0, ⟨.conversion, "no way", some Act.traceback⟩, _, rfl, rfl⟩

end ScriptHost
