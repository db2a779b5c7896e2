import ScriptHost.Box.Typed
import ScriptHost.Host.Call
import ScriptHost.Proofs.Box.Dispatch

/-! Methods of host values: which there are, what each reads of its arguments, and what calls come
to. A name is either a method or no method for all purposes, and no property is hidden by one. -/

namespace ScriptHost

/-! ### Parameters -/

/-- What a method wants of one argument. -/
inductive Parameter
  | any
  | number
  | ofKind (kind : Kind)
  /-- A number that may be left out. -/
  | optionalNumber

namespace Parameter

/-- Whether an argument will do, or that there is none. -/
def admits : Parameter → Option Variant → Bool
  | any, arg => arg.isSome
  | number, arg => arg.any (·.number?.isSome)
  | ofKind kind, arg => arg.any (·.kind = kind)
  | optionalNumber, arg => arg.all (·.number?.isSome)

/-- Whether the arguments will do; there may be more of them. -/
def fit : List Parameter → List Variant → Bool
  | [], _ => true
  | p :: rest, args => p.admits args.head? && fit rest args.tail

end Parameter

/-- What the methods of each kind read of their arguments. -/
def Kind.parameters : Kind → String → List Parameter
  | vector2, "dot" | vector2, "cross" | vector2, "distance_to" | vector2, "is_equal_approx" =>
    [.ofKind .vector2]
  | vector2, "lerp" => [.ofKind .vector2, .number]
  | vector3, "dot" | vector3, "cross" | vector3, "distance_to" | vector3, "is_equal_approx" =>
    [.ofKind .vector3]
  | vector3, "lerp" => [.ofKind .vector3, .number]
  | color, "is_equal_approx" => [.ofKind .color]
  | color, "lerp" => [.ofKind .color, .number]
  | rect2, "has_point" => [.ofKind .vector2]
  | rect2, "intersects" | rect2, "encloses" | rect2, "merge" => [.ofKind .rect2]
  | rect2, "grow" => [.number]
  | plane, "distance_to" | plane, "is_point_over" | plane, "project" => [.ofKind .vector3]
  | plane, "has_point" => [.ofKind .vector3, .optionalNumber]
  | array, "has" | dictionary, "has" => [.any]
  | _, _ => []

/-! ### Reading arguments -/

section Reading

variable {α β : Type} {n i : Nat} {P Q : List Variant → Prop}

namespace Argument

/-- What comes to an end with the arguments of which `P` holds, and else finds fault with one of
them; it looks at the first `n` of them only. -/
structure Reads (n : Nat) (P : List Variant → Prop) (x : List Variant → Except CallError α) :
    Prop where
  ok_iff : ∀ args, (∃ a, x args = .ok a) ↔ P args
  fault : ∀ args m, x args ≠ .error (.invalidMethod m)
  take : ∀ args, x (args.take n) = x args

namespace Reads

theorem pure (a : α) : Reads n (fun _ => True) fun _ => .ok a where
  ok_iff _ := ⟨fun _ => trivial, fun _ => ⟨a, rfl⟩⟩
  fault _ _ := nofun
  take _ := rfl

theorem congr {x : List Variant → Except CallError α} (hx : Reads n P x)
    (h : ∀ args, P args ↔ Q args) : Reads n Q x where
  ok_iff args := (hx.ok_iff args).trans (h args)
  fault := hx.fault
  take := hx.take

theorem bind {x : List Variant → Except CallError α} {f : α → List Variant → Except CallError β}
    (hx : Reads n P x) (hf : ∀ a, Reads n Q (f a)) :
    Reads n (fun args => P args ∧ Q args) fun args => x args >>= fun a => f a args where
  ok_iff args := by
    rw [← hx.ok_iff]
    cases h : x args with
    | error e =>
      constructor
      · rintro ⟨b, hb⟩
        cases hb
      · rintro ⟨⟨a, ha⟩, -⟩
        cases ha
    | ok a => exact ((hf a).ok_iff args).trans ⟨fun hq => ⟨⟨a, rfl⟩, hq⟩, And.right⟩
  fault args m := by
    cases h : x args with
    | error e =>
      rintro ⟨⟩
      exact hx.fault args m h
    | ok a => exact (hf a).fault args m
  take args := by
    rw [hx.take]
    exact bind_congr fun a => (hf a).take args

theorem take_of_missing {args : List Variant} (hi : i < n) (h : args[i]? = none) :
    args.take n = args :=
  List.take_of_length_le (Nat.le_trans (List.getElem?_eq_none_iff.mp h) (Nat.le_of_lt hi))

theorem any (hi : i < n) :
    Reads n (fun args => Parameter.any.admits args[i]?) (Argument.any · i) where
  ok_iff args := by
    unfold Argument.any
    cases args[i]? <;> simp [Parameter.admits]
  fault args m := by
    unfold Argument.any
    split <;> exact nofun
  take args := by
    cases h : args[i]? with
    | none => rw [take_of_missing hi h]
    | some v => simp only [Argument.any, List.getElem?_take_of_lt hi, h]

theorem ofKind (hi : i < n) {p : Parameter} (expected : Kind) {read : Variant → Option α}
    (hp : ∀ arg, p.admits arg = arg.any fun v => (read v).isSome) :
    Reads n (fun args => p.admits args[i]?) (Argument.ofKind expected read · i) where
  ok_iff args := by
    rw [hp]
    unfold Argument.ofKind Argument.any
    cases args[i]? with
    | none => simp [Except.bind, Bind.bind]
    | some v => cases hr : read v <;> simp [Except.bind, Bind.bind, hr]
  fault args m := by
    unfold Argument.ofKind Argument.any
    cases args[i]? with
    | none => exact nofun
    | some v => cases hr : read v <;> simp [Except.bind, Bind.bind, hr]
  take args := by
    cases h : args[i]? with
    | none => rw [take_of_missing hi h]
    | some v => simp only [Argument.ofKind, Argument.any, List.getElem?_take_of_lt hi, h]

end Reads

end Argument

/-- The function reads an argument for the parameter. -/
def Parameter.IsReadBy (p : Parameter) (read : List Variant → Nat → Except CallError α) : Prop :=
  ∀ n i, i < n → Argument.Reads n (fun args => p.admits args[i]?) (read · i)

namespace Parameter

theorem any_isRead : any.IsReadBy Argument.any := fun _ _ hi => .any hi

theorem number_isRead : number.IsReadBy Argument.number := fun _ _ hi => .ofKind hi _ fun _ => rfl

theorem vector2_isRead : (ofKind .vector2).IsReadBy Argument.vector2 := fun _ _ hi =>
  .ofKind hi _ fun arg => congrArg arg.any (funext fun v => by cases v <;> rfl)

theorem vector3_isRead : (ofKind .vector3).IsReadBy Argument.vector3 := fun _ _ hi =>
  .ofKind hi _ fun arg => congrArg arg.any (funext fun v => by cases v <;> rfl)

theorem color_isRead : (ofKind .color).IsReadBy Argument.color := fun _ _ hi =>
  .ofKind hi _ fun arg => congrArg arg.any (funext fun v => by cases v <;> rfl)

theorem rect2_isRead : (ofKind .rect2).IsReadBy Argument.rect2 := fun _ _ hi =>
  .ofKind hi _ fun arg => congrArg arg.any (funext fun v => by cases v <;> rfl)

theorem optionalNumber_isRead (default : Float) : optionalNumber.IsReadBy fun args i =>
    if i < args.length then Argument.number args i else .ok default := by
  intro n i hi
  constructor
  · intro args
    by_cases given : i < args.length
    · simp only [if_pos given, (number_isRead n i hi).ok_iff, List.getElem?_eq_getElem given]
      rfl
    · simp [if_neg given, List.getElem?_eq_none (Nat.le_of_not_lt given), admits]
  · intro args m
    dsimp only
    split
    · exact (number_isRead n i hi).fault args m
    · exact nofun
  · intro args
    have long : i < (args.take n).length ↔ i < args.length := by
      rw [List.length_take]
      omega
    simp only [long, (number_isRead n i hi).take]

end Parameter

namespace Argument

/-- A function reads the arguments that these parameters are for. -/
def ReadsAll (ps : List Parameter) (x : List Variant → Except CallError α) : Prop :=
  Reads ps.length (fun args => Parameter.fit ps args) x

namespace ReadsAll

variable {γ : Type} {p q : Parameter} {read : List Variant → Nat → Except CallError α}
  {read' : List Variant → Nat → Except CallError β}

theorem none (a : α) : ReadsAll [] fun _ => .ok a :=
  (Reads.pure a).congr fun _ => by simp [Parameter.fit]

theorem one (hp : p.IsReadBy read) (g : α → γ) :
    ReadsAll [p] fun args => do return g (← read args 0) :=
  ((hp 1 0 Nat.one_pos).bind fun a => Reads.pure (g a)).congr fun args => by
    simp [Parameter.fit, List.head?_eq_getElem?]

theorem two (hp : p.IsReadBy read) (hq : q.IsReadBy read') (g : α → β → γ) :
    ReadsAll [p, q] fun args => do return g (← read args 0) (← read' args 1) :=
  ((hp 2 0 Nat.two_pos).bind fun a => (hq 2 1 Nat.one_lt_two).bind fun b =>
    Reads.pure (g a b)).congr fun args => by
      simp [Parameter.fit, List.head?_eq_getElem?]

/-- The order in which the arguments are read only tells which of two faults is found. -/
theorem twoBackwards (hp : p.IsReadBy read) (hq : q.IsReadBy read') (g : α → β → γ) :
    ReadsAll [p, q] fun args => do
      let b ← read' args 1
      return g (← read args 0) b :=
  ((hq 2 1 Nat.one_lt_two).bind fun b => (hp 2 0 Nat.two_pos).bind fun a =>
    Reads.pure (g a b)).congr fun args => by
      simp [Parameter.fit, List.head?_eq_getElem?, and_comm]

end ReadsAll

end Argument

end Reading

/-! ### Methods -/

open Argument (ReadsAll)
open Parameter (any_isRead number_isRead vector2_isRead vector3_isRead color_isRead rect2_isRead
  optionalNumber_isRead)

variable {m : String} {args : List Variant}

theorem Vector2.readsAll_call (v : Vector2) (hm : m ∈ Kind.vector2.methods) :
    ReadsAll (Kind.vector2.parameters m) (v.call m) := by
  simp only [Kind.methods, List.mem_cons, List.not_mem_nil, or_false] at hm
  rcases hm with rfl | rfl | rfl | rfl | rfl | rfl | rfl | rfl | rfl | rfl | rfl | rfl | rfl
  all_goals first
    | exact .none _
    | exact .one vector2_isRead _
    | exact .two vector2_isRead number_isRead _

theorem Vector3.readsAll_call (v : Vector3) (hm : m ∈ Kind.vector3.methods) :
    ReadsAll (Kind.vector3.parameters m) (v.call m) := by
  simp only [Kind.methods, List.mem_cons, List.not_mem_nil, or_false] at hm
  rcases hm with rfl | rfl | rfl | rfl | rfl | rfl | rfl | rfl | rfl | rfl | rfl | rfl
  all_goals first
    | exact .none _
    | exact .one vector3_isRead _
    | exact .two vector3_isRead number_isRead _

theorem Color.readsAll_call (c : Color) (hm : m ∈ Kind.color.methods) :
    ReadsAll (Kind.color.parameters m) (c.call m) := by
  simp only [Kind.methods, List.mem_cons, List.not_mem_nil, or_false] at hm
  rcases hm with rfl | rfl | rfl | rfl
  all_goals first
    | exact .none _
    | exact .one color_isRead _
    | exact .two color_isRead number_isRead _

theorem Rect2.readsAll_call (r : Rect2) (hm : m ∈ Kind.rect2.methods) :
    ReadsAll (Kind.rect2.parameters m) (r.call m) := by
  simp only [Kind.methods, List.mem_cons, List.not_mem_nil, or_false] at hm
  rcases hm with rfl | rfl | rfl | rfl | rfl | rfl | rfl | rfl | rfl
  all_goals first
    | exact .none _
    | exact .one vector2_isRead _
    | exact .one rect2_isRead _
    | exact .one number_isRead _

theorem Plane.call_hasPoint (p : Plane) : p.call "has_point" = fun args => do
    let tolerance ←
      (if 1 < args.length then Argument.number args 1 else .ok pointTolerance : Except _ _)
    return .bool (p.hasPoint (← Argument.vector3 args 0) tolerance) := by
  funext args
  show (if 1 < args.length then _ else _ : Except CallError Variant) = _
  split <;> rfl

theorem Plane.readsAll_call (p : Plane) (hm : m ∈ Kind.plane.methods) :
    ReadsAll (Kind.plane.parameters m) (p.call m) := by
  simp only [Kind.methods, List.mem_cons, List.not_mem_nil, or_false] at hm
  rcases hm with rfl | rfl | rfl | rfl | rfl
  case inr.inr.inl =>
    rw [call_hasPoint]
    exact .twoBackwards vector3_isRead (optionalNumber_isRead _) fun v t =>
      Variant.bool (p.hasPoint v t)
  all_goals first
    | exact .none _
    | exact .one vector3_isRead _

theorem readsAll_callContainer (size : Nat) (has : Variant → Bool) {k : Kind}
    (hk : k = .array ∨ k = .dictionary) (hm : m ∈ k.methods) :
    ReadsAll (k.parameters m) (callContainer size has m) := by
  rcases hk with rfl | rfl
  all_goals
    simp only [Kind.methods, List.mem_cons, List.not_mem_nil, or_false] at hm
    rcases hm with rfl | rfl | rfl
    · exact .none _
    · exact .none _
    · exact .one any_isRead _

variable {v : Variant}

namespace Variant

/-- A method comes to an end exactly if the arguments fit its parameters. -/
theorem readsAll_callPlain (hm : m ∈ v.kind.methods) (hs : v.kind ≠ .signal)
    (hc : v.kind ≠ .callable) : ReadsAll (v.kind.parameters m) (v.callPlain m) := by
  cases v with
  | vector2 v => exact v.readsAll_call hm
  | vector3 v => exact v.readsAll_call hm
  | color c => exact c.readsAll_call hm
  | rect2 r => exact r.readsAll_call hm
  | plane p => exact p.readsAll_call hm
  | array items => exact readsAll_callContainer _ _ (.inl rfl) hm
  | dictionary entries => exact readsAll_callContainer _ _ (.inr rfl) hm
  | signal s => exact absurd rfl hs
  | callable c => exact absurd rfl hc
  | _ => cases hm

/-- What is dispatched is in the table. -/
theorem callPlain_of_not_mem (hm : m ∉ v.kind.methods) (args : List Variant) :
    v.callPlain m args = .error (.invalidMethod m) := by
  cases v with
  | vector2 _ | vector3 _ | color _ | rect2 _ | plane _ | array _ | dictionary _ =>
    simp only [callPlain, Vector2.call, Vector3.call, Color.call, Rect2.call, Plane.call,
      callContainer]
    split <;> first | rfl | exact absurd (by simp [Kind.methods, kind]) hm
  | _ => rfl

theorem invoke_of_not_mem (hv : v.object? = none) (hm : m ∉ v.kind.methods) (r : Reentry)
    (ctx : Context) (args : List Variant) :
    v.invoke r ctx m args = pure (.error (.invalidMethod m)) := by
  cases v with
  | object o => cases hv
  | signal _ | callable _ =>
    simp only [invoke, Signal.call, Callable.call]
    split <;> first | rfl | exact absurd (by simp [Kind.methods, kind]) hm
  | _ => exact congrArg pure (callPlain_of_not_mem hm args)

theorem invoke_eq_callPlain (hv : v.object? = none) (hs : v.kind ≠ .signal)
    (hc : v.kind ≠ .callable) (r : Reentry) (ctx : Context) (args : List Variant) :
    v.invoke r ctx m args = pure (v.callPlain m args) := by
  cases v with
  | object o => cases hv
  | signal s => exact absurd rfl hs
  | callable c => exact absurd rfl hc
  | _ => rfl

theorem property?_of_mem (hm : m ∈ v.kind.methods) : v.property? m = none := by
  unfold property?
  split <;> first | rfl | simp [Kind.methods, kind] at hm

theorem get_of_property? {x : Variant} (hx : v.property? m = some x) : v.get (.string m) = x := by
  cases v with
  | array items => cases hx
  | dictionary entries => cases hx
  | _ => exact (congrArg ofOption hx :)

end Variant

theorem Host.mem_methods_iff (hv : v.object? = none) (h : Host) (m : String) :
    m ∈ v.kind.methods ↔ h.valueHasMethod v m = true := by
  cases v with
  | object o => cases hv
  | _ => exact List.contains_iff_mem.symm

/-- A name that is no method of a value is refused as such, without a call of the host. A name
that is one is never refused as such: the outcome depends on the first arguments alone, as many as
the method reads, and is a value exactly if they are of the kinds that it reads. No property has
the name of a method, so scripts read each property from a box. -/
theorem methods_and_dispatch_agree {v : Variant} (hv : v.object? = none) (h : Host) (m : String) :
    (h.valueHasMethod v m = false → ∀ r ctx args,
      v.invoke r ctx m args = pure (.error (.invalidMethod m))) ∧
    (h.valueHasMethod v m = true → v.kind ≠ .signal → v.kind ≠ .callable →
      let wanted := v.kind.parameters m
      ∀ args, ∃ result,
        (∀ m', result ≠ .error (.invalidMethod m')) ∧
        ((∃ x, result = .ok x) ↔ Parameter.fit wanted args = true) ∧
        ∀ r ctx, v.invoke r ctx m args = pure result ∧
          v.invoke r ctx m (args.take wanted.length) = pure result) ∧
    (h.valueHasMethod v m = true → v.property? m = none) ∧
    ∀ x, v.property? m = some x → ∀ b key (w : World),
      w.bridge.heap.decode w.bridge.id key = .string m →
        Box.readTyped b v key w = Act.push x w := by
  have listed := Host.mem_methods_iff hv h m
  refine ⟨fun hm r ctx args => ?_, fun hm hs hc args => ?_, fun hm => ?_,
    fun x hx b key w hk => ?_⟩
  · have hm' : m ∉ v.kind.methods := fun mem => by simp [listed.mp mem] at hm
    exact Variant.invoke_of_not_mem hv hm' r ctx args
  · have reads := Variant.readsAll_callPlain (listed.mpr hm) hs hc
    refine ⟨v.callPlain m args, reads.fault args, reads.ok_iff args, fun r ctx => ?_⟩
    have plain := Variant.invoke_eq_callPlain (m := m) hv hs hc r ctx
    exact ⟨plain args, (plain _).trans (congrArg pure (reads.take args))⟩
  · exact Variant.property?_of_mem (listed.mpr hm)
  · have hm : m ∉ v.kind.methods := fun mem => by simp [Variant.property?_of_mem mem] at hx
    rw [Box.readTyped_of_not_object hv, Act.bind_of_ok (Act.decode_eq key w), hk]
    show (if v.kind.methods.contains m = true then _ else _ : Act Value) w = _
    rw [if_neg (by simpa using hm), Variant.get_of_property? hx]

theorem methods_and_dispatch_agree_on_planes :
    let v : Variant := .plane ⟨⟨0, 1, 0⟩, 0⟩
    let point : Variant := .vector3 ⟨1, 2, 3⟩
    (∀ r ctx args, v.invoke r ctx "has" args = pure (.error (.invalidMethod "has"))) ∧
    (∃ x, ∀ r ctx, v.invoke r ctx "has_point" [point, .int 1, .nil] = pure (.ok x)) ∧
    (∃ e, ∀ r ctx, v.invoke r ctx "has_point" [point, .nil] = pure (.error e)) ∧
    v.property? "has_point" = none := by
  intro v point
  have agree (m : String) := methods_and_dispatch_agree (v := v) rfl default m
  obtain ⟨no_method, -⟩ := agree "has"
  obtain ⟨-, has_point, no_property, -⟩ := agree "has_point"
  refine ⟨no_method (by decide), ?_, ?_, no_property (by decide)⟩
  · obtain ⟨result, -, fit, run⟩ :=
      has_point (by decide) (by decide) (by decide) [point, .int 1, .nil]
    obtain ⟨x, rfl⟩ := fit.mpr (by decide)
    exact ⟨x, fun r ctx => (run r ctx).1⟩
  · obtain ⟨result, -, fit, run⟩ := has_point (by decide) (by decide) (by decide) [point, .nil]
    cases result with
    | ok x => exact absurd (fit.mp ⟨x, rfl⟩) (by decide)
    | error e => exact ⟨e, fun r ctx => (run r ctx).1⟩

end ScriptHost
