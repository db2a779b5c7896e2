import ScriptHost.Proofs.Party.Calls

/-! Functions that are not written in the script, as one side of a session sees them. -/

namespace ScriptHost

open Act (Mirrors)

variable {p : Party} {α : Type} [Sided α] {r : Reentry}

/-! ### Constructors -/

namespace Arguments

theorem get_view (vs : List Variant) (i : Nat) :
    (ofList (vs.map (Variant.view p))).get i = ((ofList vs).get i).view p := by
  unfold get ofList
  rw [Variant.view_ofOption, ← List.map_take, List.getElem?_map]

theorem number_view (vs : List Variant) (i : Nat) :
    (ofList (vs.map (Variant.view p))).number i = (ofList vs).number i := by
  rw [number, get_view, Variant.number?_view, number]

theorem count_view (vs : List Variant) :
    (ofList (vs.map (Variant.view p))).count = (ofList vs).count := List.length_map _

end Arguments

theorem Structured.construct_view (s : Structured) (vs : List Variant) :
    s.construct (.ofList (vs.map (Variant.view p))) = s.construct (.ofList vs) := by
  cases s with
  | vector2 => simp only [construct, Vector2.construct, Arguments.number_view]
  | vector3 => simp only [construct, Vector3.construct, Arguments.number_view]
  | color => simp only [construct, Color.construct, Arguments.number_view, Arguments.count_view]
  | rect2 =>
    simp only [construct, Rect2.construct, Arguments.number_view, Arguments.count_view,
      Arguments.get_view]
    cases (Arguments.ofList vs).get 0 with
    | vector2 =>
      cases (Arguments.ofList vs).get 1 <;> rfl
    | _ => rfl
  | plane =>
    simp only [construct, Plane.construct, Arguments.number_view, Arguments.count_view,
      Arguments.get_view]
    cases (Arguments.ofList vs).get 0 with
    | vector3 =>
      cases (Arguments.ofList vs).get 1 with
      | vector3 => cases (Arguments.ofList vs).get 2 <;> rfl
      | _ => rfl
    | _ => rfl

theorem Structured.isPlain_construct (s : Structured) (args : Arguments) :
    (s.construct args).IsPlain = true := by cases s <;> rfl

namespace Reentry

/-! ### Arguments -/

/-- The name of a builtin function in an entry of a table. -/
def nameIn? (b : Bridge) (sought : Builtin) : Key × Value → Option String
  | (.string bytes, .function f) =>
    match b.heap.functions[f.address]? with
    | some (.builtin g) => if g = sought then some (Origin.nameOf bytes) else none
    | _ => none
  | _ => none

theorem nameIn?_view (b : Bridge) (sought : Builtin) (e : Key × Value) :
    nameIn? (b.view p) sought (Table.entryView p e) = nameIn? b sought e := by
  obtain ⟨k, v⟩ := e
  cases k with
  | string bytes =>
    cases v with
    | function f =>
      have function : (b.view p).heap.functions[f.address]? =
        (b.heap.functions[f.address]?).map (Function.view p) := Heap.function_view _ _
      simp only [nameIn?, Table.entryView, Key.view, Value.view_function, ScriptFunction.view, function]
      cases b.heap.functions[f.address]? with
      | none => rfl
      | some g => cases g <;> rfl
    | _ => rfl
  | _ => rfl

theorem libraryName?_eq (b : Bridge) (sought : Builtin) : libraryName? b sought =
    let isIn (id : Nat) := (b.heap.table id).entries.findSome? (nameIn? b sought)
    (b.libraries.findSome? fun e => (isIn e.2).map fun name => e.1.name ++ "." ++ name) <|>
      isIn Heap.globals :=
  rfl

theorem libraryName?_view (b : Bridge) (sought : Builtin) :
    libraryName? (b.view p) sought = libraryName? b sought := by
  have same (id : Nat) : ((b.view p).heap.table id).entries.findSome? (nameIn? (b.view p) sought) =
      (b.heap.table id).entries.findSome? (nameIn? b sought) := by
    show ((b.heap.view p).table id).entries.findSome? _ = _
    rw [Heap.table_view, Table.entries_view, List.findSome?_map]
    exact congrArg (List.findSome? · _) (funext (nameIn?_view b sought))
  rw [libraryName?_eq, libraryName?_eq]
  simp only [same]
  rfl

namespace Mirrors

theorem badArgument (f : Builtin) (n : Nat) (problem : String) :
    Act.Mirrors p (r.badArgument f n problem : Act α) (r.badArgument f n problem) := by
  unfold Reentry.badArgument
  dsimp only
  split
  · exact .ite (failAtCall _) (failAtCall _)
  · exact failAtCall _
  · refine .bind .bridge fun b _ => ?_
    dsimp only [Sided.view]
    rw [libraryName?_view]
    exact failAtCall _

theorem wrongType (f : Builtin) (n : Nat) (expected : String) (arg : Option Value) :
    Act.Mirrors p (r.wrongType f n expected arg : Act α)
      (r.wrongType f n expected (arg.map (Value.view p))) := by
  refine .bind .heap fun h _ => ?_
  have type : ((arg.map (Value.view p)).map (h.view p).argumentType).getD "no value" =
      (arg.map h.argumentType).getD "no value" := by
    cases arg with
    | none => rfl
    | some v => exact Heap.argumentType_view h v
  dsimp only [Sided.view]
  rw [type]
  exact badArgument _ _ _

/-! ### The base library -/

theorem printedText (hr : r.Mirrors p) (f v : Value) :
    Act.Mirrors p (r.printedText f v) (r.printedText (f.view p) (v.view p)) := by
  refine .bind (hr.guard (hr.call f [v])) fun result hres => .bind (.orThrow hres) fun w _ => ?_
  dsimp only [Sided.view]
  rw [Value.textual?_view, Value.hostType_view]
  cases w.textual? with
  | some bytes => exact .pure trivial
  | none => exact .throw _

theorem print (hr : r.Mirrors p) (args : List Value) :
    Act.Mirrors p (r.print args) (r.print (args.map (Value.view p))) := by
  refine .bind (hr.guard (hr.onGlobals fun _ hr' => hr'.global "tostring")) fun result hres =>
    .bind (.orThrow hres) fun v _ => ?_
  cases v with
  | function f =>
    refine .bind (.mapM fun v _ => hr.printedText (.function f) v) fun texts _ =>
      .bind .bridge fun b _ => ?_
    have same : (Sided.view p texts : List String) = texts := List.map_id _
    rw [same]
    exact .ite (.record _) (.pure trivial)
  | _ => exact .throw _

theorem protectedCall (hr : r.Mirrors p) (f : Value) (args : List Value) :
    Act.Mirrors p (r.protectedCall f args)
      (r.protectedCall (f.view p) (args.map (Value.view p))) := by
  refine .bind (hr.apply _ f args).attempt fun result _ => ?_
  cases result with
  | ok results => exact .pure fun _ _ => trivial
  | error e => exact .pure fun _ _ => trivial

theorem getMetatable (v : Value) :
    Act.Mirrors p (Reentry.getMetatable v) (Reentry.getMetatable (v.view p)) := by
  refine .bind .heap fun h _ => ?_
  have metatable : (((h.view p).meta? (v.view p)).map Value.table).getD .nil =
      (((h.meta? v).map Value.table).getD .nil).view p := by
    rw [Heap.meta?_view]
    cases h.meta? v <;> rfl
  dsimp only [Sided.view]
  rw [Heap.metaField_view]
  cases v with
  | box | fault => exact .pure trivial
  | _ =>
    generalize h.metaField _ "__metatable" = shown
    cases shown with
    | nil => exact .pureOf trivial metatable
    | _ => exact .pure trivial

/-- The metatable of a table is set, or taken away. -/
theorem setMeta (id : Nat) (meta? : Option Nat) (message : String) (h : Heap) :
    Act.Mirrors p
      (do
        if (h.metaField (.table id) "__metatable").isNil then
          Act.modifyHeap fun h => (h.setTable id { h.table id with meta? := meta? }).awaitEnd id
          return .table id
        else r.failAtCall message : Act Value)
      (do
        if ((h.view p).metaField (.table id) "__metatable").isNil then
          Act.modifyHeap fun h => (h.setTable id { h.table id with meta? := meta? }).awaitEnd id
          return .table id
        else r.failAtCall message) := by
  have field := Heap.metaField_view (p := p) h (.table id) "__metatable"
  refine .test ((congrArg Value.isNil field).trans (Value.isNil_view _)) ?_ (failAtCall _)
  refine .bind (.modifyHeap (fun h => ?_) fun h hh => ?_) fun _ _ => .pure trivial
  · rw [Heap.view_awaitEnd, Heap.view_setTable, Table.view_withMeta, ← Heap.table_view]
  · exact (hh.setTable id _).awaitEnd id

theorem setMetatable (args : List Value) :
    Act.Mirrors p (r.setMetatable args) (r.setMetatable (args.map (Value.view p))) := by
  have first (args : List Value) : Act.Mirrors p
      (r.wrongType .setMetatable 1 "table" args.head? : Act Value)
      (r.wrongType .setMetatable 1 "table" (args.map (Value.view p)).head?) := by
    rw [List.head?_map]
    exact wrongType _ _ _ _
  rcases args with _ | ⟨a, rest⟩
  · exact first []
  · have other := first (a :: rest)
    cases a with
    | table id =>
      rcases rest with _ | ⟨m, rest⟩
      · exact wrongType _ _ _ none
      · have bad := wrongType (p := p) (r := r) (α := Value) .setMetatable 2 "nil or table" (some m)
        refine .bind .heap fun h _ => ?_
        cases m with
        | nil => exact setMeta id none _ h
        | table m => exact setMeta id (some m) _ h
        | _ => exact bad
    | _ => exact other

/-- What is read as a number for an argument that is there. -/
theorem spelledArgument (f : Builtin) (n : Nat) (v : Value) : Act.Mirrors p
    (match v.spelt?, v.spelt?.map (Value.integer? ∘ Value.ofNumeral) with
      | _, some (some n) => return n
      | some _, _ => r.badArgument f n "number has no integer representation"
      | none, _ => r.wrongType f n "number" (some v) : Act Int64)
    (match (v.view p).spelt?, (v.view p).spelt?.map (Value.integer? ∘ Value.ofNumeral) with
      | _, some (some n) => return n
      | some _, _ => r.badArgument f n "number has no integer representation"
      | none, _ => r.wrongType f n "number" (some (v.view p))) := by
  rw [Value.spelt?_view]
  cases v.spelt? with
  | none => exact wrongType _ _ _ (some v)
  | some m =>
    dsimp only [Option.map_some, Function.comp]
    cases (Value.ofNumeral m).integer? with
    | none => exact badArgument _ _ _
    | some i => exact .pure trivial

theorem integerArgument (f : Builtin) (n : Nat) (default : Int64) (arg : Option Value) :
    Act.Mirrors p (r.integerArgument f n default arg)
      (r.integerArgument f n default (arg.map (Value.view p))) := by
  cases arg with
  | none => exact .pure trivial
  | some v =>
    have read := spelledArgument (p := p) (r := r) f n v
    cases v with
    | nil => exact .pure trivial
    | _ => exact read

theorem raiseError (args : List Value) :
    Act.Mirrors p (r.raiseError args) (r.raiseError (args.map (Value.view p))) := by
  have level := integerArgument (p := p) (r := r) .error 2 1 args[1]?
  rw [← List.getElem?_map] at level
  refine .bind level fun n _ => ?_
  dsimp only [Sided.view]
  rw [first_view]
  generalize Reentry.first args = v
  have raised := Act.Mirrors.raise (p := p) (α := List Value) v
  cases v with
  | string bytes => exact .ite (.raise _) (.raise _)
  | _ => exact raised

/-! ### Calls -/

/-- An operator that asks the second operand. -/
theorem bySecond (hr : r.Mirrors p) (op : Metamethod) (a b : Value) : Act.Mirrors p
    (do
      match b, (← Act.heap).handler? op b with
      | .string _, _ | _, none => r.failAtCall ("attempt to " ++ op.eventName ++ " a '" ++
        a.basicType ++ "' with a '" ++ b.basicType ++ "'")
      | _, some h => r.handle op h [a, b] : Act Value)
    (do
      match b.view p, (← Act.heap).handler? op (b.view p) with
      | .string _, _ | _, none => r.failAtCall ("attempt to " ++ op.eventName ++ " a '" ++
        (a.view p).basicType ++ "' with a '" ++ (b.view p).basicType ++ "'")
      | _, some h => r.handle op h [a.view p, b.view p]) := by
  refine .bind .heap fun h hh => ?_
  dsimp only [Sided.view]
  rw [Value.basicType_view, Value.basicType_view, Heap.handler?_view]
  cases hx : h.handler? op b with
  | none => cases b <;> exact failAtCall _
  | some x =>
    have answered := hr.handle op (hh.handler hx) [a, b]
    cases b with
    | string => exact failAtCall _
    | _ => exact answered

theorem textArithmetic (hr : r.Mirrors p) (op : Metamethod) (a b : Value) :
    Act.Mirrors p (r.textArithmetic op a b) (r.textArithmetic op (a.view p) (b.view p)) := by
  have asked := hr.bySecond op a b
  unfold Reentry.textArithmetic
  rw [Value.spelt?_view, Value.spelt?_view]
  cases a.spelt? with
  | none => exact asked
  | some m =>
    cases b.spelt? with
    | none => exact asked
    | some n =>
      dsimp only
      cases op.arithmetic m n with
      | error fault => exact fail _
      | ok x => exact .pureOf trivial (Value.view_ofNumeral x).symm

theorem single {x y : Act Value} (hx : Act.Mirrors p x y) :
    Act.Mirrors p (do return [← x]) (do return [← y]) :=
  .bind hx fun _ _ => .pure fun _ _ => trivial

theorem runBuiltin (hr : r.Mirrors p) (b : Builtin) (args : List Value) :
    Act.Mirrors p (r.runBuiltin b args) (r.runBuiltin b (args.map (Value.view p))) := by
  cases b with
  | print => exact .bind (hr.print args) fun _ _ => .pure nofun
  | error => exact raiseError args
  | setMetatable => exact single (setMetatable args)
  | textArithmetic op =>
    have operands := hr.textArithmetic op (Reentry.first args) (Reentry.first args.tail)
    rw [← first_view, ← first_view, List.map_tail] at operands
    exact single operands
  | createThread =>
    have refused : Act.Mirrors p
        (r.wrongType .createThread 1 "function" args.head? : Act (List Value))
        (r.wrongType .createThread 1 "function" (args.map (Value.view p)).head?) := by
      rw [List.head?_map]
      exact wrongType _ _ _ _
    cases args with
    | nil => exact refused
    | cons v rest =>
      cases v with
      | function f =>
        exact .bind (.onHeap fun h hh => ⟨h.newThread_view (.function f), trivial, hh.newThread _⟩)
          fun _ _ => .pure fun _ _ => trivial
      | _ => exact refused
  | rawEqual =>
    rcases args with _ | ⟨a, _ | ⟨b, rest⟩⟩
    · exact badArgument _ _ _
    · exact badArgument _ _ _
    · exact .pureOf (fun _ _ => trivial) (congrArg (fun b => [Value.bool b]) (Value.same_view a b))
  | toText =>
    cases args with
    | nil => exact badArgument _ _ _
    | cons v rest => exact .bind (hr.text v) fun _ _ => .pure fun _ _ => trivial
  | type =>
    cases args with
    | nil => exact badArgument _ _ _
    | cons v rest =>
      exact .pureOf (fun _ _ => trivial) (congrArg (fun t => [Value.ofString t]) (Value.basicType_view v))
  | protectedCall =>
    cases args with
    | nil => exact badArgument _ _ _
    | cons f rest => exact hr.protectedCall f rest
  | getMetatable =>
    cases args with
    | nil => exact badArgument _ _ _
    | cons v rest => exact single (getMetatable v)

theorem returned (method : String) {result : Except CallError Variant}
    (hres : Sided.Owned p result) :
    Act.Mirrors p (Reentry.returned method result)
      (Reentry.returned method (Sided.view p result)) := by
  cases result with
  | ok v => exact .bind (.orThrow (x := .ok v) hres) fun _ hv => single (.push hv)
  | error e => exact .bind (.throw (α := Variant) _) fun _ hv => single (.push hv)

theorem runMethod (hr : r.Mirrors p) (box : Nat) (name : String) (args : List Value) :
    Act.Mirrors p (r.runMethod box name args)
      (r.runMethod box name (args.map (Value.view p))) := by
  refine .bind .heap fun h hh => ?_
  dsimp only [Sided.view]
  rw [Heap.boxed?_view]
  cases hv : h.boxed? box with
  | none => exact .throw _
  | some v =>
    have rest (args : List Value) : Act.Mirrors p
        (do
          let args ← Act.decodeAll args
          Reentry.returned name (← v.invoke r .attached name args))
        (do
          let args ← Act.decodeAll (args.map (Value.view p))
          Reentry.returned name (← (v.view p).invoke r .attached name args)) :=
      .bind (.decodeAll args) fun _ ha =>
        .bind (Variant.mirrors_invoke hr _ (hh.of_boxed? hv) name ha) fun _ hres =>
          returned name hres
    cases args with
    | nil => exact rest []
    | cons a others =>
      have all := rest (a :: others)
      cases a with
      | box id =>
        show Act.Mirrors p (do
            let args ← Act.decodeAll (if id = box then others else .box id :: others)
            Reentry.returned name (← v.invoke r .attached name args))
          (do
            let args ← Act.decodeAll (if id = box then others.map (Value.view p)
              else .box id :: others.map (Value.view p))
            Reentry.returned name (← (v.view p).invoke r .attached name args))
        by_cases hb : id = box
        · rw [if_pos hb, if_pos hb]
          exact rest others
        · rw [if_neg hb, if_neg hb]
          exact all
      | _ => exact all

theorem runOutside (hr : r.Mirrors p) {f : Function} (hf : f.Owned p) (args : List Value) :
    Act.Mirrors p (r.runOutside f args) (r.runOutside (f.view p) (args.map (Value.view p))) := by
  cases f with
  | closure => exact .pure nofun
  | builtin b => exact hr.runBuiltin b args
  | constructor s =>
    refine .bind (.decodeAll args) fun vs _ => single ?_
    have made : s.construct (.ofList (Sided.view p vs)) = (s.construct (.ofList vs)).view p :=
      (s.construct_view vs).trans (Variant.view_of_isPlain (s.isPlain_construct _)).symm
    rw [made]
    exact .push (Variant.owned_of_isPlain (s.isPlain_construct _))
  | method box name => exact hr.runMethod box name args
  | factory o =>
    exact .bind (.decodeAll args) fun _ ha => .bind (hr.callObject _ hf "new" ha) fun _ hres =>
      returned "new" hres

theorem runBox (hr : r.Mirrors p) (v : Value) {x : Variant} (hx : x.Owned p) (args : List Value) :
    Act.Mirrors p (r.runBox v x args)
      (r.runBox (v.view p) (x.view p) (args.map (Value.view p))) := by
  have answered := single (hr.handleBox .call hx (v :: args))
  cases x with
  | callable c =>
    have owned := Variant.owned_callable.mp hx
    refine .bind (.decodeAll args) fun _ ha =>
      .bind (Callable.mirrors_invoke hr .attached c owned ha) fun _ hres => ?_
    rw [Callable.methodName?_view]
    exact returned _ hres
  | _ => exact answered

end Mirrors

end Reentry

end ScriptHost
