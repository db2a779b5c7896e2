import ScriptHost.Bridge
import ScriptHost.Proofs.Box.Handlers
import ScriptHost.Proofs.Codec.Agreement

/-! Operators of scripts on boxed values. Whichever operand the interpreter asks, the result
is that of the host on the decoded operands in the order of the source, and an operation that
the host does not define fails. -/

namespace ScriptHost

/-! ### Operands -/

/-- What an operator asks its operands for, and in which order. -/
inductive BinaryOperator.Asks (a b : Value) : BinaryOperator → Metamethod → Value → Value → Prop
  | add : Asks a b .add .add a b
  | sub : Asks a b .sub .sub a b
  | mul : Asks a b .mul .mul a b
  | div : Asks a b .div .div a b
  | lt : Asks a b .lt .lt a b
  | le : Asks a b .le .le a b
  | gt : Asks a b .gt .lt b a
  | ge : Asks a b .ge .le b a

theorem BinaryOperator.Asks.passes {a b x y : Value} {sign : BinaryOperator} {op : Metamethod}
    (asks : Asks a b sign op x y) :
    sign.isEquality = false ∧ sign.operands a b = (x, y) ∧ sign.metamethod = op := by
  cases asks <;> exact ⟨rfl, rfl, rfl⟩

namespace Metamethod

def isArithmetic : Metamethod → Bool
  | add | sub | mul | div => true
  | _ => false

def isOrder : Metamethod → Bool
  | lt | le => true
  | _ => false

/-- Whether host values may combine so. -/
def isCombination (op : Metamethod) : Bool := op.isArithmetic || op.isOrder

theorem eq_of_isCombination {op : Metamethod} (h : op.isCombination = true) :
    op = add ∨ op = sub ∨ op = mul ∨ op = div ∨ op = lt ∨ op = le := by
  cases op <;> simp [isCombination, isArithmetic, isOrder] at h ⊢

theorem isBinary_of_isCombination {op : Metamethod} (h : op.isCombination = true) :
    op.isBinary = true := by
  rcases eq_of_isCombination h with rfl | rfl | rfl | rfl | rfl | rfl <;> rfl

end Metamethod

/-- Vectors and colours combine, but vectors in space are not ordered. -/
def Variant.combines (op : Metamethod) : Variant → Bool
  | vector2 _ | color _ => op.isCombination
  | vector3 _ => op.isArithmetic
  | _ => false

namespace Heap

/-- The operand is a box of a value that combines. -/
def Combines (h : Heap) (op : Metamethod) (x : Value) : Prop :=
  ∃ id v, x = .box id ∧ h.boxed? id = some v ∧ v.combines op = true

/-- The operand has nothing to say about `op` but what its kind says: a box holds a value that
is no object, and a metatable lacks the field or, that of strings, holds what the library puts
there. -/
def Plain (h : Heap) (op : Metamethod) : Value → Prop
  | .box id => ∃ v, h.boxed? id = some v ∧ v.object? = none
  | .table id => h.metaField (.table id) op.name = .nil
  | .string bytes => h.metaField (.string bytes) op.name = .nil ∨
    ∃ f, h.metaField (.string bytes) op.name = .function f ∧
      h.functions[f.address]? = some (.builtin (.textArithmetic op))
  | _ => True

end Heap

theorem Variant.isCombination_of_combines {op : Metamethod} {v : Variant}
    (hv : v.combines op = true) : op.isCombination = true := by
  cases v with
  | vector2 _ | color _ => exact hv
  | vector3 _ => exact Bool.or_eq_true_iff.mpr (.inl hv)
  | _ => cases hv

theorem Variant.object?_of_combines {op : Metamethod} {v : Variant}
    (hv : v.combines op = true) : v.object? = none := by
  cases v <;> first | rfl | cases hv

theorem Variant.answers_eq {v : Variant} (hb : v.isBoxed = true) (hv : v.object? = none) :
    v.answers .eq = true := by
  cases v <;> first | rfl | (cases hv; done) | cases hb

/-- The host's result for the script, or an error where it has none. -/
def Variant.verdict (op : Metamethod) (x y : Variant) (e : ScriptError) : Act Value :=
  match evaluate? op x y with
  | some z => Act.push z
  | none => Act.throw e

theorem Variant.local_verdict (op : Metamethod) (x y : Variant) (e : ScriptError) :
    (verdict op x y e).Local := by
  unfold verdict
  split
  · exact .push _
  · exact .throw _

/-! ### Who is asked -/

namespace Heap

variable {h : Heap} {op : Metamethod} {x y : Value}

theorem answers_eq_combines {v : Variant} (hv : v.object? = none)
    (hop : op.isCombination = true) : v.answers op = v.combines op := by
  rcases Metamethod.eq_of_isCombination hop with rfl | rfl | rfl | rfl | rfl | rfl
  all_goals cases v <;> first | rfl | cases hv

theorem handler?_of_combines {id : Nat} {v : Variant} (hv : h.boxed? id = some v)
    (hc : v.combines op = true) : h.handler? op (.box id) = some (.box v) := by
  have answers := answers_eq_combines (Variant.object?_of_combines hc)
    (Variant.isCombination_of_combines hc)
  rw [handler?_box hv, answers, if_pos hc]

theorem not_combines (hb : ∀ id, x ≠ .box id) : ¬ h.Combines op x := by
  rintro ⟨id, _, he, _⟩
  exact hb id he

/-- Of the operands that are no boxes only strings may answer. -/
theorem box_or_handler?_of_plain (hi : op ≠ .index) (ht : op ≠ .toText) (hx : h.Plain op x) :
    (∃ id v, x = .box id ∧ h.boxed? id = some v ∧ v.object? = none) ∨
    ((∀ id, x ≠ .box id) ∧ h.handler? op x = none) ∨
    ∃ bytes f, x = .string bytes ∧ h.handler? op x = some (.value (.function f)) ∧
      h.functions[f.address]? = some (.builtin (.textArithmetic op)) := by
  cases x with
  | box id =>
    obtain ⟨v, hv, ho⟩ := hx
    exact .inl ⟨id, v, rfl, hv, ho⟩
  | table id =>
    refine .inr (.inl ⟨by simp, ?_⟩)
    dsimp only [handler?]
    rw [hx]
  | string bytes =>
    rcases hx with hn | ⟨f, hf, hb⟩
    · refine .inr (.inl ⟨by simp, ?_⟩)
      dsimp only [handler?]
      rw [hn]
    · refine .inr (.inr ⟨bytes, f, rfl, ?_, hb⟩)
      dsimp only [handler?]
      rw [hf]
  | fault n e => exact .inr (.inl ⟨by simp, if_neg ht⟩)
  | stream n => exact .inr (.inl ⟨by simp, if_neg hi⟩)
  | _ => exact .inr (.inl ⟨by simp, rfl⟩)

/-- An operand that combines answers itself. Of the others only strings may answer. -/
theorem handler?_of_plain (hop : op.isCombination = true) (hx : h.Plain op x) :
    (∃ id v, x = .box id ∧ h.boxed? id = some v ∧ v.combines op = true ∧
      h.handler? op x = some (.box v)) ∨
    (¬ h.Combines op x ∧ h.handler? op x = none) ∨
    ∃ bytes f, x = .string bytes ∧ h.handler? op x = some (.value (.function f)) ∧
      h.functions[f.address]? = some (.builtin (.textArithmetic op)) := by
  have apart : op ≠ .index ∧ op ≠ .toText := by
    constructor <;> (rintro rfl; cases hop)
  rcases box_or_handler?_of_plain apart.1 apart.2 hx with
    ⟨id, v, rfl, hv, ho⟩ | ⟨hb, handler⟩ | text
  · have handler := handler?_box hv op
    rw [answers_eq_combines ho hop] at handler
    cases hc : v.combines op with
    | true =>
      rw [hc] at handler
      exact .inl ⟨id, v, rfl, hv, hc, handler⟩
    | false =>
      rw [hc] at handler
      refine .inr (.inl ⟨?_, handler⟩)
      rintro ⟨id', v', he, hv', hc'⟩
      cases he
      rw [hv] at hv'
      cases hv'
      rw [hc] at hc'
      cases hc'
  · exact .inr (.inl ⟨not_combines hb, handler⟩)
  · exact .inr (.inr text)

theorem isBox_of_combines (hc : h.Combines op x ∨ h.Combines op y) :
    (∃ id, x = .box id) ∨ ∃ id, y = .box id := by
  rcases hc with ⟨id, _, rfl, _⟩ | ⟨id, _, rfl, _⟩
  · exact .inl ⟨id, rfl⟩
  · exact .inr ⟨id, rfl⟩

end Heap

/-! ### What is answered -/

section Answers

variable {op : Metamethod} {x y : Value} {w : World}

theorem Box.binaryTyped_of_eq (type : String) (x y : Value) (w : World) :
    binaryTyped .eq type x y w = .ok (.bool ((w.bridge.heap.decode w.bridge.id x).same
      (w.bridge.heap.decode w.bridge.id y))) w := by
  rw [binaryTyped, Act.bind_of_ok (Act.decode_eq x w), Act.bind_of_ok (Act.decode_eq y w)]
  rfl

theorem Box.binaryTyped_eq (hop : op ≠ .eq) (v : Variant) (x y : Value) (w : World) :
    binaryTyped op v.boxName x y w =
      Variant.verdict op (w.bridge.heap.decode w.bridge.id x) (w.bridge.heap.decode w.bridge.id y)
        (op.declined v.boxName) w := by
  rw [binaryTyped, Act.bind_of_ok (Act.decode_eq x w), Act.bind_of_ok (Act.decode_eq y w)]
  rw [if_neg hop]
  rfl

namespace Reentry

/-- A box that is asked, and is of no object, leaves the operation to the host. -/
theorem observed_handle_box {v : Variant} (r : Reentry) (hop : op.isBinary = true)
    (hv : v.object? = none) (x y : Value) (w : World) :
    (Variant.verdict op (w.bridge.heap.decode w.bridge.id x) (w.bridge.heap.decode w.bridge.id y)
      (op.declined v.boxName) w).Observed w.stop? (r.handle op (.box v) [x, y] w) := by
  have typed (r : Reentry) : r.handleBox op v [x, y] = Box.binaryTyped op v.boxName x y := by
    cases op with
    | index | newIndex | call | toText | len | unm | bnot | eq | gc | metatable => cases hop
    | _ => cases v <;> first | rfl | cases hv
  have different : op ≠ .eq := by
    rintro rfl
    cases hop
  refine Act.observed_outside (Variant.local_verdict _ _ _ _) _ fun w₁ h₁ => ?_
  dsimp only
  rw [typed, Box.binaryTyped_eq different, h₁.heap, h₁.id]
  exact .refl _

/-- A string on the left leaves the operation to the box on the right. -/
theorem observed_handle_text {n : Nat} {site : Site} {f : ScriptFunction} {id : Nat} {h : Handler}
    (hf : w.bridge.heap.functions[f.address]? = some (.builtin (.textArithmetic op)))
    (hh : w.bridge.heap.handler? op (.box id) = some h) (x : Value) {act : Act Value}
    (ha : act.Local)
    (settled : ∀ (r : Reentry) (w₁ : World), w.Shown w₁ →
      (act w₁).Observed w₁.stop? (r.handle op h [x, .box id] w₁)) :
    (act w).Observed w.stop?
      ((upTo (n + 1) site).handle op (.value (.function f)) [x, .box id] w) := by
  have asked (r : Reentry) {w₁ : World} (h₁ : w.Shown w₁) :
      r.textArithmetic op x (.box id) w₁ = r.handle op h [x, .box id] w₁ := by
    have handler : w₁.bridge.heap.handler? op (.box id) = some h := by rw [h₁.heap, hh]
    have spelt : (Value.box id).spelt? = none := rfl
    rw [textArithmetic, spelt]
    cases x.spelt? <;> dsimp only <;> rw [Act.bind_of_ok (Act.heap_eq _), handler]
  let args := [x, .box id]
  have outcome (r : Reentry) :
      first <$> r.runOutside (.builtin (.textArithmetic op)) args =
        r.textArithmetic op x (.box id) := by
    simp only [args, runOutside, runBuiltin, map_eq_pure_bind, bind_assoc, pure_bind, first,
      List.tail_cons, bind_pure]
  have called : (upTo (n + 1) site).handle op (.value (.function f)) args w =
      (first <$> applyValue (upTo n) site (.function f) args) w := rfl
  rw [called, Act.map_congr first (applyValue_outside (upTo n) site hf (by simp) args), outside,
    Act.map_outside, outcome]
  refine Act.observed_outside ha _ fun w₁ h₁ => ?_
  rw [asked _ h₁]
  exact settled _ w₁ h₁

/-- Where an operand combines, whoever is asked gives the verdict of the host. -/
theorem observed_handle {n : Nat} (site : Site) (hx : w.bridge.heap.Plain op x)
    (hc : w.bridge.heap.Combines op x ∨ w.bridge.heap.Combines op y)
    (hn : (∃ bytes, x = .string bytes) → 0 < n) : ∃ h e, e.IsAttempt ∧
      (w.bridge.heap.handler? op x <|> w.bridge.heap.handler? op y) = some h ∧
      (Variant.verdict op (w.bridge.heap.decode w.bridge.id x)
        (w.bridge.heap.decode w.bridge.id y) e w).Observed w.stop?
          ((upTo n site).handle op h [x, y] w) := by
  have hop : op.isCombination = true := by
    rcases hc with ⟨_, _, _, _, hc⟩ | ⟨_, _, _, _, hc⟩
    all_goals exact Variant.isCombination_of_combines hc
  have binary := Metamethod.isBinary_of_isCombination hop
  have attempt (v : Variant) : (op.declined v.boxName).IsAttempt :=
    Metamethod.isAttempt_declined (Metamethod.isOperator_of_isBinary binary) _
  -- The first operand answers if it combines. Else the second does, also where a string is asked
  -- first.
  rcases Heap.handler?_of_plain hop hx with
    ⟨id, v, rfl, hv, hvc, handler⟩ | ⟨silent, handler⟩ | ⟨bytes, f, rfl, handler, hf⟩
  · have typed := Variant.object?_of_combines hvc
    rw [handler]
    exact ⟨.box v, _, attempt v, rfl, observed_handle_box _ binary typed _ y w⟩
  · obtain ⟨id, v, rfl, hv, hvc⟩ := hc.resolve_left silent
    have typed := Variant.object?_of_combines hvc
    rw [handler, Heap.handler?_of_combines hv hvc]
    exact ⟨.box v, _, attempt v, rfl, observed_handle_box _ binary typed x _ w⟩
  · obtain ⟨id, v, rfl, hv, hvc⟩ := hc.resolve_left (Heap.not_combines (by simp))
    have typed := Variant.object?_of_combines hvc
    obtain ⟨n, rfl⟩ := Nat.exists_eq_add_one.mpr (hn ⟨bytes, rfl⟩)
    rw [handler]
    refine ⟨_, _, attempt v, rfl, observed_handle_text hf
      (Heap.handler?_of_combines hv hvc) _ (Variant.local_verdict _ _ _ _) fun r w₁ h₁ => ?_⟩
    rw [← h₁.heap, ← h₁.id]
    exact observed_handle_box _ binary typed _ _ w₁

end Reentry

end Answers

/-! ### Operators -/

section Operators

variable {op : Metamethod} {x y : Value} {w : World}

/-- Orders decide, so that nothing is lost where a script takes the result for a truth value. -/
theorem Variant.exists_bool_of_evaluate? (hop : op.isOrder = true) {x y z : Variant}
    (hz : evaluate? op x y = some z) : ∃ c, z = .bool c := by
  have orders : op = .lt ∨ op = .le := by
    cases op <;> simp [Metamethod.isOrder] at hop ⊢
  unfold evaluate? at hz
  rcases orders with rfl | rfl
  all_goals
    split at hz
    all_goals simp [Metamethod.arithmetic?, Metamethod.scaling?, Metamethod.comparison?] at hz
    all_goals exact ⟨_, hz.symm⟩

theorem Variant.map_verdict (hop : op.isOrder = true) (x y : Variant) (e : ScriptError) :
    (fun z => Value.bool z.truth) <$> verdict op x y e = verdict op x y e := by
  funext w
  unfold verdict
  cases hz : evaluate? op x y with
  | none => exact Act.bind_of_raised (Act.throw_eq e w)
  | some z =>
    obtain ⟨c, rfl⟩ := exists_bool_of_evaluate? hop hz
    have pushed : Act.push (.bool c) w = .ok (.bool c) w := rfl
    dsimp only
    rw [pushed]
    exact Act.bind_of_ok pushed

/-- A verdict has the shape that the operator gives to answers. -/
theorem BinaryOperator.Asks.shape_verdict {sign : BinaryOperator} {a b : Value}
    (asks : Asks a b sign op x y) (u v : Variant) (e : ScriptError) :
    sign.shape <$> Variant.verdict op u v e = Variant.verdict op u v e := by
  cases asks with
  | add | sub | mul | div => exact id_map _
  | lt | le | gt | ge => exact Variant.map_verdict rfl u v e

namespace Reentry

/-- An operator of whose operands one combines. -/
theorem observed_binary_of_combines {sign : BinaryOperator} {a b : Value} {n : Nat} (site : Site)
    (asks : BinaryOperator.Asks a b sign op x y) (hx : w.bridge.heap.Plain op x)
    (hc : w.bridge.heap.Combines op x ∨ w.bridge.heap.Combines op y)
    (hn : (∃ bytes, x = .string bytes) → 0 < n) (left? right? : Option Origin) :
    ∃ e, e.IsAttempt ∧ (Variant.verdict op (w.bridge.heap.decode w.bridge.id x)
      (w.bridge.heap.decode w.bridge.id y) e w).Observed w.stop?
        ((upTo n site).binary sign a b left? right? w) := by
  obtain ⟨handler, e, attempt, found, observed⟩ := observed_handle site hx hc hn
  obtain ⟨hs, he, rfl⟩ := asks.passes
  refine ⟨e, attempt, ?_⟩
  rw [(upTo n site).binary_of_handler hs he (Heap.isBox_of_combines hc) found,
    ← asks.shape_verdict]
  exact observed.map _

/-- Equality of two boxes, of which the first holds anything but an object. -/
theorem observed_equal (r : Reentry) {i : Nat} {u : Variant}
    (hi : w.bridge.heap.boxed? i = some u) (hu : u.object? = none) (j : Nat) :
    (Outcome.ok (i == j || u.same (w.bridge.heap.decode w.bridge.id (.box j))) w).Observed
      w.stop? (r.equal (.box i) (.box j) w) := by
  by_cases hij : i = j
  · subst hij
    rw [r.equal_same_box, beq_self_eq_true, Bool.true_or]
    exact .refl _
  · have handler : w.bridge.heap.handler? .eq (.box i) = some (.box u) := by
      rw [Heap.handler?_box hi, if_pos (Variant.answers_eq (Heap.isBoxed_of_boxed? hi) hu)]
    have typed (r : Reentry) : r.handleBox .eq u [.box i, .box j] =
        Box.binaryTyped .eq u.boxName (.box i) (.box j) := by
      cases u <;> first | rfl | cases hu
    rw [r.equal_of_handler hij handler, beq_eq_false_iff_ne.mpr hij, Bool.false_or]
    refine Outcome.Observed.map (x := pure (.bool (u.same _))) ?_ Value.truth
    refine Act.observed_outside (.pure _) _ fun w₁ h₁ => ?_
    dsimp only
    rw [typed, Box.binaryTyped_of_eq, h₁.heap, h₁.id, Heap.decode_box _ hi]
    exact .refl _

end Reentry

/-- For every operator that combines, and every two operands of which one combines, a script
gets what the host has for the decoded operands, and else an error. An operand that is asked
second need not be plain: it is asked only if it combines. A finalized box that is asked says
that it is finalized. Two boxes that are not of objects are equal if they are the same box, or
if what they hold is equal. -/
theorem operators_agree_with_evaluation (n : Nat) (site : Site) (w : World)
    (left? right? : Option Origin) :
    (∀ sign op a b x y, BinaryOperator.Asks a b sign op x y →
      w.bridge.heap.Plain op x →
      w.bridge.heap.Combines op x ∨ w.bridge.heap.Combines op y →
      -- A string on the left takes one nested call.
      ((∃ bytes, x = .string bytes) → 0 < n) →
      ∃ e, e.IsAttempt ∧ (Variant.verdict op (w.bridge.heap.decode w.bridge.id x)
        (w.bridge.heap.decode w.bridge.id y) e w).Observed w.stop?
          ((Reentry.upTo n site).binary sign a b left? right? w)) ∧
    (∀ sign op a b x y, BinaryOperator.Asks a b sign op x y → w.bridge.heap.Emptied x →
      (Act.throw InterpreterError.destructed.normalize w).Observed w.stop?
        ((Reentry.upTo n site).binary sign a b left? right? w)) ∧
    (∀ i j u, w.bridge.heap.boxed? i = some u → u.object? = none →
      (Outcome.ok (.bool (i == j || u.same (w.bridge.heap.decode w.bridge.id (.box j))))
        w).Observed w.stop?
          ((Reentry.upTo n site).binary .eq (.box i) (.box j) left? right? w)) ∧
    ∀ i j, w.bridge.heap.boxed? i = none →
      (i = j → (Reentry.upTo n site).binary .eq (.box i) (.box j) left? right? w =
        .ok (.bool true) w) ∧
      (i ≠ j → (Act.throw InterpreterError.destructed.normalize w).Observed w.stop?
        ((Reentry.upTo n site).binary .eq (.box i) (.box j) left? right? w)) := by
  let r := Reentry.upTo n site
  refine ⟨fun sign op a b x y asks hx hc hn => ?_, fun sign op a b x y asks hx => ?_,
    fun i j u hi hu => ?_, fun i j hi => ⟨?_, fun hij => ?_⟩⟩
  · exact Reentry.observed_binary_of_combines site asks hx hc hn left? right?
  · obtain ⟨hs, he, -⟩ := asks.passes
    exact r.observed_binary_of_emptied hs he hx left? right?
  · exact (r.observed_equal hi hu j).map (x := pure _) Value.bool
  · rintro rfl
    exact Act.bind_of_ok (r.equal_same_box i w)
  · exact Reentry.observed_map_throw (r.observed_equal_of_emptied hij hi) Value.bool

end Operators

/-- The world with the string library open and a vector in each of two boxes. -/
def World.vectors : World where
  host := default
  bridge :=
    let b := (Bridge.fresh "main" 1 .restrictive false).openLibrary .string
    let h := (b.heap.newBox ⟨.vector2 ⟨3, 4⟩, rfl⟩).2
    { b with heap := (h.newBox ⟨.vector2 ⟨3, 4⟩, rfl⟩).2 }

/-- A number scales a vector, the text of a number does not, and two boxes may be equal. Once
the first box is finalized, it has neither an order nor an equal. -/
theorem operators_agree_with_evaluation_vectors :
    let w := World.vectors
    let ended := w.withHeap (w.bridge.heap.emptyBox 0)
    let r := Reentry.upTo 1 .outermost
    (Act.push (.vector2 ((⟨3, 4⟩ : Vector2) * (3 : Int64).toFloat)) w).Observed none
      (r.binary .mul (.int 3) (.box 0) none none w) ∧
    (∃ e : ScriptError, e.IsAttempt ∧ (Act.throw e w).Observed none
      (r.binary .mul (.ofString "3") (.box 0) none none w)) ∧
    (Outcome.ok (.bool ((0 : Nat) == 1 || (Variant.vector2 ⟨3, 4⟩).same (.vector2 ⟨3, 4⟩)))
      w).Observed none (r.binary .eq (.box 0) (.box 1) none none w) ∧
    (Act.throw InterpreterError.destructed.normalize ended).Observed none
      (r.binary .gt (.box 1) (.box 0) none none ended) ∧
    (Act.throw InterpreterError.destructed.normalize ended).Observed none
      (r.binary .eq (.box 0) (.box 1) none none ended) := by
  intro w ended r
  obtain ⟨combined, -, equal, -⟩ := operators_agree_with_evaluation 1 .outermost w none none
  obtain ⟨-, emptied, -, unequal⟩ := operators_agree_with_evaluation 1 .outermost ended none none
  have vector : w.bridge.heap.Combines .mul (.box 0) := ⟨0, _, rfl, rfl, rfl⟩
  have text : w.bridge.heap.Plain .mul (.ofString "3") := .inr ⟨⟨1, 10⟩, rfl, rfl⟩
  refine ⟨?_, ?_, equal 0 1 _ rfl rfl, ?_, ?_⟩
  · have number : w.bridge.heap.Plain .mul (.int 3) := trivial
    obtain ⟨e, -, scaled⟩ := combined .mul .mul _ _ _ _ .mul number (.inr vector) (by simp)
    exact scaled
  · exact combined .mul .mul _ _ _ _ .mul text (.inr vector) fun _ => Nat.one_pos
  · exact emptied .gt .lt _ _ _ _ .gt ⟨0, rfl, rfl⟩
  · exact (unequal 0 1 rfl).2 Nat.zero_ne_one

/-- A string whose metatable a script has changed is asked in place of the vector, so that there
is an order which the host does not have, and a finalized box does not refuse as others do. -/
theorem order_without_evaluation :
    (let w := World.vectors
     let h := w.bridge.heap.set 4 (.ofString "__lt") (.function ⟨1, 2⟩)
     h.Combines .lt (.box 0) ∧
      Variant.evaluate? .lt (h.decode 1 (.ofString "x")) (h.decode 1 (.box 0)) = none ∧
      (Reentry.upTo 1 .outermost).binary .lt (.ofString "x") (.box 0) none none (w.withHeap h) =
        .ok (.bool true) (w.withHeap h)) ∧
    (let w := World.vectors
     let h := w.bridge.heap.emptyBox 0
     h.Combines .mul (.box 1) ∧
      ∃ e w', (Reentry.upTo 1 .outermost).binary .mul (.box 0) (.box 1) none none
        (w.withHeap h) = .raised (.fault 0 e) w' ∧ e.message = "userdata has been destructed") := by
  refine ⟨⟨⟨0, _, rfl, rfl, rfl⟩, rfl, ?_⟩, ⟨1, _, rfl, rfl, rfl⟩, ?_⟩
  · rfl
  · exact ⟨_, _, rfl, rfl⟩

end ScriptHost
