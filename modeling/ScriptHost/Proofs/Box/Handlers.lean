import ScriptHost.Proofs.Box.Dispatch
import ScriptHost.Proofs.Fault.Layers

/-! Operators with a box among the operands. Of itself such an operator does nothing: the operand
passed first is asked for a handler, then the other, and what the handler found says is the
answer. A finalized box that is asked says that it is finalized. -/

namespace ScriptHost

/-! ### Operators and operands -/

namespace BinaryOperator

def isEquality : BinaryOperator → Bool
  | eq | ne => true
  | _ => false

/-- The operands in the order in which they are passed. -/
def operands (sign : BinaryOperator) (a b : Value) : Value × Value :=
  match sign with
  | gt | ge => (b, a)
  | _ => (a, b)

/-- What a script gets of an answer: orders give truth values. -/
def shape (sign : BinaryOperator) (v : Value) : Value :=
  match sign with
  | lt | le | gt | ge => .bool v.truth
  | _ => v

end BinaryOperator

namespace Metamethod

/-- Whether it takes two operands, and is not equality. -/
def isBinary (op : Metamethod) : Bool := binary.contains op || [lt, le].contains op

/-- Whether it belongs to an operator, or to calls. -/
def isOperator (op : Metamethod) : Bool := op.isBinary || [unm, bnot, len, call].contains op

theorem isOperator_of_isBinary {op : Metamethod} (hop : op.isBinary = true) :
    op.isOperator = true := Bool.or_eq_true_iff.mpr (.inl hop)

end Metamethod

theorem BinaryOperator.isBinary_metamethod {sign : BinaryOperator}
    (hs : sign.isEquality = false) : sign.metamethod.isBinary = true := by
  cases sign <;> first | rfl | cases hs

/-! ### Refusals -/

/-- The first words of a text stay in front when a traceback is cut off. -/
theorem ScriptError.prefix_ofText {words text : String} (hw : words.toList <+: text.toList)
    (hn : '\n' ∉ words.toList) (kind : ErrorKind) :
    words.toList <+: (ofText kind text).message.toList := by
  obtain ⟨rest, hr⟩ := hw
  have cut := Text.cutAtMark_append hn tracebackHeading.toList rest
  rw [hr] at cut
  unfold ofText
  rw [cut]
  cases Text.cutAtMark ('\n' :: tracebackHeading.toList) rest with
  | none => exact ⟨rest, hr⟩
  | some parts => simp

/-- A runtime error that begins as those of the interpreter do. -/
def ScriptError.IsAttempt (e : ScriptError) : Prop :=
  e.kind = .runtime ∧ "attempt to".toList <+: e.message.toList

namespace Metamethod

/-- The error of an operation that the type does not declare. -/
def declined (op : Metamethod) (type : String) : ScriptError := .ofText .runtime (op.refusal type)

theorem isAttempt_declined {op : Metamethod} (hop : op.isOperator = true) (type : String) :
    (op.declined type).IsAttempt := by
  have framed {before after : String} (hb : "attempt to".toList <+: before.toList) :
      "attempt to".toList <+: (before ++ type ++ after).toList := by
    simp only [String.toList_append]
    exact (hb.trans (List.prefix_append _ _)).trans (List.prefix_append _ _)
  have arithmetic := @framed "attempt to perform arithmetic on a " " value" (by simp)
  have bitwise := @framed "attempt to perform bitwise operation on a " " value" (by simp)
  have concatenate := @framed "attempt to concatenate a " " value" (by simp)
  have order := @framed "attempt to compare two " " values" (by simp)
  have length := @framed "attempt to get length of a " " value" (by simp)
  have called := @framed "attempt to call a " " value" (by simp)
  have begins : "attempt to".toList <+: (op.refusal type).toList := by
    cases op with
    | index | newIndex | toText | eq | gc | metatable => cases hop
    | add | sub | mul | div | idiv | mod | pow | unm => exact arithmetic
    | band | bor | bxor | bnot | shl | shr => exact bitwise
    | concat => exact concatenate
    | lt | le => exact order
    | len => exact length
    | call => exact called
  refine ⟨?_, ScriptError.prefix_ofText begins (by simp) .runtime⟩
  unfold declined ScriptError.ofText
  split <;> rfl

end Metamethod

/-! ### Boxes among the operands -/

/-- A box is neither a number nor a text: what both operands would have to be, one is not. -/
theorem Value.not_both_of_box {α : Type} {f : Value → Option α} {x y : Value} {m n : α}
    (hf : ∀ id, f (.box id) = none) (hb : (∃ id, x = .box id) ∨ ∃ id, y = .box id)
    (hm : f x = some m) (hn : f y = some n) : False := by
  rcases hb with ⟨id, rfl⟩ | ⟨id, rfl⟩
  · rw [hf] at hm
    cases hm
  · rw [hf] at hn
    cases hn

namespace Heap

/-- The value is a finalized box. -/
def Emptied (h : Heap) (x : Value) : Prop := ∃ id, x = .box id ∧ h.boxed? id = none

theorem handler?_of_emptied {h : Heap} {op : Metamethod} {x : Value} (hx : h.Emptied x)
    (ends : ¬ (op = .gc ∨ op = .metatable)) : h.handler? op x = some .emptied := by
  obtain ⟨id, rfl, hv⟩ := hx
  dsimp only [handler?]
  rw [hv, if_neg ends]

end Heap

namespace Reentry

variable {op : Metamethod} {x y : Value} {w : World} {h : Handler}

/-! ### Operators by handlers -/

theorem handlerOf_eq (hh : (w.bridge.heap.handler? op x <|> w.bridge.heap.handler? op y) = some h) :
    handlerOf op x y w = .ok (some h) w := by
  rw [handlerOf, Act.bind_of_ok (Act.heap_eq _), hh]
  rfl

theorem arithmetic_of_handler (r : Reentry) (hb : (∃ id, x = .box id) ∨ ∃ id, y = .box id)
    (hh : (w.bridge.heap.handler? op x <|> w.bridge.heap.handler? op y) = some h)
    (left? right? : Option Origin) :
    r.arithmetic op x y left? right? w = r.handle op h [x, y] w := by
  unfold arithmetic
  cases hm : x.numeral? <;> cases hn : y.numeral?
  case some.some => exact (Value.not_both_of_box (fun _ => rfl) hb hm hn).elim
  all_goals exact Act.bind_of_ok (handlerOf_eq hh)

theorem bitwise_of_handler (r : Reentry) (hb : (∃ id, x = .box id) ∨ ∃ id, y = .box id)
    (hh : (w.bridge.heap.handler? op x <|> w.bridge.heap.handler? op y) = some h)
    (left? right? : Option Origin) :
    r.bitwise op x y left? right? w = r.handle op h [x, y] w := by
  unfold bitwise
  cases hm : x.numeral? <;> cases hn : y.numeral?
  case some.some => exact (Value.not_both_of_box (fun _ => rfl) hb hm hn).elim
  all_goals exact Act.bind_of_ok (handlerOf_eq hh)

theorem concat_of_handler (r : Reentry) (hb : (∃ id, x = .box id) ∨ ∃ id, y = .box id)
    (hh : (w.bridge.heap.handler? .concat x <|> w.bridge.heap.handler? .concat y) = some h)
    (left? right? : Option Origin) :
    r.concat x y left? right? w = r.handle .concat h [x, y] w := by
  unfold concat
  cases hm : x.textual? <;> cases hn : y.textual?
  case some.some => exact (Value.not_both_of_box (fun _ => rfl) hb hm hn).elim
  all_goals exact Act.bind_of_ok (handlerOf_eq hh)

theorem compare_of_handler (r : Reentry) (hb : (∃ id, x = .box id) ∨ ∃ id, y = .box id)
    (hh : (w.bridge.heap.handler? op x <|> w.bridge.heap.handler? op y) = some h) :
    r.compare op x y w = (Value.truth <$> r.handle op h [x, y]) w := by
  have asked : r.compare op x y = r.compareByHandler op x y := by
    rcases hb with ⟨id, rfl⟩ | ⟨id, rfl⟩
    · rfl
    · cases x <;> rfl
  rw [asked, compareByHandler, Act.bind_of_ok (handlerOf_eq hh), map_eq_pure_bind]

/-- Of two boxes that are not the same the first says whether they are equal. -/
theorem equal_of_handler (r : Reentry) {i j : Nat} (hij : i ≠ j)
    (hh : w.bridge.heap.handler? .eq (.box i) = some h) :
    r.equal (.box i) (.box j) w = (Value.truth <$> r.handle .eq h [.box i, .box j]) w := by
  have apart : ¬ (Value.box i).same (.box j) = true := fun same =>
    hij (Value.box.inj (eq_of_beq (a := Value.box i) same))
  have found : handlerOf .eq (.box i) (.box j) w = .ok (some h) w :=
    handlerOf_eq (by rw [hh]; rfl)
  rw [equal, if_neg apart, if_pos ⟨rfl, .inr rfl⟩, Act.bind_of_ok found, map_eq_pure_bind]

theorem equal_same_box (r : Reentry) (i : Nat) (w : World) :
    r.equal (.box i) (.box i) w = .ok true w := by
  have same : (Value.box i).same (.box i) = true := beq_self_eq_true (Value.box i)
  rw [equal, if_pos same]
  rfl

/-- On a box every operator but equality is what its handler says. -/
theorem binary_of_handler {sign : BinaryOperator} {a b : Value} (r : Reentry)
    (hs : sign.isEquality = false) (he : sign.operands a b = (x, y))
    (hb : (∃ id, x = .box id) ∨ ∃ id, y = .box id)
    (hh : (w.bridge.heap.handler? sign.metamethod x <|>
      w.bridge.heap.handler? sign.metamethod y) = some h) (left? right? : Option Origin) :
    r.binary sign a b left? right? w =
      (sign.shape <$> r.handle sign.metamethod h [x, y]) w := by
  -- Orders take the truth of the answer, in whichever direction they are written.
  have ordered {op : Metamethod}
      (hh : (w.bridge.heap.handler? op x <|> w.bridge.heap.handler? op y) = some h) :
      (Value.bool <$> r.compare op x y) w =
        ((fun v => Value.bool v.truth) <$> r.handle op h [x, y]) w := by
    rw [Act.map_congr Value.bool (compare_of_handler r hb hh), ← comp_map]
    rfl
  cases sign with
  | eq | ne => cases hs
  | lt | le | gt | ge =>
    cases he
    exact ordered hh
  | concat =>
    cases he
    exact (concat_of_handler r hb hh left? right?).trans (congrFun (id_map _).symm w)
  | band | bor | bxor | shl | shr =>
    cases he
    exact (bitwise_of_handler r hb hh left? right?).trans (congrFun (id_map _).symm w)
  | _ =>
    cases he
    exact (arithmetic_of_handler r hb hh left? right?).trans (congrFun (id_map _).symm w)

/-- An error stays an error, whatever is made of the answers. -/
theorem observed_map_throw {α β : Type} {e : ScriptError} {act : Act α} {stop? : Option Verdict}
    (ha : (Act.throw e w).Observed stop? (act w)) (f : α → β) :
    (Act.throw e w).Observed stop? ((f <$> act) w) := by
  have raised : (f <$> (Act.throw e : Act α)) w = Act.throw e w := by
    rw [map_eq_pure_bind, Act.bind_of_raised (Act.throw_eq e w)]
    rfl
  rw [← raised]
  exact ha.map f

/-! ### Finalized boxes -/

theorem observed_handle_emptied (r : Reentry) (op : Metamethod) (args : List Value) (w : World) :
    (Act.throw InterpreterError.destructed.normalize w).Observed w.stop?
      (r.handle op .emptied args w) :=
  Act.observed_outside (.throw _) _ fun _ _ => .refl _

/-- A finalized box that is passed first is asked whatever the other operand is. -/
theorem observed_binary_of_emptied {sign : BinaryOperator} {a b : Value} (r : Reentry)
    (hs : sign.isEquality = false) (he : sign.operands a b = (x, y))
    (hx : w.bridge.heap.Emptied x) (left? right? : Option Origin) :
    (Act.throw InterpreterError.destructed.normalize w).Observed w.stop?
      (r.binary sign a b left? right? w) := by
  have ends : ¬ (sign.metamethod = .gc ∨ sign.metamethod = .metatable) := by
    cases sign <;> simp [BinaryOperator.metamethod]
  have found : (w.bridge.heap.handler? sign.metamethod x <|>
      w.bridge.heap.handler? sign.metamethod y) = some .emptied := by
    rw [Heap.handler?_of_emptied hx ends]
    rfl
  rw [r.binary_of_handler hs he (.inl (hx.imp fun _ h => h.1)) found]
  exact observed_map_throw (r.observed_handle_emptied _ _ w) _

theorem observed_equal_of_emptied (r : Reentry) {i j : Nat} (hij : i ≠ j)
    (hi : w.bridge.heap.boxed? i = none) :
    (Act.throw InterpreterError.destructed.normalize w).Observed w.stop?
      (r.equal (.box i) (.box j) w) := by
  have handler : w.bridge.heap.handler? .eq (.box i) = some .emptied :=
    Heap.handler?_of_emptied ⟨i, rfl, hi⟩ (by simp)
  rw [r.equal_of_handler hij handler]
  exact observed_map_throw (r.observed_handle_emptied _ _ w) _

end Reentry

end ScriptHost
