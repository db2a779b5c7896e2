import ScriptHost.Machine.Operation
import ScriptHost.Proofs.Machine.Boxes

/-! Operations of a script keep its interpreter to itself: operands and handlers belong to
it, and so does what comes out. -/

namespace ScriptHost

variable {owner : Nat} {α : Type}

def Handler.OwnedBy (owner : Nat) : Handler → Prop
  | value v => v.OwnedBy owner
  | _ => True

theorem Heap.OwnedBy.handler {h : Heap} (hh : h.OwnedBy owner) (op : Metamethod) (v : Value) :
    ∀ f, h.handler? op v = some f → f.OwnedBy owner := by
  intro f hf
  unfold Heap.handler? at hf
  split at hf
  · split at hf
    · split at hf <;> cases hf
      trivial
    · split at hf <;> cases hf
      trivial
  · split at hf <;> cases hf
    trivial
  · split at hf <;> cases hf
    trivial
  · split at hf
    · cases hf
    · cases hf
      exact hh.metaField v op.name

theorem AllOwned.nil : AllOwned owner [] := nofun

theorem AllOwned.cons {v : Value} {vs : List Value} (hv : v.OwnedBy owner)
    (h : AllOwned owner vs) : AllOwned owner (v :: vs) :=
  List.forall_mem_cons.mpr ⟨hv, h⟩

namespace Reentry.Keeps

open Act (Keeps)

variable {r : Reentry}

theorem fail {post : α → Prop} (message : String) : Act.Keeps owner post (r.fail message) :=
  r.site.keeps_fail _ _

theorem failAtCall {post : α → Prop} (message : String) :
    Act.Keeps owner post (r.failAtCall message) :=
  r.site.keeps_fail _ _

theorem failOperand {post : α → Prop} (fault : OperandFault) (of? : Option Origin) :
    Act.Keeps owner post (r.failOperand fault of?) :=
  fail _

/-! ### Handlers -/

theorem handleBox (hr : r.Keeps owner) (op : Metamethod) (v : Variant) (args : List Value) :
    Act.Keeps owner (Value.OwnedBy owner) (r.handleBox op v args) := by
  unfold Reentry.handleBox
  split
  · exact Box.keeps_readObject hr _ _ _
  · exact .bind (Box.keeps_writeObject hr _ _ _) fun _ _ => .pure trivial
  · exact .bind (.decodeAll _) fun _ _ => Box.keeps_answerOrDecline hr _ _ _
  · exact .bind (Box.keeps_textOfObject hr _) fun _ _ => .pure trivial
  · exact Box.keeps_equalObjects hr _ _
  · exact Box.keeps_answerOrDecline hr _ _ _
  · exact Box.keeps_answerOrDecline hr _ _ _
  · exact Box.keeps_answerOrDecline hr _ _ _
  · exact Box.keeps_binaryObject hr _ _ _
  · exact Box.keeps_readTyped _ _ _
  · exact .bind (Box.keeps_writeTyped _ _ _) fun _ _ => .pure trivial
  · exact .bind .host fun _ _ => .pure trivial
  · exact Box.keeps_binaryTyped _ _ _ _
  · exact Box.keeps_decline _ _

theorem handle (hr : r.Keeps owner) (op : Metamethod) {h : Handler} {args : List Value}
    (hh : h.OwnedBy owner) (ha : AllOwned owner args) :
    Act.Keeps owner (Value.OwnedBy owner) (r.handle op h args) := by
  unfold Reentry.handle
  split
  · exact hr.call hh ha
  · exact hr.outside fun _ hr' => hr'.handleBox _ _ _
  · exact hr.outside fun _ _ => .pure trivial
  · exact .pure trivial
  · exact hr.outside fun _ _ => .throw

theorem handlerOf (op : Metamethod) (a b : Value) :
    Act.Keeps owner (fun h? => ∀ h, h? = some h → h.OwnedBy owner) (Reentry.handlerOf op a b) := by
  refine .bind .heap fun heap hh => .pure fun h hs => ?_
  cases ha : heap.handler? op a with
  | some f =>
    rw [ha] at hs
    cases hs
    exact hh.handler op a _ ha
  | none =>
    rw [ha] at hs
    exact hh.handler op b _ hs

theorem text (hr : r.Keeps owner) {v : Value} (hv : v.OwnedBy owner) :
    Act.Keeps owner (fun _ => True) (r.text v) := by
  refine .bind .heap fun h hh => ?_
  split
  · exact .bind .heap fun _ _ => .pure trivial
  next f hf =>
    refine .bind (hr.handle _ (hh.handler _ _ f hf) (.cons hv .nil)) fun w _ => ?_
    split
    · exact .pure trivial
    · exact failAtCall _

/-! ### Indexing -/

theorem ownedBy_held {h : Heap} (hh : h.OwnedBy owner) (v key : Value) :
    (held h v key).OwnedBy owner := by
  unfold held
  split
  · exact (hh.table _).getValue _
  · trivial

theorem indexFrom (hr : r.Keeps owner) {key v : Value} (hk : key.OwnedBy owner) (fuel : Nat)
    (hv : v.OwnedBy owner) (of? : Option Origin) :
    Act.Keeps owner (Value.OwnedBy owner) (r.indexFrom key fuel v of?) := by
  induction fuel generalizing v of? with
  | zero => exact fail _
  | succ fuel ih =>
    refine .bind .heap fun heap hh => ?_
    split
    · exact .pure trivial
    · exact failOperand _ _
    next f v hf =>
      exact hr.call (hh.handler _ _ _ hf) (.cons hv (.cons hk .nil))
    next next _ hf =>
      have hn := hh.handler _ _ _ hf
      exact .ite (ih hn _) (.pure (ownedBy_held hh _ _))
    next h v hf =>
      exact hr.handle _ (hh.handler _ _ _ hf) (.cons hv (.cons hk .nil))

theorem index (hr : r.Keeps owner) {v key : Value} (hv : v.OwnedBy owner) (hk : key.OwnedBy owner)
    (of? : Option Origin) : Act.Keeps owner (Value.OwnedBy owner) (r.index v key of?) :=
  .bind .heap fun _ hh => .ite (hr.indexFrom hk _ hv _) (.pure (ownedBy_held hh _ _))

theorem rawSet (id : Nat) {key value : Value} (hk : key.OwnedBy owner) (hv : value.OwnedBy owner) :
    Act.Keeps owner (fun _ => True) (r.rawSet id key value) := by
  unfold Reentry.rawSet
  split
  next k hkey => exact .modifyHeap fun h hh => hh.set id (Key.ownedBy_ofValue hkey hk) hv
  next => exact fail _

theorem setIndexFrom (hr : r.Keeps owner) {key value v : Value} (hk : key.OwnedBy owner)
    (hx : value.OwnedBy owner) (fuel : Nat) (hv : v.OwnedBy owner) (of? : Option Origin) :
    Act.Keeps owner (fun _ => True) (r.setIndexFrom key value fuel v of?) := by
  induction fuel generalizing v of? with
  | zero => exact fail _
  | succ fuel ih =>
    have args {v : Value} (hv : v.OwnedBy owner) : AllOwned owner [v, key, value] :=
      .cons hv (.cons hk (.cons hx .nil))
    refine .bind .heap fun heap hh => ?_
    split
    · exact rawSet _ hk hx
    · exact failOperand _ _
    next f v hf =>
      exact .bind (hr.call (hh.handler _ _ _ hf) (args hv)) fun _ _ => .pure trivial
    next next _ hf =>
      have hn : next.OwnedBy owner := hh.handler _ _ _ hf
      split
      · exact rawSet _ hk hx
      · exact ih hn _
    next h v hf =>
      exact .bind (hr.handle _ (hh.handler _ _ _ hf) (args hv)) fun _ _ => .pure trivial

theorem setIndex (hr : r.Keeps owner) {v key value : Value} (hv : v.OwnedBy owner)
    (hk : key.OwnedBy owner) (hx : value.OwnedBy owner) (of? : Option Origin) :
    Act.Keeps owner (fun _ => True) (r.setIndex v key value of?) := by
  refine .bind .heap fun heap _ => ?_
  split
  · exact rawSet _ hk hx
  · exact hr.setIndexFrom hk hx _ hv _

theorem global (hr : r.Keeps owner) (name : String) :
    Act.Keeps owner (Value.OwnedBy owner) (r.global name) :=
  have table : (Value.table Heap.globals).OwnedBy owner := trivial
  have key : (Value.ofString name).OwnedBy owner := trivial
  hr.index table key _

theorem setGlobal (hr : r.Keeps owner) (name : String) {value : Value} (hv : value.OwnedBy owner) :
    Act.Keeps owner (fun _ => True) (r.setGlobal name value) :=
  have table : (Value.table Heap.globals).OwnedBy owner := trivial
  have key : (Value.ofString name).OwnedBy owner := trivial
  hr.setIndex table key hv _

/-! ### Operators -/

theorem ownedBy_ofNumeral (x : Decimal.Numeral) : (Value.ofNumeral x).OwnedBy owner := by
  cases x <;> trivial

section Operators

variable (hr : r.Keeps owner) {a b : Value} (ha : a.OwnedBy owner) (hb : b.OwnedBy owner)
include hr ha hb

theorem arithmetic (op : Metamethod) (left? right? : Option Origin) :
    Act.Keeps owner (Value.OwnedBy owner) (r.arithmetic op a b left? right?) := by
  unfold Reentry.arithmetic
  split
  · split
    · exact .pure (ownedBy_ofNumeral _)
    · exact fail _
  · refine .bind (handlerOf _ _ _) fun h? hh => ?_
    split
    · exact hr.handle _ (hh _ rfl) (.cons ha (.cons hb .nil))
    · exact .bind .heap fun _ _ => failOperand _ _

theorem bitwise (op : Metamethod) (left? right? : Option Origin) :
    Act.Keeps owner (Value.OwnedBy owner) (r.bitwise op a b left? right?) := by
  unfold Reentry.bitwise
  split
  · split
    · exact .pure trivial
    · exact failOperand _ _
    · exact failOperand _ _
  · refine .bind (handlerOf _ _ _) fun h? hh => ?_
    split
    · exact hr.handle _ (hh _ rfl) (.cons ha (.cons hb .nil))
    · exact .bind .heap fun _ _ => failOperand _ _

theorem concat (left? right? : Option Origin) :
    Act.Keeps owner (Value.OwnedBy owner) (r.concat a b left? right?) := by
  unfold Reentry.concat
  split
  · exact .pure trivial
  · refine .bind (handlerOf _ _ _) fun h? hh => ?_
    split
    · exact hr.handle _ (hh _ rfl) (.cons ha (.cons hb .nil))
    · exact .bind .heap fun _ _ => failOperand _ _

theorem compareByHandler (op : Metamethod) :
    Act.Keeps owner (fun _ => True) (r.compareByHandler op a b) := by
  refine .bind (handlerOf _ _ _) fun h? hh => ?_
  split
  · exact .bind (hr.handle _ (hh _ rfl) (.cons ha (.cons hb .nil))) fun _ _ => .pure trivial
  · have failed : Act.Keeps owner (fun _ : Bool => True) (do
        let heap ← Act.heap
        r.failOperand (.compare (heap.typeName a) (heap.typeName b)) none) :=
      .bind .heap fun _ _ => failOperand _ _
    refine .ite (.bind (handlerOf _ _ _) fun h? hh => ?_) failed
    cases h? with
    | none => exact failed
    | some h =>
      exact .bind (hr.handle _ (hh h rfl) (.cons hb (.cons ha .nil))) fun _ _ => .pure trivial

theorem compare (op : Metamethod) : Act.Keeps owner (fun _ => True) (r.compare op a b) := by
  unfold Reentry.compare
  split
  · exact .pure trivial
  · split
    · exact .pure trivial
    · exact hr.compareByHandler ha hb _

theorem equal : Act.Keeps owner (fun _ => True) (r.equal a b) := by
  refine .ite (.pure trivial) (.ite (.bind (handlerOf _ _ _) fun h? hh => ?_) (.pure trivial))
  split
  · exact .bind (hr.handle _ (hh _ rfl) (.cons ha (.cons hb .nil))) fun _ _ => .pure trivial
  · exact .pure trivial

end Operators

theorem length (hr : r.Keeps owner) {v : Value} (hv : v.OwnedBy owner) (of? : Option Origin) :
    Act.Keeps owner (Value.OwnedBy owner) (r.length v of?) := by
  unfold Reentry.length
  split
  · exact .pure trivial
  · refine .bind .heap fun heap hh => ?_
    split
    next h v hf => exact hr.handle _ (hh.handler _ _ _ hf) (.cons hv (.cons hv .nil))
    · exact .pure trivial
    · exact failOperand _ _

theorem binary (hr : r.Keeps owner) (op : BinaryOperator) {a b : Value} (ha : a.OwnedBy owner)
    (hb : b.OwnedBy owner) (left? right? : Option Origin) :
    Act.Keeps owner (Value.OwnedBy owner) (r.binary op a b left? right?) := by
  unfold Reentry.binary
  cases op with
  | add | sub | mul | div | idiv | mod | pow => exact hr.arithmetic ha hb _ _ _
  | concat => exact hr.concat ha hb _ _
  | band | bor | bxor | shl | shr => exact hr.bitwise ha hb _ _ _
  | eq | ne => exact .bind (hr.equal ha hb) fun _ _ => .pure trivial
  | lt | le => exact .bind (hr.compare ha hb _) fun _ _ => .pure trivial
  | gt | ge => exact .bind (hr.compare hb ha _) fun _ _ => .pure trivial

theorem unary (hr : r.Keeps owner) (op : UnaryOperator) {a : Value} (ha : a.OwnedBy owner)
    (of? : Option Origin) : Act.Keeps owner (Value.OwnedBy owner) (r.unary op a of?) := by
  cases op with
  | minus => exact hr.arithmetic ha ha _ _ _
  | complement => exact hr.bitwise ha ha _ _ _
  | length => exact hr.length ha _
  | not => exact .pure trivial

end Reentry.Keeps

end ScriptHost
