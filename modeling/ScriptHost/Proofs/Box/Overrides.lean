import ScriptHost.Proofs.Box.Fields
import ScriptHost.Proofs.Box.Operators

/-! Operators of scripts on host objects. The object on the left is asked, once, and its
answer is taken as it is; the object on the right is never asked. What an object does not
declare fails as it does for any other value. -/

namespace ScriptHost

/-! ### Operators and operands -/

namespace BinaryOperator

/-- What a script gets of a test for equality. -/
def ofEqual (sign : BinaryOperator) (equal : Bool) : Value :=
  .bool (if sign = ne then !equal else equal)

end BinaryOperator

namespace Heap

/-- The value is a box of the object. -/
def BoxOf (h : Heap) (o : ObjectId) (x : Value) : Prop :=
  ∃ id, x = .box id ∧ h.boxed? id = some (.object o)

/-- The types that a refusal may name: the class of the object on the right, or what is in the
box on the left. -/
inductive Blames (h : Heap) (host : Host) (x : Value) (o : ObjectId) : String → Prop
  | object : Blames h host x o (host.definition o).className
  | typed {id : Nat} {v : Variant} : x = .box id → h.boxed? id = some v →
    Blames h host x o v.boxName

end Heap

theorem UnaryOperator.isOperator_metamethod {sign : UnaryOperator} {op : Metamethod}
    (hs : sign.metamethod? = some op) : op.isOperator = true := by
  cases sign with
  | not => cases hs
  | _ =>
    cases hs
    rfl

/-! ### An object that is asked -/

/-- The object answers what it declares: it is asked once, and its result or its error goes to
the script. -/
def Reentry.consult (r : Reentry) (o : ObjectId) (op : Metamethod) (b : Behaviour)
    (args : List Variant) : Act Value := do
  Act.record (.override o op args)
  match ← r.perform r.site .attached (some o) b args with
  | .ok v => Act.push v
  | .error e => Act.throw (e.toScript op.name)

/-- What an operation on an object of the host `h` comes to. -/
inductive Consults (h : Host) (o : ObjectId) (op : Metamethod) (args : List Variant) :
    (Reentry → Act Value) → Prop
  | declared {b : Behaviour} : (h.definition o).override? op = some b →
    Consults h o op args fun r => r.consult o op b args
  | undeclared : (h.definition o).override? op = none →
    Consults h o op args fun _ => Act.throw (op.declined (h.definition o).className)

namespace Box

variable {w : World} {o : ObjectId} {op : Metamethod} {args : List Variant}

theorem answerOrDecline_of_some {b : Behaviour} (hd : (w.host.definition o).override? op = some b)
    (hop : op ≠ .gc) (r : Reentry) :
    answerOrDecline r op o args w = r.consult o op b args w := by
  rw [answerOrDecline, r.override?_of_some hd hop]
  refine congrFun (bind_congr fun _ => bind_congr fun result => ?_) w
  cases result <;> rfl

theorem answerOrDecline_of_none (hd : (w.host.definition o).override? op = none) (r : Reentry) :
    answerOrDecline r op o args w =
      Act.throw (op.declined (w.host.definition o).className) w := by
  rw [answerOrDecline, Act.bind_of_ok (r.override?_of_none hd _ _)]
  dsimp only
  rw [Act.bind_of_ok (Act.host_eq _)]
  rfl

/-- An object answers as the rules say. -/
theorem exists_consults (w : World) (o : ObjectId) (hop : op ≠ .gc) (args : List Variant) :
    ∃ run, Consults w.host o op args run ∧
      ∀ (r : Reentry) (w₁ : World), w.Shown w₁ → answerOrDecline r op o args w₁ = run r w₁ := by
  cases hd : (w.host.definition o).override? op with
  | some b =>
    refine ⟨_, .declared hd, fun r w₁ h₁ => answerOrDecline_of_some ?_ hop r⟩
    rw [h₁.definition, hd]
  | none =>
    refine ⟨_, .undeclared hd, fun r w₁ h₁ => ?_⟩
    have hd₁ : (w₁.host.definition o).override? op = none := by rw [h₁.definition, hd]
    rw [answerOrDecline_of_none hd₁, h₁.definition]

theorem binaryObject_of_left {id : Nat} (hx : w.bridge.heap.boxed? id = some (.object o))
    (r : Reentry) (y : Value) : binaryObject r op (.box id) y w =
      answerOrDecline r op o [w.bridge.heap.decode w.bridge.id y] w := by
  rw [binaryObject, Act.bind_of_ok (Act.heap_eq _), pure_bind, hx]
  exact Act.bind_of_ok (Act.decode_eq y w)

theorem describe_object {id : Nat} (hy : w.bridge.heap.boxed? id = some (.object o)) :
    describe (.box id) w = .ok (w.host.definition o).className w := by
  rw [describe, Act.bind_of_ok (Act.heap_eq _), hy]
  rfl

/-- An object on the right is not asked. -/
theorem binaryObject_of_right {id : Nat} {x : Value}
    (hx : ∀ id' v, x = .box id' → w.bridge.heap.boxed? id' = some v → v.object? = none)
    (hy : w.bridge.heap.boxed? id = some (.object o)) (r : Reentry) :
    binaryObject r op x (.box id) w =
      Act.throw (op.declined (w.host.definition o).className) w := by
  have named : (do decline op (← describe (.box id)) : Act Value) w =
      Act.throw (op.declined (w.host.definition o).className) w := by
    rw [Act.bind_of_ok (describe_object hy)]
    rfl
  cases x with
  | box id' =>
    have nobody : (w.bridge.heap.boxed? id').bind Variant.object? = none := by
      cases hv : w.bridge.heap.boxed? id' with
      | none => rfl
      | some v => exact hx id' v rfl hv
    rw [binaryObject, Act.bind_of_ok (Act.heap_eq _), pure_bind, nobody]
    exact named
  | _ => exact named

end Box

/-! ### Who is asked -/

theorem Variant.evaluate?_object (op : Metamethod) (v : Variant) (o : ObjectId) :
    evaluate? op v (.object o) = none := by
  cases v <;> simp [evaluate?, number?]

theorem Variant.answers_object {op : Metamethod} (hop : op.isOperator = true) (o : ObjectId) :
    (object o).answers op = true := by
  cases op <;> first | rfl | cases hop

namespace Heap

variable {h : Heap} {op : Metamethod} {x : Value} {o : ObjectId}

theorem handler?_of_boxOf (hx : h.BoxOf o x) (hop : op.isOperator = true) :
    h.handler? op x = some (.box (.object o)) := by
  obtain ⟨id, rfl, hv⟩ := hx
  rw [handler?_box hv, if_pos (Variant.answers_object hop o)]

end Heap

namespace Reentry

variable {op : Metamethod} {x y : Value} {w : World} {o : ObjectId}

/-! ### What the asked object answers -/

theorem handleBox_object (r : Reentry) (hop : op.isBinary = true) (x y : Value) :
    r.handleBox op (.object o) [x, y] = Box.binaryObject r op x y := by
  cases op <;> first | rfl | cases hop

theorem handle_left (r : Reentry) (hop : op.isBinary = true) (hx : w.bridge.heap.BoxOf o x)
    (y : Value) : ∃ run, Consults w.host o op [w.bridge.heap.decode w.bridge.id y] run ∧
      r.handle op (.box (.object o)) [x, y] w = r.outside run w := by
  obtain ⟨id, rfl, hv⟩ := hx
  have different : op ≠ .gc := by
    rintro rfl
    cases hop
  obtain ⟨run, consults, runs⟩ :=
    Box.exists_consults w o different [w.bridge.heap.decode w.bridge.id y]
  refine ⟨run, consults, Act.outside_congr _ fun w₁ h₁ => ?_⟩
  have hv₁ : w₁.bridge.heap.boxed? id = some (.object o) := by rw [h₁.heap, hv]
  dsimp only
  rw [handleBox_object _ hop, Box.binaryObject_of_left hv₁, h₁.heap, h₁.id]
  exact runs _ w₁ h₁

theorem observed_handle_right (r : Reentry) (hop : op.isBinary = true)
    (hx : ∀ id v, x = .box id → w.bridge.heap.boxed? id = some v → v.object? = none)
    (hy : w.bridge.heap.BoxOf o y) :
    (Act.throw (op.declined (w.host.definition o).className) w).Observed w.stop?
      (r.handle op (.box (.object o)) [x, y] w) := by
  obtain ⟨id, rfl, hv⟩ := hy
  refine Act.observed_outside (.throw _) _ fun w₁ h₁ => ?_
  dsimp only
  rw [handleBox_object _ hop, ← h₁.definition]
  rw [← h₁.heap] at hx hv
  rw [Box.binaryObject_of_right hx hv]
  exact .refl _

/-- A box of another value on the left has nothing for an object. -/
theorem observed_handle_typed (r : Reentry) (hop : op.isBinary = true) {v : Variant}
    (hv : v.object? = none) (hy : w.bridge.heap.BoxOf o y) (x : Value) :
    (Act.throw (op.declined v.boxName) w).Observed w.stop? (r.handle op (.box v) [x, y] w) := by
  obtain ⟨id, rfl, hy⟩ := hy
  have verdict := r.observed_handle_box hop hv x (.box id) w
  rw [Heap.decode_box _ hy, Variant.verdict, Variant.evaluate?_object] at verdict
  exact verdict

/-- Whoever is asked, an object on the right leads to a refusal. -/
theorem observed_handle_plain {n : Nat} (site : Site) (hop : op.isBinary = true)
    (hx : w.bridge.heap.Plain op x) (hy : w.bridge.heap.BoxOf o y)
    (hn : (∃ bytes, x = .string bytes) → 0 < n) : ∃ h type, w.bridge.heap.Blames w.host x o type ∧
      (w.bridge.heap.handler? op x <|> w.bridge.heap.handler? op y) = some h ∧
      (Act.throw (op.declined type) w).Observed w.stop? ((upTo n site).handle op h [x, y] w) := by
  have right := Heap.handler?_of_boxOf hy (Metamethod.isOperator_of_isBinary hop)
  have apart : op ≠ .index ∧ op ≠ .toText := by
    constructor <;> (rintro rfl; cases hop)
  rcases Heap.box_or_handler?_of_plain apart.1 apart.2 hx with
    ⟨id, v, rfl, hv, ho⟩ | ⟨hb, handler⟩ | ⟨bytes, f, rfl, handler, hf⟩
  · have left := Heap.handler?_box hv op
    by_cases ha : v.answers op = true
    · rw [if_pos ha] at left
      rw [left]
      exact ⟨.box v, _, .typed rfl hv, rfl, observed_handle_typed _ hop ho hy _⟩
    · rw [if_neg ha] at left
      rw [left, right]
      refine ⟨_, _, .object, rfl, observed_handle_right _ hop (fun id' v' he hv' => ?_) hy⟩
      cases he
      rw [hv] at hv'
      cases hv'
      exact ho
  · rw [handler, right]
    refine ⟨_, _, .object, rfl, observed_handle_right _ hop (fun id v he => ?_) hy⟩
    exact absurd he (hb id)
  · obtain ⟨n, rfl⟩ := Nat.exists_eq_add_one.mpr (hn ⟨bytes, rfl⟩)
    obtain ⟨id, rfl, hv⟩ := hy
    rw [handler]
    refine ⟨_, _, .object, rfl, observed_handle_text hf right _ (.throw _) fun r w₁ h₁ => ?_⟩
    rw [← h₁.definition]
    refine observed_handle_right r hop (fun _ _ he => by cases he) ⟨id, rfl, ?_⟩
    rw [h₁.heap, hv]

/-! ### Operators by handlers -/

/-- An object that is passed first is asked about the other operand. -/
theorem binary_of_boxOf {sign : BinaryOperator} {a b : Value} (r : Reentry)
    (hs : sign.isEquality = false) (he : sign.operands a b = (x, y))
    (hx : w.bridge.heap.BoxOf o x) (left? right? : Option Origin) :
    ∃ run, Consults w.host o sign.metamethod [w.bridge.heap.decode w.bridge.id y] run ∧
      r.binary sign a b left? right? w = (sign.shape <$> r.outside run) w := by
  have hop := BinaryOperator.isBinary_metamethod hs
  have found : (w.bridge.heap.handler? sign.metamethod x <|>
      w.bridge.heap.handler? sign.metamethod y) = some (.box (.object o)) := by
    rw [Heap.handler?_of_boxOf hx (Metamethod.isOperator_of_isBinary hop)]
    rfl
  obtain ⟨run, consults, runs⟩ := r.handle_left hop hx y
  refine ⟨run, consults, ?_⟩
  rw [r.binary_of_handler hs he (.inl (hx.imp fun _ h => h.1)) found]
  exact Act.map_congr _ runs

/-- An object that is passed second has the operation refused. -/
theorem observed_binary_of_plain {sign : BinaryOperator} {a b : Value} {n : Nat} (site : Site)
    (hs : sign.isEquality = false) (he : sign.operands a b = (x, y))
    (hx : w.bridge.heap.Plain sign.metamethod x) (hy : w.bridge.heap.BoxOf o y)
    (hn : (∃ bytes, x = .string bytes) → 0 < n) (left? right? : Option Origin) :
    ∃ type, w.bridge.heap.Blames w.host x o type ∧
      (Act.throw (sign.metamethod.declined type) w).Observed w.stop?
        ((upTo n site).binary sign a b left? right? w) := by
  have hop := BinaryOperator.isBinary_metamethod hs
  obtain ⟨handler, type, blames, found, refused⟩ := observed_handle_plain site hop hx hy hn
  refine ⟨type, blames, ?_⟩
  rw [(upTo n site).binary_of_handler hs he (.inr (hy.imp fun _ h => h.1)) found]
  exact observed_map_throw refused _

/-! ### Calls -/

/-- A call of an object asks it about all arguments as one array. -/
theorem exists_call (w : World) (hx : w.bridge.heap.BoxOf o x) (args : List Value) :
    ∃ run, Consults w.host o .call
        [.array (args.map (w.bridge.heap.decode w.bridge.id))] run ∧
      ∀ r : Reentry, r.target x args w = .ok (.box x (.object o), args) w ∧
        (r.outside fun r => r.runBox x (.object o) args) w =
          ((fun v => [v]) <$> r.outside run) w := by
  have different : Metamethod.call ≠ .gc := by simp
  obtain ⟨run, consults, runs⟩ := Box.exists_consults w o different
    [.array (args.map (w.bridge.heap.decode w.bridge.id))]
  refine ⟨run, consults, fun r => ⟨?_, ?_⟩⟩
  · have found : w.bridge.heap.target stackLimit x args = .ok (.box x (.object o), args) := by
      have hop : Metamethod.isOperator .call = true := rfl
      have handler := Heap.handler?_of_boxOf hx hop
      obtain ⟨id, rfl, -⟩ := hx
      show w.bridge.heap.target (stackLimit - 1 + 1) (.box id) args = _
      rw [Heap.target, handler]
      simp
    rw [target, Act.bind_of_ok (Act.heap_eq _), found]
    rfl
  · rw [outside, outside, Act.map_outside]
    refine Act.outside_congr _ fun w₁ h₁ => ?_
    have decoded : Act.decodeAll args w₁ =
        .ok (args.map (w.bridge.heap.decode w.bridge.id)) w₁ := by
      rw [← h₁.heap, ← h₁.id]
      rfl
    have asked : r.inside.handleBox .call (.object o) (x :: args) w₁ = run r.inside w₁ := by
      rw [← runs r.inside w₁ h₁]
      exact Act.bind_of_ok decoded
    exact Act.map_congr (fun v => [v]) asked

theorem applyValue_of_boxOf (beyond : Site → Reentry) (site : Site) (hx : w.bridge.heap.BoxOf o x)
    (args : List Value) :
    ∃ run, Consults w.host o .call
        [.array (args.map (w.bridge.heap.decode w.bridge.id))] run ∧
      applyValue beyond site x args w = ((fun v => [v]) <$> (beyond site).outside run) w := by
  obtain ⟨run, consults, runs⟩ := exists_call w hx args
  obtain ⟨target, called⟩ := runs (beyond site)
  refine ⟨run, consults, ?_⟩
  rw [applyValue, Act.bind_of_ok target]
  exact called

theorem call_of_boxOf (beyond : Site → Reentry) {a : Activation} {n : Nat}
    (hx : w.bridge.heap.BoxOf o (a.peek n)) (callers : List Activation) (wanted : Nat)
    (callee? : Option Origin) :
    ∃ run, Consults w.host o .call
        [.array ((a.top n).map (w.bridge.heap.decode w.bridge.id))] run ∧
      a.call beyond callers n wanted callee? w =
        ((fun v => .running ((a.pop (n + 1)).receive wanted [v]) callers) <$>
          (beyond ((a.pop (n + 1)).site callee?)).outside run) w := by
  obtain ⟨run, consults, runs⟩ := exists_call w hx (a.top n)
  obtain ⟨target, called⟩ := runs (beyond ((a.pop (n + 1)).site callee?))
  refine ⟨run, consults, ?_⟩
  rw [Activation.call, Act.bind_of_ok target]
  refine (Act.bind_congr_left called).trans ?_
  rw [map_eq_pure_bind, map_eq_pure_bind, bind_assoc]
  rfl

/-! ### Equality -/

/-- The first of two boxes of objects is asked about the other, if they are not the same box. -/
theorem equal_objects (r : Reentry) {i j : Nat} {p : ObjectId}
    (hi : w.bridge.heap.boxed? i = some (.object o))
    (hj : w.bridge.heap.boxed? j = some (.object p)) :
    (i = j → r.equal (.box i) (.box j) w = .ok true w) ∧
    (i ≠ j → ∀ b, (w.host.definition o).override? .eq = some b →
      r.equal (.box i) (.box j) w =
        (Value.truth <$> r.outside fun r => r.consult o .eq b [.object p]) w) ∧
    (i ≠ j → (w.host.definition o).override? .eq = none →
      (Outcome.ok (decide (o = p)) w).Observed w.stop? (r.equal (.box i) (.box j) w)) := by
  have asked (hij : i ≠ j) : r.equal (.box i) (.box j) w =
      (Value.truth <$> r.outside fun r => Box.equalObjects r (.box i) (.box j)) w :=
    r.equal_of_handler hij (Heap.handler?_box hi .eq)
  have reads {w₁ : World} (h₁ : w.Shown w₁) :
      w₁.bridge.heap.decode w₁.bridge.id (.box i) = .object o ∧
        w₁.bridge.heap.decode w₁.bridge.id (.box j) = .object p := by
    rw [h₁.heap]
    exact ⟨Heap.decode_box _ hi, Heap.decode_box _ hj⟩
  refine ⟨?_, fun hij b hd => ?_, fun hij hd => ?_⟩
  · rintro rfl
    exact r.equal_same_box i w
  · rw [asked hij]
    refine Act.map_congr _ (Act.outside_congr _ fun w₁ h₁ => ?_)
    have hd₁ : (w₁.host.definition o).override? .eq = some b := by rw [h₁.definition, hd]
    dsimp only
    rw [Box.equalObjects, Act.bind_of_ok (Act.decode_eq _ w₁),
      Act.bind_of_ok (Act.decode_eq _ w₁), (reads h₁).1, (reads h₁).2]
    dsimp only
    rw [override?_of_some _ hd₁ (by simp)]
    refine congrFun (bind_congr fun _ => bind_congr fun result => ?_) w₁
    cases result <;> rfl
  · rw [asked hij]
    refine Outcome.Observed.map (x := pure (.bool (decide (o = p)))) ?_ Value.truth
    refine Act.observed_outside (.pure _) _ fun w₁ h₁ => ?_
    have hd₁ : (w₁.host.definition o).override? .eq = none := by rw [h₁.definition, hd]
    have same : (some p == some o) = decide (o = p) := by
      rw [Bool.eq_iff_iff, beq_iff_eq, decide_eq_true_iff, Option.some_inj]
      exact eq_comm
    dsimp only
    rw [Box.equalObjects, Act.bind_of_ok (Act.decode_eq _ w₁),
      Act.bind_of_ok (Act.decode_eq _ w₁), (reads h₁).1, (reads h₁).2]
    dsimp only
    rw [Act.bind_of_ok (override?_of_none _ hd₁ _ _), ← same]
    exact .refl _

theorem binary_of_equal (r : Reentry) {sign : BinaryOperator} (hs : sign.isEquality = true)
    (a b : Value) (left? right? : Option Origin) :
    r.binary sign a b left? right? = sign.ofEqual <$> r.equal a b := by
  cases sign with
  | eq | ne => exact (map_eq_pure_bind _ _).symm
  | _ => cases hs

theorem binary_of_objects {sign : BinaryOperator} {i j : Nat} {p : ObjectId} (r : Reentry)
    (hs : sign.isEquality = true) (hi : w.bridge.heap.boxed? i = some (.object o))
    (hj : w.bridge.heap.boxed? j = some (.object p)) (left? right? : Option Origin) :
    (i = j → r.binary sign (.box i) (.box j) left? right? w = .ok (sign.ofEqual true) w) ∧
    (i ≠ j → ∀ b, (w.host.definition o).override? .eq = some b →
      r.binary sign (.box i) (.box j) left? right? w =
        ((fun v => sign.ofEqual v.truth) <$>
          r.outside fun r => r.consult o .eq b [.object p]) w) ∧
    (i ≠ j → (w.host.definition o).override? .eq = none →
      (Outcome.ok (sign.ofEqual (decide (o = p))) w).Observed w.stop?
        (r.binary sign (.box i) (.box j) left? right? w)) := by
  obtain ⟨same, declared, undeclared⟩ := r.equal_objects hi hj
  rw [r.binary_of_equal hs]
  refine ⟨fun hij => ?_, fun hij b hd => ?_, fun hij hd => ?_⟩
  · rw [map_eq_pure_bind, Act.bind_of_ok (same hij)]
    rfl
  · rw [Act.map_congr _ (declared hij b hd), ← comp_map]
    rfl
  · exact (undeclared hij hd).map (x := pure (decide (o = p))) _

/-! ### One operand -/

theorem unary_of_boxOf (r : Reentry) {sign : UnaryOperator} (hs : sign.metamethod? = some op)
    (hx : w.bridge.heap.BoxOf o x) (of? : Option Origin) :
    ∃ run, Consults w.host o op [] run ∧ r.unary sign x of? w = r.outside run w := by
  have hop := UnaryOperator.isOperator_metamethod hs
  have different : op ≠ .gc := by
    rintro rfl
    cases hop
  obtain ⟨run, consults, runs⟩ := Box.exists_consults w o different []
  have asked (h : ∀ r : Reentry, r.handleBox op (.object o) [x, x] =
      Box.answerOrDecline r op o []) :
      r.handle op (.box (.object o)) [x, x] w = r.outside run w := by
    refine Act.outside_congr _ fun w₁ h₁ => ?_
    dsimp only
    rw [h]
    exact runs _ w₁ h₁
  have handler := Heap.handler?_of_boxOf hx hop
  have found : (w.bridge.heap.handler? op x <|> w.bridge.heap.handler? op x) =
      some (.box (.object o)) := by rw [handler]; rfl
  obtain ⟨id, rfl, -⟩ := hx
  refine ⟨run, consults, ?_⟩
  cases sign with
  | minus =>
    cases hs
    exact (arithmetic_of_handler r (.inl ⟨id, rfl⟩) found of? of?).trans (asked fun _ => rfl)
  | complement =>
    cases hs
    exact (bitwise_of_handler r (.inl ⟨id, rfl⟩) found of? of?).trans (asked fun _ => rfl)
  | length =>
    cases hs
    rw [← asked fun _ => rfl, unary, length, Act.bind_of_ok (Act.heap_eq _), handler]
    exact fun _ he => by cases he
  | not => cases hs

end Reentry

/-- Of two operands only an object that is passed first is asked, once, and an object that is
passed second has the operation refused, where the other has no metamethod of its own. The one
operand of a unary operator is asked, and so is a called object, about all its arguments as one
array. Of two objects the first is asked whether they are equal, unless they share a box. -/
theorem operators_ask_the_first_object (n : Nat) (site : Site) (w : World)
    (left? right? : Option Origin) :
    let r := Reentry.upTo n site
    let h := w.bridge.heap
    (∀ sign a b x y o, BinaryOperator.isEquality sign = false → sign.operands a b = (x, y) →
      h.BoxOf o x → ∃ run, Consults w.host o sign.metamethod [h.decode w.bridge.id y] run ∧
        r.binary sign a b left? right? w = (sign.shape <$> r.outside run) w) ∧
    (∀ sign a b x y o, BinaryOperator.isEquality sign = false → sign.operands a b = (x, y) →
      h.BoxOf o y → h.Plain sign.metamethod x →
      -- A string on the left takes one nested call.
      ((∃ bytes, x = .string bytes) → 0 < n) →
      ∃ type, h.Blames w.host x o type ∧ (Act.throw (sign.metamethod.declined type) w).Observed
        w.stop? (r.binary sign a b left? right? w)) ∧
    (∀ sign a b x y, BinaryOperator.isEquality sign = false → sign.operands a b = (x, y) →
      h.Emptied x → (Act.throw InterpreterError.destructed.normalize w).Observed w.stop?
        (r.binary sign a b left? right? w)) ∧
    (∀ sign op x o, UnaryOperator.metamethod? sign = some op → h.BoxOf o x →
      ∃ run, Consults w.host o op [] run ∧ r.unary sign x left? w = r.outside run w) ∧
    (∀ x o args, h.BoxOf o x →
      ∃ run, Consults w.host o .call [.array (args.map (h.decode w.bridge.id))] run ∧
        Reentry.applyValue (Reentry.upTo n) site x args w =
          ((fun v => [v]) <$> r.outside run) w) ∧
    (∀ (a : Activation) callers count wanted callee? o, h.BoxOf o (a.peek count) →
      let a' := a.pop (count + 1)
      ∃ run, Consults w.host o .call [.array ((a.top count).map (h.decode w.bridge.id))] run ∧
        a.call (Reentry.upTo n) callers count wanted callee? w =
          ((fun v => .running (a'.receive wanted [v]) callers) <$>
            (Reentry.upTo n (a'.site callee?)).outside run) w) ∧
    (∀ sign i j o p, BinaryOperator.isEquality sign = true → h.boxed? i = some (.object o) →
      h.boxed? j = some (.object p) →
      let equals := r.binary sign (.box i) (.box j) left? right? w
      (i = j → equals = .ok (sign.ofEqual true) w) ∧
      (i ≠ j → ∀ b, (w.host.definition o).override? .eq = some b → equals =
        ((fun v => sign.ofEqual v.truth) <$> r.outside fun r => r.consult o .eq b [.object p]) w) ∧
      (i ≠ j → (w.host.definition o).override? .eq = none →
        (Outcome.ok (sign.ofEqual (decide (o = p))) w).Observed w.stop? equals)) ∧
    ∀ op type, Metamethod.isOperator op = true → (op.declined type).IsAttempt := by
  intro r h
  refine ⟨?_, ?_, ?_, ?_, ?_, ?_, ?_, ?_⟩
  · exact fun sign a b x y o hs he hx => r.binary_of_boxOf hs he hx left? right?
  · exact fun sign a b x y o hs he hy hx hn =>
      Reentry.observed_binary_of_plain site hs he hx hy hn left? right?
  · exact fun sign a b x y hs he hx => r.observed_binary_of_emptied hs he hx left? right?
  · exact fun sign op x o hs hx => r.unary_of_boxOf hs hx left?
  · exact fun x o args hx => Reentry.applyValue_of_boxOf _ site hx args
  · exact fun a callers count wanted callee? o hx =>
      Reentry.call_of_boxOf _ hx callers wanted callee?
  · exact fun sign i j o p hs hi hj => r.binary_of_objects hs hi hj left? right?
  · exact fun op type hop => Metamethod.isAttempt_declined hop type

/-- The world with the string library open, an object in each of two boxes, and a box that is
finalized. The object answers sums by how many operands it is told, and equality by yes. -/
def World.things : World where
  host :=
    let answers := [(.add, .count), (.eq, .give (.bool true))]
    { objects := [.new ⟨"A"⟩ (.full "Thing" [] false [] none answers)], natives := [], log := [] }
  bridge :=
    let b := (Bridge.fresh "main" 1 .restrictive false).openLibrary .string
    let thing : Boxed := ⟨.object ⟨"A"⟩, rfl⟩
    let h := ((b.heap.newBox thing).2.newBox thing).2
    { b with heap := (h.newBox thing).2.emptyBox 2 }

/-- An object on the left is asked about nil, one on the right is not asked, and one that has no
negative says so; a call passes both arguments, and of two boxes the first is asked. -/
theorem operators_ask_the_first_object_things :
    let w := World.things
    let r := Reentry.upTo 1 .outermost
    (∃ run, Consults w.host ⟨"A"⟩ .add [.nil] run ∧
      r.binary .add (.box 0) .nil none none w =
        (BinaryOperator.add.shape <$> r.outside run) w) ∧
    (∃ type, w.bridge.heap.Blames w.host (.ofString "x") ⟨"A"⟩ type ∧
      (Act.throw (Metamethod.concat.declined type) w).Observed none
        (r.binary .concat (.ofString "x") (.box 0) none none w)) ∧
    (Act.throw InterpreterError.destructed.normalize w).Observed none
      (r.binary .concat (.box 2) (.box 0) none none w) ∧
    (∃ run, Consults w.host ⟨"A"⟩ .unm [] run ∧
      r.unary .minus (.box 0) none w = r.outside run w) ∧
    (∃ run, Consults w.host ⟨"A"⟩ .call [.array [.int 1, .nil]] run ∧
      Reentry.applyValue (Reentry.upTo 1) .outermost (.box 0) [.int 1, .nil] w =
        ((fun v => [v]) <$> r.outside run) w) ∧
    r.binary .ne (.box 0) (.box 1) none none w = ((fun v => .bool !v.truth) <$>
      r.outside fun r => r.consult ⟨"A"⟩ .eq (.give (.bool true)) [.object ⟨"A"⟩]) w := by
  intro w r
  obtain ⟨left, right, emptied, unary, called, -, equality, -⟩ :=
    operators_ask_the_first_object 1 .outermost w none none
  have thing (id : Nat) (hi : w.bridge.heap.boxed? id = some (.object ⟨"A"⟩)) :
      w.bridge.heap.BoxOf ⟨"A"⟩ (.box id) := ⟨id, rfl, hi⟩
  have first := thing 0 rfl
  have text : w.bridge.heap.Plain .concat (.ofString "x") := .inl rfl
  refine ⟨?_, ?_, ?_, ?_, ?_, ?_⟩
  · exact left .add (.box 0) .nil _ _ _ rfl rfl first
  · exact right .concat _ _ _ _ _ rfl rfl first text fun _ => Nat.one_pos
  · exact emptied .concat _ _ _ _ rfl rfl ⟨2, rfl, rfl⟩
  · exact unary .minus _ _ _ rfl first
  · exact called _ _ [.int 1, .nil] first
  · exact (equality .ne 0 1 _ _ rfl rfl rfl).2.1 (by simp) _ rfl

/-- A string whose metatable a script has changed answers in place of the object, and a
finalized box on the left does not refuse as others do. -/
theorem concatenation_without_refusal :
    (let w := World.things
     let w := w.withHeap (w.bridge.heap.set 4 (.ofString "__concat") (.function ⟨1, 2⟩))
     w.bridge.heap.BoxOf ⟨"A"⟩ (.box 0) ∧
      (Reentry.upTo 1 .outermost).binary .concat (.ofString "x") (.box 0) none none w =
        .ok (.ofString "string") w) ∧
    (let w := World.things
     w.bridge.heap.BoxOf ⟨"A"⟩ (.box 0) ∧
      ∃ e w', (Reentry.upTo 1 .outermost).binary .concat (.box 2) (.box 0) none none w =
        .raised (.fault 0 e) w' ∧ e.message = "userdata has been destructed") := by
  refine ⟨⟨⟨0, rfl, rfl⟩, ?_⟩, ⟨0, rfl, rfl⟩, ?_⟩
  · rfl
  · exact ⟨_, _, rfl, rfl⟩

end ScriptHost
