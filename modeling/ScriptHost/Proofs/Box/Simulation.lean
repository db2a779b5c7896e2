import ScriptHost.Proofs.Box.Structured
import ScriptHost.Proofs.Codec.Storable
import ScriptHost.Proofs.Machine.Sparing

/-! A box of a structured value against the value itself. A script that reads the box, writes
it, and calls functions fetched from it sees what the host would see of one value of its own;
the box holds what that value has become, and no other box is touched. -/

namespace ScriptHost

variable {beyond : Site → Reentry} {b : Nat} {v : Variant} {w w' : World}

/-! ### What is kept -/

namespace World

/-- The interpreter has all that it had, but perhaps something else in box `b`, and the host
has the same objects and functions. -/
structure Spares (b : Nat) (w w' : World) : Prop where
  id : w'.bridge.id = w.bridge.id
  heap : w.bridge.heap.Spares b w'.bridge.heap
  objects : w'.host.objects = w.host.objects
  natives : w'.host.natives = w.host.natives

/-- Whatever was done, box `b` holds what it did, and functions are where they were. -/
structure Apart (b : Nat) (w w' : World) : Prop where
  id : w'.bridge.id = w.bridge.id
  boxed? : w'.bridge.heap.boxed? b = w.bridge.heap.boxed? b
  functions : w.bridge.heap.functions.size ≤ w'.bridge.heap.functions.size
  function? : ∀ a < w.bridge.heap.functions.size,
    w'.bridge.heap.functions[a]? = w.bridge.heap.functions[a]?

namespace Spares

theorem refl (w : World) : w.Spares b w := ⟨rfl, .refl _, rfl, rfl⟩

theorem trans {w'' : World} (h : w.Spares b w') (h' : w'.Spares b w'') : w.Spares b w'' :=
  ⟨h'.id.trans h.id, h.heap.trans h'.heap, h'.objects.trans h.objects,
    h'.natives.trans h.natives⟩

theorem of_heap {g : Heap} (h : w.bridge.heap.Spares b g) : w.Spares b (w.withHeap g) :=
  ⟨rfl, h, rfl, rfl⟩

theorem of_shown (h : w.Shown w') : w.Spares b w' :=
  ⟨h.id, h.heap ▸ .refl _, h.objects, h.natives⟩

theorem apart {c : Nat} (h : w.Spares b w') (hc : c < w.bridge.heap.boxes.size) (hn : c ≠ b) :
    w.Apart c w' :=
  ⟨h.id, h.heap.boxed? hc hn, h.heap.functions, h.heap.function?⟩

end Spares

end World

theorem Reply.deliver_spares (b c : Nat) (reply : Reply) (w : World) :
    (reply.deliver b w).Ends (w.Spares c) := by
  have thrown {α : Type} (e : ScriptError) (w : World) :
      ((Act.throw e : Act α) w).Ends (w.Spares c) :=
    .of_heap (.newFault _ (e.withTraceback Act.traceback))
  cases reply with
  | method name => exact .of_heap (.newFunction _ _)
  | failed e => exact thrown e w
  | value v =>
    have stored := (Heap.grows_encode w.bridge.id v w.bridge.heap).spares c
    rw [deliver, Act.push, Act.bind_of_ok (Act.encode_eq v w)]
    cases (w.bridge.heap.encode w.bridge.id v).1 with
    | ok x => exact .of_heap stored
    | error refusal =>
      refine (thrown _ _).weaken fun w' hw' => ?_
      exact (World.Spares.of_heap stored).trans hw'

namespace Heap

variable {h : Heap} {key value : Variant}

theorem value_set? (x : Boxed) (key value : Variant) :
    (x.set? key value).map Boxed.value = x.value.set? key value := by
  unfold Boxed.set?
  split
  next hs => exact hs.symm
  next hs => exact hs.symm

theorem boxed?_writeBox (hb : h.boxed? b = some v) (key value : Variant) :
    (h.writeBox b key value).boxed? b = some (v.after (.write key value)) := by
  have inside := lt_of_boxed? hb
  obtain ⟨x, hx, rfl⟩ := Option.map_eq_some_iff.mp hb
  have written := value_set? x key value
  unfold writeBox
  rw [hx, Option.bind_some]
  cases hs : x.set? key value with
  | none =>
    rw [hs, Option.map_none] at written
    dsimp only [Variant.after]
    rw [hb, ← written]
    rfl
  | some y =>
    rw [hs, Option.map_some] at written
    dsimp only [Variant.after]
    rw [← written]
    simp [boxed?, box?, inside]

end Heap

namespace Variant

/-- An access that does not write changes no box at all. -/
theorem respond_spares {a : Access} (b c : Nat) (v : Variant) (hc : a.isWrite = true → c = b)
    (w : World) : (v.respond b a w).Ends (w.Spares c) := by
  cases a with
  | read key =>
    rw [respond, bind_pure_comp]
    exact Outcome.ends_map (Reply.deliver_spares b c _ w)
  | call method args =>
    rw [respond, bind_pure_comp]
    exact Outcome.ends_map (Reply.deliver_spares b c _ w)
  | write key value =>
    obtain rfl := hc rfl
    exact .of_heap (.writeBox _ _ _ _)

theorem respond_holds (hb : w.bridge.heap.boxed? b = some v) (a : Access) :
    (v.respond b a w).Ends fun w' => w'.bridge.heap.boxed? b = some (v.after a) := by
  have kept (hn : a.isWrite = false) :
      (v.respond b a w).Ends fun w' => w'.bridge.heap.boxed? b = some v := by
    have spared := respond_spares b (b + 1) v (a := a) (by simp [hn]) w
    refine spared.weaken fun w' hw' => ?_
    exact (hw'.heap.boxed? (Heap.lt_of_boxed? hb) (Nat.ne_of_lt b.lt_succ_self)).trans hb
  cases a with
  | read key => exact kept rfl
  | call method args => exact kept rfl
  | write key value => exact Heap.boxed?_writeBox hb key value

end Variant

namespace Operation

variable {p : Operation} {a : Access}

theorem run_spares (hv : v.isStructured = true) (hb : w.bridge.heap.boxed? b = some v)
    (hp : p.Means b w a) : (p.run beyond b w).Ends (w.Spares b) := by
  obtain ⟨name, he⟩ := run_eq beyond hv hb hp
  rw [he]
  refine Act.outside_ends (fun h hw => hw.trans (.of_shown h))
    (fun w' e hw => hw.trans (.of_heap (.newFault _ e))) (fun w' hw => ?_) (.refl w) name
  exact (Variant.respond_spares b b v (fun _ => rfl) w').weaken fun w'' h => hw.trans h

/-- What the box holds after an operation. A hook may have stopped it before it did anything. -/
theorem run_holds (beyond : Site → Reentry) (hv : v.isStructured = true)
    (hb : w.bridge.heap.boxed? b = some v) (hp : p.Means b w a) : (p.run beyond b w).Ends fun w' =>
      w'.bridge.heap.boxed? b = some v ∨ w'.bridge.heap.boxed? b = some (v.after a) := by
  obtain ⟨name, he⟩ := run_eq beyond hv hb hp
  have framed := Act.framed_outside name (v.respond b a) w
  rw [← he] at framed
  generalize p.run beyond b w = result at framed
  have inside {w₁ : World} (h₁ : w.Shown w₁) := Variant.respond_holds (h₁.heap ▸ hb) a
  cases framed with
  | before _ h₁ => exact .inl (h₁.heap ▸ hb)
  | raised h₁ hx =>
    have holds := inside h₁
    rw [hx] at holds
    exact .inr holds
  | exhausted => trivial
  | ok h₁ hx h₃ =>
    have holds := inside h₁
    rw [hx] at holds
    exact .inr (h₃.heap ▸ holds)
  | after h₁ hx _ h₃ =>
    have holds := inside h₁
    rw [hx] at holds
    exact .inr (h₃.heap ▸ holds)

theorem holds_of_run {rs : List Value} (hv : v.isStructured = true)
    (hb : w.bridge.heap.boxed? b = some v) (hp : p.Means b w a)
    (hr : p.run beyond b w = .ok rs w') : w'.bridge.heap.boxed? b = some (v.after a) := by
  have observed := observed_run beyond hv hb hp
  have holds := Variant.respond_holds hb a
  rw [hr] at observed
  obtain ⟨w₁, hx, h₁⟩ := observed.ok_inv
  rw [hx] at holds
  exact h₁.heap ▸ holds

end Operation

/-! ### Runs -/

/-- A run from `w` to `w'` in which the content of box `b` is accessed so and so. Between two
accesses anything may be done that leaves the box alone. An operation that a hook stops
counts if the box shows it. -/
inductive Course (beyond : Site → Reentry) (b : Nat) (w : World) : List Access → World → Prop
  | start : Course beyond b w [] w
  | done {as : List Access} {w₁ w₂ : World} {p : Operation} {a : Access} {rs : List Value} :
    Course beyond b w as w₁ → p.Means b w₁ a → p.run beyond b w₁ = .ok rs w₂ →
    Course beyond b w (as ++ [a]) w₂
  | stopped {as : List Access} {w₁ w₂ : World} {p : Operation} {a : Access} {e : Value} :
    Course beyond b w as w₁ → p.Means b w₁ a → p.run beyond b w₁ = .raised e w₂ →
    w₂.bridge.heap.boxed? b ≠ w₁.bridge.heap.boxed? b → Course beyond b w (as ++ [a]) w₂
  | other {as : List Access} {w₁ w₂ : World} :
    Course beyond b w as w₁ → w₁.Apart b w₂ → Course beyond b w as w₂

/-- The box holds what its first content has become. -/
theorem Course.holds {as : List Access} (hc : Course beyond b w as w')
    (hv : v.isStructured = true) (hb : w.bridge.heap.boxed? b = some v) :
    w'.bridge.heap.boxed? b = some (as.foldl Variant.after v) := by
  induction hc with
  | start => exact hb
  | @done as w₁ w₂ p a rs _ hp hr ih =>
    rw [List.foldl_append]
    exact Operation.holds_of_run (Variant.kind_foldl_after hv as).2 ih hp hr
  | @stopped as w₁ w₂ p a e _ hp hr hn ih =>
    have holds := Operation.run_holds beyond (Variant.kind_foldl_after hv as).2 ih hp
    rw [hr] at holds
    rw [List.foldl_append]
    rcases holds with same | after
    · exact absurd (same.trans ih.symm) hn
    · exact after
  | other _ ha ih => exact ha.boxed?.trans ih

theorem Course.run_spares {as : List Access} (hc : Course beyond b w as w')
    (hv : v.isStructured = true) (hb : w.bridge.heap.boxed? b = some v) {p : Operation}
    {a : Access} (hp : p.Means b w' a) : (p.run beyond b w').Ends (w'.Spares b) :=
  Operation.run_spares (Variant.kind_foldl_after hv as).2 (hc.holds hv hb) hp

/-- Functions fetched from boxes stay what they are. -/
theorem Course.function? {as : List Access} (hc : Course beyond b w as w')
    (hv : v.isStructured = true) (hb : w.bridge.heap.boxed? b = some v) :
    w.bridge.heap.functions.size ≤ w'.bridge.heap.functions.size ∧
      ∀ a < w.bridge.heap.functions.size,
        w'.bridge.heap.functions[a]? = w.bridge.heap.functions[a]? := by
  have further {h g k : Heap} (hg : h.functions.size ≤ g.functions.size ∧
      ∀ a < h.functions.size, g.functions[a]? = h.functions[a]?)
      (hs : g.functions.size ≤ k.functions.size)
      (hk : ∀ a < g.functions.size, k.functions[a]? = g.functions[a]?) :
      h.functions.size ≤ k.functions.size ∧
        ∀ a < h.functions.size, k.functions[a]? = h.functions[a]? := by
    refine ⟨Nat.le_trans hg.1 hs, fun a ha => ?_⟩
    exact (hk a (Nat.lt_of_lt_of_le ha hg.1)).trans (hg.2 a ha)
  induction hc with
  | start => exact ⟨Nat.le_refl _, fun _ _ => rfl⟩
  | @done as w₁ w₂ p a rs hc hp hr ih =>
    have spared := hc.run_spares hv hb hp
    rw [hr] at spared
    exact further ih spared.heap.functions spared.heap.function?
  | @stopped as w₁ w₂ p a e hc hp hr _ ih =>
    have spared := hc.run_spares hv hb hp
    rw [hr] at spared
    exact further ih spared.heap.functions spared.heap.function?
  | other _ ha ih => exact further ih ha.functions ha.function?

/-- A structured value in a box is, to scripts, one value of the host. -/
theorem boxes_simulate_values (beyond : Site → Reentry) (v : Variant)
    (hv : v.isStructured = true) :
    (∀ w : World, ∃ w', Act.push v w = .ok (.box w.bridge.heap.boxes.size) w' ∧
      w'.bridge.heap.boxed? w.bridge.heap.boxes.size = some v ∧ ∀ c, w.Spares c w') ∧
    ∀ (b : Nat) (w w' : World) (as : List Access), w.bridge.heap.boxed? b = some v →
      Course beyond b w as w' →
      let now := as.foldl Variant.after v
      w'.bridge.heap.decode w'.bridge.id (.box b) = now ∧ now.kind = v.kind ∧
      (∀ a < w.bridge.heap.functions.size,
        w'.bridge.heap.functions[a]? = w.bridge.heap.functions[a]?) ∧
      ∀ (p : Operation) (a : Access), p.Means b w' a →
        (now.respond b a w').Observed w'.stop? (p.run beyond b w') ∧
        (p.run beyond b w').Ends fun w'' => w'.Spares b w'' ∧
          ∀ c < w'.bridge.heap.boxes.size, c ≠ b → w'.Apart c w'' := by
  constructor
  · intro w
    have boxed := Variant.isBoxed_of_isStructured hv
    have stored : w.bridge.heap.encode w.bridge.id v = _ := Heap.encode_boxed boxed w.bridge.heap
    refine ⟨_, Act.push_of_encode stored, Heap.boxed?_newBox _ _, fun c => ?_⟩
    exact .of_heap ((Heap.Grows.newBox _ _).spares _)
  · intro b w w' as hb hc now
    have holds := hc.holds hv hb
    obtain ⟨kind, structured⟩ := Variant.kind_foldl_after hv as
    refine ⟨Heap.decode_box _ holds, kind, (hc.function? hv hb).2, fun p a hp => ?_⟩
    refine ⟨Operation.observed_run beyond structured holds hp, ?_⟩
    refine (hc.run_spares hv hb hp).weaken fun w'' spared => ?_
    exact ⟨spared, fun c hc hn => spared.apart hc hn⟩

/-- The world with a vector in box 0, from which a method has been fetched. -/
def World.vector : World where
  host := default
  bridge :=
    let h := (Heap.initial.newBox ⟨.vector2 ⟨1, 2⟩, rfl⟩).2
    let h := (h.newFunction (.method 0 "length_squared")).2
    ⟨"main", 1, h, .restrictive, none, false, false, []⟩

/-- The function sees what was written after it was fetched. -/
theorem boxes_simulate_values_vector :
    (Variant.vector2 ⟨1, 2⟩).isStructured = true ∧ ∃ w',
      Course (Reentry.upTo 1) 0 World.vector [.write (.string "x") (.float 5)] w' ∧
      w'.bridge.heap.decode 1 (.box 0) = .vector2 ⟨5, 2⟩ ∧
      (Variant.respond 0 (.vector2 ⟨5, 2⟩) (.call "length_squared" []) w').Observed none
        ((Operation.call .outermost ⟨1, 0⟩ [.box 0]).run (Reentry.upTo 1) 0 w') ∧
      Variant.respond 0 (.vector2 ⟨5, 2⟩) (.call "length_squared" []) w' =
        .ok [.float (Vector2.lengthSquared ⟨5, 2⟩)] w' := by
  have simulates :=
    (boxes_simulate_values (Reentry.upTo 1) (.vector2 ⟨1, 2⟩) rfl).2 0 World.vector
  let assign : Operation := .write .outermost (.ofString "x") (.float 5) none
  have course : Course (Reentry.upTo 1) 0 World.vector [.write (.string "x") (.float 5)]
      (World.vector.withHeap
        (World.vector.bridge.heap.writeBox 0 (.string "x") (.float 5))) :=
    .done (p := assign) .start (.write _ _ _ _) rfl
  obtain ⟨decoded, -, -, operations⟩ := simulates _ _ rfl course
  have called := (operations (.call .outermost ⟨1, 0⟩ [.box 0]) (.call "length_squared" [])
    (.call _ _ _ rfl)).1
  exact ⟨rfl, _, course, decoded, called, rfl⟩

end ScriptHost
