import ScriptHost.Proofs.Box.Structured
import ScriptHost.Proofs.Session.Hooks

/-! Methods that scripts fetch from boxes. What was fetched stays a function of the box, and calls
the method on what the box holds then, with the box in front of the arguments or without it. -/

namespace ScriptHost

open World (Later)

/-! ### Later moments -/

theorem World.Later.discipline : Act.Discipline Later where
  refl := .refl
  trans := .trans
  hooked _ _ := .of_functions rfl rfl
  recorded _ _ := .of_functions rfl rfl
  faulted _ _ := .of_functions rfl rfl

/-- One instruction leads to a later moment. -/
theorem Moment.Next.later {n : Nat} {m m' : Moment} (h : m.Next (Reentry.upTo n) m') :
    m.world.Later m'.world := by
  have step : Act.Composed World.Later (ScriptHost.step (Reentry.upTo n) m.innermost m.callers) :=
    Reentry.Composed.step n m.innermost m.callers
  have ends := step.ends World.Later.discipline m.world
  rw [h] at ends
  exact ends

/-- And so does a whole request, whatever it takes away. -/
theorem Step.later_act (held : List Reference) (request : Step) (w : World) :
    (request.act held w).Ends w.Later :=
  ends_act World.Later.discipline held request (fun hh => composed_act_later held hh) w

/-! ### Fetching -/

/-- The function is the method `m` of the box `b`. -/
def World.HasMethod (w : World) (b : Nat) (m : String) (f : ScriptFunction) : Prop :=
  w.bridge.heap.functions[f.address]? = some (.method b m)

/-- The value is an object that answers itself what is read from it. -/
def Host.AnswersReads (h : Host) (v : Variant) : Prop :=
  ∃ o, v = .object o ∧ (h.definition o).override? .index ≠ none

variable {w w₁ w₂ : World} {b : Nat} {v : Variant} {m : String} {key : Value} {f : ScriptFunction}

theorem Host.valueHasMethod_congr {h h' : Host} (he : h'.objects = h.objects) (v : Variant)
    (m : String) : h'.valueHasMethod v m = h.valueHasMethod v m := by
  cases v <;> first | rfl | rw [valueHasMethod, valueHasMethod, hasMethod, hasMethod,
    definition_congr he]

theorem Host.answersReads_congr {h h' : Host} (he : h'.objects = h.objects) (v : Variant) :
    h'.AnswersReads v ↔ h.AnswersReads v := by
  simp only [AnswersReads, definition_congr he]

theorem Act.hasMethod_newFunction (hf : Act.newFunction (.method b m) w = .ok (.function f) w₁) :
    w₁.HasMethod b m f := by
  have made : Act.newFunction (.method b m) w =
      .ok (.function ⟨w.bridge.id, w.bridge.heap.functions.size⟩)
        (w.withHeap (w.bridge.heap.newFunction (.method b m)).2) := rfl
  rw [made] at hf
  cases hf
  exact Array.getElem?_push_size

namespace Box

theorem readTyped_method (hk : w.bridge.heap.decode w.bridge.id key = .string m)
    (hm : w.host.valueHasMethod v m = true) :
    readTyped b v key w = Act.newFunction (.method b m) w := by
  rw [readTyped, Act.bind_of_ok (Act.decode_eq key w), Act.bind_of_ok (Act.host_eq w), hk]
  dsimp only
  rw [if_pos hm]

/-- Of an object a method may be hidden. -/
theorem readObject_method {r : Reentry} {o : ObjectId}
    (hd : (w.host.definition o).override? .index = none)
    (hk : w.bridge.heap.decode w.bridge.id key = .string m) (hm : w.host.hasMethod o m = true) :
    readObject r b o key w = .ok .nil w ∨
      readObject r b o key w = Act.newFunction (.method b m) w := by
  rw [readObject_of_none r b hd, hk, readField_string, if_pos hm]
  split
  · exact .inl rfl
  · exact .inr rfl

end Box

namespace Reentry

variable {r : Reentry} {of? : Option Origin}

/-- A box that answers reads gives its function for a method, if it gives any. -/
theorem hasMethod_of_handleBox (hk : w.bridge.heap.decode w.bridge.id key = .string m)
    (hm : w.host.valueHasMethod v m = true) (ho : ¬ w.host.AnswersReads v)
    (hr : r.handleBox .index v [.box b, key] w = .ok (.function f) w₁) : w₁.HasMethod b m f := by
  by_cases object : ∃ o, v = .object o
  · obtain ⟨o, rfl⟩ := object
    have silent : (w.host.definition o).override? .index = none :=
      not_not.mp fun h => ho ⟨o, rfl, h⟩
    replace hr : Box.readObject r b o key w = .ok (.function f) w₁ := hr
    rcases Box.readObject_method silent hk hm with hidden | read
    · rw [hidden] at hr
      cases hr
    · exact Act.hasMethod_newFunction (read.symm.trans hr)
  · have typed : r.handleBox .index v [.box b, key] = Box.readTyped b v key := by
      cases v <;> first | rfl | exact absurd ⟨_, rfl⟩ object
    rw [typed, Box.readTyped_method hk hm] at hr
    exact Act.hasMethod_newFunction hr

theorem answers_of_index_ok {x : Value} (hv : w.bridge.heap.boxed? b = some v)
    (hr : r.index (.box b) key of? w = .ok x w₁) : v.answers .index = true := by
  cases ha : v.answers .index with
  | true => rfl
  | false =>
    have silent : w.bridge.heap.handler? .index (.box b) = none := by
      rw [Heap.handler?_box hv, ha]
      exact if_neg Bool.false_ne_true
    rw [r.index_of_no_handler silent] at hr
    cases hr

theorem hasMethod_of_index (hv : w.bridge.heap.boxed? b = some v)
    (hk : w.bridge.heap.decode w.bridge.id key = .string m)
    (hm : w.host.valueHasMethod v m = true) (ho : ¬ w.host.AnswersReads v)
    (hr : r.index (.box b) key of? w = .ok (.function f) w₁) : w₁.HasMethod b m f := by
  rw [r.index_box hv (answers_of_index_ok hv hr)] at hr
  have framed := Act.framed_outside (r.site.callee?.map Origin.name)
    (r.inside.handleBox .index v [.box b, key]) w
  rw [show Act.outside _ _ w = _ from hr] at framed
  cases framed with
  | @ok _ u u' _ h₁ hx h₃ =>
    have fetched : u'.HasMethod b m f := by
      refine hasMethod_of_handleBox ?_ ?_ ?_ hx
      · rw [h₁.heap, h₁.id, hk]
      · rw [Host.valueHasMethod_congr h₁.objects, hm]
      · rwa [Host.answersReads_congr h₁.objects]
    unfold World.HasMethod at fetched ⊢
    rwa [h₃.heap]

end Reentry

theorem World.Later.hasMethod (h : w.Later w₁) (hf : w.HasMethod b m f) : w₁.HasMethod b m f :=
  h.function? hf

/-! ### Calling -/

/-- One call of the method `m` of the value that is in a box, and its result for the script. From
a box that has been emptied there is none. -/
def Reentry.callHeld (r : Reentry) (held? : Option Variant) (m : String) (args : List Variant) :
    Act (List Value) :=
  match held? with
  | some v => do returned m (← v.invoke r .attached m args)
  | none => Act.throw (.runtime ("'" ++ m ++ "' called on a released value"))

theorem Reentry.runMethod_eq_callHeld (r : Reentry) (b : Nat) (m : String) (args : List Value)
    (w : World) : r.runMethod b m args w = r.callHeld (w.bridge.heap.boxed? b) m
      ((Operation.ownArgs b args).map (w.bridge.heap.decode w.bridge.id)) w := by
  cases hb : w.bridge.heap.boxed? b with
  | some v => exact r.runMethod_of_boxed hb m args
  | none =>
    unfold runMethod
    rw [Act.bind_of_ok (Act.heap_eq w), hb]
    rfl

/-- The method of a box does not get the box as an argument. -/
theorem World.HasMethod.does (hf : w.HasMethod b m f) (args : List Value) :
    w.Does (.function f) args fun r => r.callHeld (w.bridge.heap.boxed? b) m
      ((Operation.ownArgs b args).map (w.bridge.heap.decode w.bridge.id)) := by
  refine (Target.Runs.outside (.method b m)).does (fun r => r.target_outside hf nofun args) ?_
  intro r w₁ h₁
  rw [← h₁.heap, ← h₁.id]
  exact r.runMethod_eq_callHeld b m args w₁

namespace Operation

theorem ownArgs_self (b : Nat) (args : List Value) : ownArgs b (.box b :: args) = args :=
  if_pos rfl

/-- Only the box itself is no argument, and only in front. -/
theorem ownArgs_eq_self {args : List Value} (h : args.head? ≠ some (.box b)) :
    ownArgs b args = args := by
  cases args with
  | nil => rfl
  | cons x rest =>
    cases x with
    | box c => exact if_neg fun hc => h (congrArg (fun c => some (Value.box c)) hc)
    | _ => rfl

end Operation

/-- Both ways to call a method agree. A function that was read from a box under the name of a
method is, at every later moment, one call of that method on what the box holds then, with all
arguments; the box in front of them is left out once, any other box is not. Objects that answer
themselves what is read from them may give other functions. -/
theorem method_calls_agree :
    (∀ (n : Nat) (t t' : Moment), t.Next (Reentry.upTo n) t' → t.world.Later t'.world) ∧
    (∀ (held : List Reference) (request : Step) (w : World),
      (request.act held w).Ends w.Later) ∧
    ∀ (r : Reentry) (of? : Option Origin) (b : Nat) (v : Variant) (key : Value) (m : String)
      (f : ScriptFunction) (w w₁ : World),
      w.bridge.heap.boxed? b = some v → w.bridge.heap.decode w.bridge.id key = .string m →
      w.host.valueHasMethod v m = true → ¬ w.host.AnswersReads v →
      r.index (.box b) key of? w = .ok (.function f) w₁ →
      ∀ w₂, w₁.Later w₂ → ∀ args : List Value,
        let heap := w₂.bridge.heap
        let passed := args.map (heap.decode w₂.bridge.id)
        w₂.Does (.function f) (.box b :: args) (·.callHeld (heap.boxed? b) m passed) ∧
        (args.head? ≠ some (.box b) →
          w₂.Does (.function f) args (·.callHeld (heap.boxed? b) m passed)) ∧
        ∀ c x, c ≠ b → heap.boxed? c = some x →
          w₂.Does (.function f) (.box c :: args) (·.callHeld (heap.boxed? b) m (x :: passed)) := by
  refine ⟨fun n t t' h => h.later, Step.later_act, ?_⟩
  intro r of? b v key m f w w₁ hv hk hm ho hr w₂ later args heap passed
  have fetched : w₂.HasMethod b m f := later.hasMethod (Reentry.hasMethod_of_index hv hk hm ho hr)
  refine ⟨?_, fun other => ?_, fun c x hc hx => ?_⟩
  · have does := fetched.does (.box b :: args)
    rwa [Operation.ownArgs_self] at does
  · have does := fetched.does args
    rwa [Operation.ownArgs_eq_self other] at does
  · have other : (Value.box c :: args).head? ≠ some (.box b) := by
      intro h
      cases h
      exact hc rfl
    have does := fetched.does (.box c :: args)
    rwa [Operation.ownArgs_eq_self other, List.map_cons, Heap.decode_box _ hx] at does

/-! ### An object in two boxes -/

/-- A world with an object that counts the arguments of its method, in boxes 0 and 1. -/
def World.counting (overrides : List (Metamethod × Behaviour)) : World where
  host := ⟨[.new ⟨"C"⟩ (.full "Thing" [] false [("m", .count)] none overrides)], [], []⟩
  bridge :=
    let b := Bridge.fresh "main" 1 .permissive false
    let h := (b.heap.newBox ⟨.object ⟨"C"⟩, rfl⟩).2
    { b with heap := (h.newBox ⟨.object ⟨"C"⟩, rfl⟩).2 }

/-- The second box of the object is an argument, the first one is not. -/
theorem method_calls_agree_counting :
    Moment.making.Next (Reentry.upTo 0) .made ∧
    Moment.making.world.Later Moment.made.world ∧
    let w := World.counting []
    let r := Reentry.upTo 1 .outermost
    w.bridge.heap.boxed? 0 = some (.object ⟨"C"⟩) ∧
    w.bridge.heap.decode w.bridge.id (.ofString "m") = .string "m" ∧
    w.host.valueHasMethod (.object ⟨"C"⟩) "m" = true ∧
    ¬ w.host.AnswersReads (.object ⟨"C"⟩) ∧ ∃ f w₁ w₂,
      r.index (.box 0) (.ofString "m") none w = .ok (.function f) w₁ ∧ w₁.Later w₂ ∧
      w₂.bridge.mode = .restrictive ∧ [Value.nil].head? ≠ some (.box 0) ∧ 1 ≠ 0 ∧
      w₂.bridge.heap.boxed? 1 = some (.object ⟨"C"⟩) ∧
      w₂.Does (.function f) [.box 0, .nil] (·.callHeld (some (.object ⟨"C"⟩)) "m" [.nil]) ∧
      w₂.Does (.function f) [.nil] (·.callHeld (some (.object ⟨"C"⟩)) "m" [.nil]) ∧
      w₂.Does (.function f) [.box 1, .nil]
        (·.callHeld (some (.object ⟨"C"⟩)) "m" [.object ⟨"C"⟩, .nil]) := by
  obtain ⟨steps, -, agree⟩ := method_calls_agree
  have next : Moment.making.Next (Reentry.upTo 0) .made := rfl
  refine ⟨next, steps 0 _ _ next, ?_⟩
  intro w r
  have silent : ¬ w.host.AnswersReads (.object ⟨"C"⟩) := by
    rintro ⟨o, ho, answers⟩
    cases ho
    exact answers rfl
  let w₁ : World := w.withHeap (w.bridge.heap.newFunction (.method 0 "m")).2
  let w₂ : World := { w₁ with bridge := { w₁.bridge with mode := .restrictive } }
  have read : r.index (.box 0) (.ofString "m") none w = .ok (.function ⟨1, 8⟩) w₁ := rfl
  have later : w₁.Later w₂ := .of_functions rfl rfl
  have first : [Value.nil].head? ≠ some (.box 0) := nofun
  have other : 1 ≠ 0 := Nat.one_ne_zero
  have boxed : w₂.bridge.heap.boxed? 1 = some (.object ⟨"C"⟩) := rfl
  have fetched := agree r none 0 _ _ "m" _ w w₁ rfl rfl rfl silent read w₂ later
  obtain ⟨withBox, without, withOther⟩ := fetched [.nil]
  exact ⟨rfl, rfl, rfl, silent, _, w₁, w₂, read, later, rfl, first, other, boxed, withBox,
    without first, withOther 1 _ other boxed⟩

/-- Where the object answers itself, what was read may be a function that tells the box in front of
its arguments from the arguments. -/
theorem answered_reads_may_differ :
    let w := World.counting [(.index, .give (.callable (.script ⟨1, 2⟩)))]
    let apply := Reentry.applyValue (Reentry.upTo 1) .outermost
    w.bridge.heap.boxed? 0 = some (.object ⟨"C"⟩) ∧
    w.host.valueHasMethod (.object ⟨"C"⟩) "m" = true ∧ ∃ w₁,
      (Reentry.upTo 1 .outermost).index (.box 0) (.ofString "m") none w =
        .ok (.function ⟨1, 2⟩) w₁ ∧
      apply (.function ⟨1, 2⟩) [.box 0, .int 1] w₁ = .ok [.ofString "userdata"] w₁ ∧
      apply (.function ⟨1, 2⟩) [.int 1] w₁ = .ok [.ofString "number"] w₁ :=
  ⟨rfl, rfl, _, rfl, rfl, rfl⟩

end ScriptHost
