import ScriptHost.Proofs.Party.References
import ScriptHost.Proofs.Party.Running

/-! Collections, as one side of a session sees them: what is in use does not depend on the others,
and finalizations tell only the party's objects. -/

namespace ScriptHost

open Act (Mirrors)

variable {p : Party}

/-- What looks at the whole host may rely on both sides being apart. -/
theorem Act.Mirrors.withHost {α : Type} [Sided α] {f g : Host → Act α}
    (hf : ∀ h : Host, h.Owned p → h.Owned p.others → Mirrors p (f h) (g (h.view p))) :
    Mirrors p (Act.host >>= f) (Act.host >>= g) :=
  fun w hw => hf w.host hw.host hw.others w hw

namespace Request

theorem mirrors_reentry : reentry.Mirrors p := .full

end Request

namespace Host

theorem change_finalized : Change p (fun x => { x with finalized := x.finalized + 1 })
    (fun x => { x with finalized := x.finalized + 1 }) :=
  ⟨fun _ => rfl, fun _ => rfl,
    fun _ hx => ⟨hx.definition, hx.properties, hx.connections, hx.lastWill⟩⟩

theorem change_lastWill {result : Except CallError Variant} (hr : Sided.Owned p result) :
    Change p (fun x => { x with lastWill := some result })
      (fun x => { x with lastWill := some (Sided.view p result) }) where
  id _ := rfl
  view x := by
    cases result <;> rfl
  owned x hx := by
    refine ⟨hx.definition, hx.properties, hx.connections, fun v hv => ?_⟩
    cases hv
    exact hr

end Host

namespace Collector

theorem mirrors_takeNext : Mirrors p takeNext takeNext := by
  refine .bind .heap fun h hh =>
    .bind (.modifyHeap (fun h => h.takeDoomed_view) fun _ hh => hh.takeDoomed) fun _ _ => ?_
  have owned : Sided.Owned p h.next? := by
    intro x hx
    obtain ⟨v, -, rfl⟩ := Option.map_eq_some_iff.mp hx
    refine ⟨trivial, fun y hy => ?_⟩
    obtain ⟨id, -, hy⟩ := Option.bind_eq_some_iff.mp hy
    exact hh.of_boxed? hy
  dsimp only [Sided.view]
  rw [Heap.next?_view]
  revert owned
  generalize h.next? = next?
  intro owned
  have done : Mirrors p (Pure.pure next? : Act _) (Pure.pure (Sided.view p next?)) := .pure owned
  cases next? with
  | none => exact done
  | some x =>
    obtain ⟨v, value?⟩ := x
    cases value? with
    | none => exact done
    | some value =>
      cases value with
      | object o =>
        have ho : p.object o = true := Variant.owned_object.mp ((owned _ rfl).2 _ rfl)
        exact .bind (.update ho Host.change_finalized) fun _ _ => done
      | _ => exact done

theorem mirrors_finalizeObject {o : ObjectId} (ho : p.object o = true) :
    Mirrors p (finalizeObject o) (finalizeObject o) := by
  refine .bind (Request.mirrors_reentry.override? .detached ho .gc (List.forall_mem_nil _))
    fun result hr => ?_
  cases result with
  | none => exact .pure trivial
  | some result => exact .update ho (Host.change_lastWill (hr _ rfl))

theorem mirrors_finalizeTable (id : Nat) : Mirrors p (finalizeTable id) (finalizeTable id) := by
  refine .bind .heap fun h _ => ?_
  have field := Heap.metaField_view (p := p) h (.table id) Metamethod.gc.name
  have ends (f : Value) : Mirrors p (do
      let hook := (← Act.bridge).hook?
      Act.modifyBridge fun b => { b with hook? := none }
      let _ ← (Request.reentry.call f [.table id]).attempt
      Act.modifyBridge fun b => { b with hook? := hook })
    (do
      let hook := (← Act.bridge).hook?
      Act.modifyBridge fun b => { b with hook? := none }
      let _ ← (Request.reentry.call (f.view p) [.table id]).attempt
      Act.modifyBridge fun b => { b with hook? := hook }) :=
    .bind .bridge fun b _ => .bind (.setHook none) fun _ _ =>
      .bind (Request.mirrors_reentry.call f [.table id]).attempt fun _ _ => .setHook b.hook?
  dsimp only [Sided.view]
  rw [Value.view_table] at field
  rw [field]
  cases h.metaField (.table id) Metamethod.gc.name with
  | nil => exact .pure trivial
  | _ => exact ends _

theorem mirrors_finalize {next? : Option (Value × Option Variant)}
    (owned : Sided.Owned p next?) :
    Mirrors p (finalize next?) (finalize (Sided.view p next?)) := by
  rcases next? with _ | ⟨v, _ | value⟩
  · exact .pure trivial
  · cases v with
    | table id => exact mirrors_finalizeTable id
    | _ => exact .pure trivial
  · cases value with
    | object o => exact mirrors_finalizeObject (Variant.owned_object.mp ((owned _ rfl).2 _ rfl))
    | _ =>
      cases v with
      | table id => exact mirrors_finalizeTable id
      | _ => exact .pure trivial

theorem mirrors_finalizeNext : Mirrors p finalizeNext finalizeNext :=
  .bind mirrors_takeNext fun _ owned => mirrors_finalize owned

theorem mirrors_finalizeMany (n : Nat) : Mirrors p (finalizeMany n) (finalizeMany n) := by
  induction n with
  | zero => exact .pure trivial
  | succ n ih => exact .bind mirrors_finalizeNext fun _ _ => ih

theorem mirrors_finalizeDoomed : Mirrors p finalizeDoomed finalizeDoomed := by
  refine .bind .heap fun h _ => ?_
  have same : (h.view p).upkeep.doomed.length = h.upkeep.doomed.length := List.length_map _
  dsimp only [Sided.view]
  rw [same]
  exact mirrors_finalizeMany _

theorem mirrors_condemn (held : List Reference) :
    Mirrors p (condemn held []) (condemn (Reference.seen p held) []) := by
  refine .bind .bridge fun b hb => .withHost fun host hh others => ?_
  dsimp only [Sided.view]
  have roots : (b.view p).roots (Reference.seen p held ++ (host.view p).references ++
        (b.view p).boxReferences) =
      (b.roots (held ++ host.references ++ b.boxReferences)).map (Value.view p) := by
    rw [Host.references_view hh others, Bridge.boxReferences_view,
      ← Reference.seen_of_own (Bridge.owned_boxReferences hb), ← Reference.seen_append,
      ← Reference.seen_append, Bridge.roots_view hb]
  rw [roots, List.append_nil, List.append_nil]
  generalize b.roots (held ++ host.references ++ b.boxReferences) = roots
  have heap : (b.view p).heap = b.heap.view p := rfl
  have awaiting : (b.view p).heap.finalizable = b.heap.finalizable.map (Value.view p) := rfl
  rw [awaiting, heap, Heap.reached_view, Value.outside_view, ← List.map_append, Heap.reached_view]
  exact .modifyHeap (fun h => h.condemn_view _ _) fun _ hh => hh.condemn _ _

theorem mirrors_cycle (held : List Reference) :
    Mirrors p (cycle held) (cycle (Reference.seen p held)) :=
  .bind mirrors_finalizeDoomed fun _ _ => .bind (mirrors_condemn held) fun _ _ =>
    mirrors_finalizeDoomed

theorem mirrors_collectOnce (held : List Reference) :
    Mirrors p (collectOnce held) (collectOnce (Reference.seen p held)) :=
  Request.mirrors_reentry.guard (.outside none (mirrors_cycle held))

theorem mirrors_collect (held : List Reference) :
    Mirrors p (collect held) (collect (Reference.seen p held)) := by
  refine .bind (mirrors_collectOnce held) fun result _ => ?_
  cases result with
  | ok _ => exact mirrors_collectOnce held
  | error e => exact .pure trivial

theorem mirrors_shutDown (held : List Reference) :
    Mirrors p (shutDown held) (shutDown (Reference.seen p held)) :=
  .bind (mirrors_collectOnce held) fun _ _ =>
    .bind (.modifyHeap (fun h => h.condemnAll_view) fun _ hh => hh.condemnAll) fun _ _ =>
      mirrors_finalizeDoomed

end Collector

end ScriptHost
