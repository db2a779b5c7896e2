import ScriptHost.Proofs.Party.Acts
import ScriptHost.Proofs.Party.InUse

/-! What holds on to objects and functions, as one side of a session sees it: of all references the
party sees those to what is its own, and these come from its own values alone. -/

namespace ScriptHost

variable {p : Party}

/-! ### References in values -/

def Reference.view (p : Party) : Reference → Reference
  | object o => object o
  | function f => function (f.view p)

/-- Whether what is referred to belongs to the party. -/
def Reference.own (p : Party) : Reference → Bool
  | object o => p.object o
  | function f => p.interpreter f.owner

mutual

theorem Variant.references_view (v : Variant) :
    (v.view p).references = v.references.map (Reference.view p) := by
  cases v with
  | array items =>
    simp only [Variant.view, Variant.references]
    exact Variant.listReferences_view items
  | dictionary es =>
    simp only [Variant.view, Variant.references]
    exact Variant.entriesReferences_view es
  | callable c =>
    simp only [Variant.view, Variant.references]
    exact Callable.references_view c
  | _ => rfl
termination_by structural v

theorem Variant.listReferences_view (vs : List Variant) :
    Variant.listReferences (Variant.listView p vs) =
      (Variant.listReferences vs).map (Reference.view p) := by
  cases vs with
  | nil => rfl
  | cons v rest =>
    simp only [Variant.listView, Variant.listReferences, List.map_append]
    rw [Variant.references_view v, Variant.listReferences_view rest]
termination_by structural vs

theorem Variant.entriesReferences_view (es : List (Variant × Variant)) :
    Variant.entriesReferences (Variant.entriesView p es) =
      (Variant.entriesReferences es).map (Reference.view p) := by
  cases es with
  | nil => rfl
  | cons e rest =>
    simp only [Variant.entriesView, Variant.entriesReferences, List.map_append]
    rw [Variant.entryReferences_view e, Variant.entriesReferences_view rest]
termination_by structural es

theorem Variant.entryReferences_view (e : Variant × Variant) :
    Variant.entryReferences (Variant.entryView p e) =
      (Variant.entryReferences e).map (Reference.view p) := by
  cases e with
  | mk k v =>
    simp only [Variant.entryView, Variant.entryReferences, List.map_append]
    rw [Variant.references_view k, Variant.references_view v]
termination_by structural e

theorem Callable.references_view (c : Callable) :
    (c.view p).references = c.references.map (Reference.view p) := by
  cases c with
  | bound target extra placement =>
    simp only [Callable.view, Callable.references, List.map_append]
    rw [Callable.references_view target, Variant.listReferences_view extra]
  | _ => rfl
termination_by structural c

end

mutual

theorem Variant.owned_references (v : Variant) (hv : v.Owned p) :
    ∀ x ∈ v.references, x.own p = true := by
  cases v with
  | array items =>
    rw [Variant.Owned] at hv
    exact Variant.owned_listReferences items hv
  | dictionary es =>
    rw [Variant.Owned] at hv
    exact Variant.owned_entriesReferences es hv
  | object o => exact List.forall_mem_singleton.mpr (Variant.owned_object.mp hv)
  | signal s => exact List.forall_mem_singleton.mpr (Variant.owned_signal.mp hv)
  | callable c => exact Callable.owned_references c (Variant.owned_callable.mp hv)
  | _ => exact List.forall_mem_nil _
termination_by structural v

theorem Variant.owned_listReferences (vs : List Variant) (hv : Variant.ListOwned p vs) :
    ∀ x ∈ Variant.listReferences vs, x.own p = true := by
  cases vs with
  | nil => exact List.forall_mem_nil _
  | cons v rest =>
    rw [Variant.ListOwned] at hv
    exact List.forall_mem_append.mpr
      ⟨Variant.owned_references v hv.1, Variant.owned_listReferences rest hv.2⟩
termination_by structural vs

theorem Variant.owned_entriesReferences (es : List (Variant × Variant))
    (he : Variant.EntriesOwned p es) : ∀ x ∈ Variant.entriesReferences es, x.own p = true := by
  cases es with
  | nil => exact List.forall_mem_nil _
  | cons e rest =>
    rw [Variant.EntriesOwned] at he
    exact List.forall_mem_append.mpr
      ⟨Variant.owned_entryReferences e he.1, Variant.owned_entriesReferences rest he.2⟩
termination_by structural es

theorem Variant.owned_entryReferences (e : Variant × Variant) (he : Variant.EntryOwned p e) :
    ∀ x ∈ Variant.entryReferences e, x.own p = true := by
  cases e with
  | mk k v =>
    rw [Variant.EntryOwned] at he
    exact List.forall_mem_append.mpr
      ⟨Variant.owned_references k he.1, Variant.owned_references v he.2⟩
termination_by structural e

theorem Callable.owned_references (c : Callable) (hc : c.Owned p) :
    ∀ x ∈ c.references, x.own p = true := by
  cases c with
  | method o name => exact List.forall_mem_singleton.mpr (Callable.owned_method.mp hc)
  | native f => exact List.forall_mem_nil _
  | script f => exact List.forall_mem_singleton.mpr (Callable.owned_script.mp hc)
  | bound target extra placement =>
    rw [Callable.Owned] at hc
    exact List.forall_mem_append.mpr
      ⟨Callable.owned_references target hc.1, Variant.owned_listReferences extra hc.2⟩
termination_by structural c

end

/-! ### References that the party sees -/

namespace Reference

/-- The references to what belongs to the party, as it sees them. -/
def seen (p : Party) (xs : List Reference) : List Reference := (xs.filter (own p)).map (view p)

theorem own_others (x : Reference) : x.own p.others = !x.own p := by cases x <;> rfl

theorem seen_append (xs ys : List Reference) : seen p (xs ++ ys) = seen p xs ++ seen p ys := by
  rw [seen, List.filter_append, List.map_append, seen, seen]

theorem seen_of_own {xs : List Reference} (h : ∀ x ∈ xs, x.own p = true) :
    seen p xs = xs.map (view p) := by
  rw [seen, List.filter_eq_self.mpr h]

theorem seen_of_others {xs : List Reference} (h : ∀ x ∈ xs, x.own p.others = true) :
    seen p xs = [] := by
  rw [seen, List.map_eq_nil_iff, List.filter_eq_nil_iff]
  intro x hx
  have other := h x hx
  rw [own_others] at other
  simpa using other

/-- Among things of both sides, the party sees the references of its own. -/
theorem seen_flatMap {α β : Type} {xs : List α} {refs : α → List Reference}
    {refs' : β → List Reference} {c : α → Bool} {f : α → β}
    (same : ∀ x ∈ xs, c x = true → refs' (f x) = (refs x).map (view p))
    (own : ∀ x ∈ xs, c x = true → ∀ y ∈ refs x, y.own p = true)
    (others : ∀ x ∈ xs, c x = false → ∀ y ∈ refs x, y.own p.others = true) :
    seen p (xs.flatMap refs) = ((xs.filter c).map f).flatMap refs' := by
  induction xs with
  | nil => rfl
  | cons x rest ih =>
    rw [List.forall_mem_cons] at same own others
    rw [List.flatMap_cons, seen_append, ih same.2 own.2 others.2]
    cases hc : c x with
    | true =>
      rw [List.filter_cons_of_pos hc, seen_of_own (own.1 hc), List.map_cons, List.flatMap_cons,
        same.1 hc]
    | false =>
      rw [List.filter_cons_of_neg (Bool.eq_false_iff.mp hc), seen_of_others (others.1 hc),
        List.nil_append]

/-- Of an object of the party, all references are seen. -/
theorem count_seen {o : ObjectId} (ho : p.object o = true) (xs : List Reference) :
    ((seen p xs).filterMap object?).count o = (xs.filterMap object?).count o := by
  have objects : (seen p xs).filterMap object? = (xs.filterMap object?).filter p.object := by
    rw [seen, List.filterMap_map, List.filterMap_filter, List.filter_filterMap]
    congr 1
    funext x
    cases x with
    | object o => cases hx : p.object o <;> simp [own, view, object?, hx, Option.filter]
    | function f => cases hx : p.interpreter f.owner <;> simp [own, view, object?, hx]
  rw [objects, List.count_filter ho]

end Reference

/-! ### References of hosts -/

namespace Host

theorem owned_instanceReferences {x : Instance} (hx : x.Owned p) :
    ∀ y ∈ instanceReferences x, y.own p = true := by
  intro y hy
  rcases List.mem_append.mp hy with hy | hy
  · obtain ⟨e, he, hy⟩ := List.mem_flatMap.mp hy
    exact e.2.owned_references (hx.properties e he) y hy
  · obtain ⟨e, he, hy⟩ := List.mem_flatMap.mp hy
    exact e.2.owned_references (hx.connections e he) y hy

theorem instanceReferences_view (x : Instance) :
    instanceReferences (x.view p) = (instanceReferences x).map (Reference.view p) := by
  simp only [instanceReferences, Instance.view, List.flatMap_map, List.map_append,
    List.map_flatMap, Variant.references_view, Callable.references_view]

theorem references_view {h : Host} (hh : h.Owned p) (others : h.Owned p.others) :
    (h.view p).references = Reference.seen p h.references :=
  (Reference.seen_flatMap (fun x _ _ => instanceReferences_view x)
    (fun x hx ho => owned_instanceReferences (hh.object x hx ho))
    (fun x hx ho => owned_instanceReferences (others.object x hx (congrArg (!·) ho)))).symm

end Host

/-! ### References of bridges -/

namespace Bridge

variable {b : Bridge}

theorem functionsOf_view (hb : b.Owned p) (held : List Reference) :
    (b.view p).functionsOf (Reference.seen p held) = (b.functionsOf held).map (Value.view p) := by
  have same (n : Nat) : p.number n = p.number b.id ↔ n = b.id := p.injective.eq_iff
  have id : (b.view p).id = p.number b.id := rfl
  unfold functionsOf
  rw [id, Reference.seen, List.filterMap_map, List.filterMap_filter, List.filterMap_filterMap,
    List.filterMap_filterMap, List.map_filterMap]
  congr 1
  funext x
  cases x with
  | object o => cases hx : p.object o <;> simp [Reference.own, Reference.view, Reference.function?, hx]
  | function f =>
    by_cases ho : f.owner = b.id
    · have hx : p.interpreter b.id = true := hb.interpreter
      simp [Reference.own, Reference.view, Reference.function?, ScriptFunction.view, ho, hx]
    · cases hx : p.interpreter f.owner <;>
        simp [Reference.own, Reference.view, Reference.function?, ScriptFunction.view, hx, ho, same]

theorem roots_view (hb : b.Owned p) (held : List Reference) :
    (b.view p).roots (Reference.seen p held) = (b.roots held).map (Value.view p) := by
  have metas : (b.view p).heap.textMeta?.toList.map Value.table =
      (b.heap.textMeta?.toList.map .table).map (Value.view p) := by
    rw [List.map_map]
    rfl
  have tables : b.libraries.map (fun e => Value.table e.2) =
      (b.libraries.map fun e => .table e.2).map (Value.view p) := by
    rw [List.map_map]
    rfl
  have frames : (b.view p).heap.upkeep.frames.flatMap Frame.values =
      (b.heap.upkeep.frames.flatMap Frame.values).map (Value.view p) := by
    show (b.heap.upkeep.frames.map (Frame.view p)).flatMap Frame.values = _
    rw [List.flatMap_map, List.map_flatMap]
    rfl
  rw [roots, roots, functionsOf_view hb, frames]
  simp only [List.map_append, ← metas, ← tables]
  rfl

theorem liveValues_view (h : Heap) : (h.view p).liveValues = h.liveValues.map (Variant.view p) := by
  have boxes : (h.view p).boxes.toList = h.boxes.toList.map (Option.map (Boxed.view p)) :=
    Array.toList_map
  unfold Heap.liveValues
  rw [boxes, List.filterMap_map, List.map_filterMap]
  congr 1
  funext x
  cases x <;> rfl

theorem boxReferences_view (b : Bridge) :
    (b.view p).boxReferences = b.boxReferences.map (Reference.view p) := by
  have values : (b.view p).heap.liveValues = b.heap.liveValues.map (Variant.view p) :=
    liveValues_view b.heap
  rw [boxReferences, values, boxReferences, List.flatMap_map, List.map_flatMap]
  simp only [Variant.references_view]

theorem owned_boxReferences (hb : b.Owned p) : ∀ x ∈ b.boxReferences, x.own p = true := by
  intro x hx
  obtain ⟨v, hv, hx⟩ := List.mem_flatMap.mp hx
  obtain ⟨c?, hc, hv⟩ := List.mem_filterMap.mp hv
  obtain ⟨c, rfl, rfl⟩ := Option.map_eq_some_iff.mp hv
  exact c.value.owned_references (hb.heap.box c (Array.mem_toList_iff.mp hc)) x hx

theorem reached_view (hb : b.Owned p) (held : List Reference) :
    (b.view p).reached (Reference.seen p held) = (b.reached held).map (Value.view p) := by
  rw [reached, roots_view hb]
  exact b.heap.reached_view _

theorem factories_view (hb : b.Owned p) (held : List Reference) :
    (b.view p).factories (Reference.seen p held) =
      (b.factories held).map (Reference.view p) := by
  unfold factories
  rw [reached_view hb, List.filterMap_map, List.map_filterMap]
  congr 1
  funext v
  cases v with
  | function f =>
    simp only [Function.comp, Value.view_function, ScriptFunction.view, view, Heap.function_view]
    cases b.heap.functions[f.address]? with
    | none => rfl
    | some f => cases f <;> rfl
  | _ => rfl

theorem owned_factories (hb : b.Owned p) (held : List Reference) :
    ∀ x ∈ b.factories held, x.own p = true := by
  intro x hx
  obtain ⟨v, -, hx⟩ := List.mem_filterMap.mp hx
  cases v with
  | function f =>
    dsimp only at hx
    split at hx
    next o ho =>
      cases hx
      exact hb.heap.function _ (Array.mem_of_getElem? ho)
    next => cases hx
  | _ => cases hx

end Bridge

end ScriptHost
