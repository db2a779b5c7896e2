import ScriptHost.Collector
import ScriptHost.Proofs.Party.Heaps

/-! What is in use, as one side of a session sees it: the search finds the same values whatever the
numbers of the interpreters, and weak tables lose the same entries. -/

namespace ScriptHost

variable {p : Party}

theorem Value.contains_view (vs : List Value) (v : Value) :
    (vs.map (view p)).contains (v.view p) = vs.contains v := by
  rw [Bool.eq_iff_iff, List.contains_iff_mem, List.contains_iff_mem]
  exact List.mem_map_of_injective (view_injective p)

theorem Value.filter_view {keep keep' : Value → Bool} (hk : ∀ v, keep' (v.view p) = keep v)
    (vs : List Value) : (vs.map (view p)).filter keep' = (vs.filter keep).map (view p) := by
  rw [List.filter_map]
  congr 2
  funext v
  exact hk v

/-- Of some values those that are in none of the others. -/
theorem Value.outside_view (vs ws : List Value) :
    (vs.map (view p)).filter (!(ws.map (view p)).contains ·) =
      (vs.filter (!ws.contains ·)).map (view p) :=
  filter_view (fun v => congrArg (!·) (contains_view ws v)) vs

theorem Value.eraseDups_view : (vs : List Value) →
    (vs.map (view p)).eraseDups = vs.eraseDups.map (view p)
  | [] => rfl
  | v :: rest => by
    have others : (rest.map (view p)).filter (fun u => !u == v.view p) =
        (rest.filter fun u => !u == v).map (view p) :=
      filter_view (fun u => by simp [beq_eq_decide]) rest
    rw [List.map_cons, List.eraseDups_cons, others, eraseDups_view, List.eraseDups_cons,
      List.map_cons]
termination_by vs => vs.length
decreasing_by exact Nat.lt_succ_of_le (List.length_filter_le _ _)

theorem Function.holds_view (f : Function) : (f.view p).holds = f.holds.map (Value.view p) := by
  cases f <;> rfl

namespace Heap

variable (h : Heap)

/-! ### The search -/

theorem isCell_view (v : Value) : (h.view p).isCell (v.view p) = h.isCell v := by
  cases v with
  | function f =>
    simp only [isCell, Value.view_function, ScriptFunction.view, function_view]
    cases h.functions[f.address]? with
    | none => rfl
    | some f => cases f <;> rfl
  | _ => rfl

theorem weakness_view (id : Nat) : (h.view p).weakness id = h.weakness id := by
  have field := metaField_view (p := p) h (.table id) "__mode"
  rw [Value.view_table] at field
  unfold weakness
  rw [field]
  cases h.metaField (.table id) "__mode" <;> rfl

theorem entryHolds_view (w : Weakness) (e : Key × Value) :
    (h.view p).entryHolds w (Table.entryView p e) = (h.entryHolds w e).map (Value.view p) := by
  simp only [entryHolds, Table.entryView, Key.toValue_view, isCell_view, List.map_append]
  congr 1
  · split <;> rfl
  · split <;> rfl

theorem holds_view (v : Value) :
    (h.view p).holds (v.view p) = (h.holds v).map (Value.view p) := by
  cases v with
  | table id =>
    have metas : ((h.table id).meta?.map Value.table).toList =
        ((h.table id).meta?.map Value.table).toList.map (Value.view p) := by
      cases (h.table id).meta? <;> rfl
    simp only [holds, Value.view_table, table_view, Table.meta?_view, Table.entries_view,
      weakness_view, List.flatMap_map, List.map_append, List.map_flatMap, entryHolds_view]
    rw [← metas]
  | function f =>
    simp only [holds, Value.view_function, ScriptFunction.view, function_view]
    cases h.functions[f.address]? with
    | none => rfl
    | some f => exact f.holds_view
  | thread id =>
    have found : (h.view p).threads[id]? = (h.threads[id]?).map (Value.view p) :=
      Array.getElem?_map ..
    have same : Value.view p (.thread id) = .thread id := rfl
    simp only [holds, same, found]
    cases h.threads[id]? <;> rfl
  | _ => rfl

theorem ephemerons_view : (h.view p).ephemerons = h.ephemerons := by
  have size : (h.view p).tables.size = h.tables.size := Array.size_map
  simp only [ephemerons, weakness_view, size]

theorem promised_view (seen : List Value) (id : Nat) :
    (h.view p).promised (seen.map (Value.view p)) id =
      (h.promised seen id).map (Value.view p) := by
  have here : (seen.map (Value.view p)).contains (.table id) = seen.contains (.table id) :=
    Value.contains_view seen (.table id)
  unfold promised
  rw [here, table_view, Table.entries_view, List.filterMap_map]
  split
  · rw [List.map_filterMap]
    congr 1
    funext e
    simp only [Function.comp, Table.entryView, Key.toValue_view, Value.contains_view]
    split <;> rfl
  · rfl

theorem unseen_view (seen vs : List Value) :
    (h.view p).unseen (seen.map (Value.view p)) (vs.map (Value.view p)) =
      (h.unseen seen vs).map (Value.view p) := by
  have left : (vs.map (Value.view p)).filter
        (fun v => (h.view p).isCell v && !(seen.map (Value.view p)).contains v) =
      (vs.filter fun v => h.isCell v && !seen.contains v).map (Value.view p) :=
    Value.filter_view (fun v => by rw [isCell_view, Value.contains_view]) vs
  rw [unseen, left, Value.eraseDups_view, unseen]

theorem spread_view (ephemerons : List Nat) (fuel : Nat) (seen latest : List Value) :
    (h.view p).spread ephemerons fuel (seen.map (Value.view p)) (latest.map (Value.view p)) =
      (h.spread ephemerons fuel seen latest).map (Value.view p) := by
  induction fuel generalizing seen latest with
  | zero => rfl
  | succ fuel ih =>
    have led : (latest.map (Value.view p)).flatMap (h.view p).holds ++
        ephemerons.flatMap ((h.view p).promised (seen.map (Value.view p))) =
        (latest.flatMap h.holds ++ ephemerons.flatMap (h.promised seen)).map (Value.view p) := by
      have promised : (h.view p).promised (seen.map (Value.view p)) =
          fun id => (h.promised seen id).map (Value.view p) := funext (h.promised_view seen)
      simp only [List.flatMap_map, List.map_append, List.map_flatMap, holds_view, promised]
    rw [spread, spread, led, unseen_view]
    cases h.unseen seen (latest.flatMap h.holds ++ ephemerons.flatMap (h.promised seen)) with
    | nil => rfl
    | cons v rest =>
      have next := ih (seen ++ v :: rest) (v :: rest)
      rwa [List.map_append] at next

theorem places_view : (h.view p).places = h.places.map (Value.view p) := by
  have metas (t : Table) : (t.meta?.map Value.table).toList =
      (t.meta?.map Value.table).toList.map (Value.view p) := by
    cases t.meta? <;> rfl
  have tables : (h.view p).tables.toList = h.tables.toList.map (Table.view p) := Array.toList_map
  have functions : (h.view p).functions.toList = h.functions.toList.map (Function.view p) :=
    Array.toList_map
  have threads : (h.view p).threads.toList = h.threads.toList.map (Value.view p) := Array.toList_map
  unfold places
  rw [tables, functions, threads, List.map_append, List.map_append, List.flatMap_map,
    List.flatMap_map, List.map_flatMap, List.map_flatMap]
  simp only [Function.holds_view]
  congr 3
  funext t
  simp only [Table.meta?_view, Table.entries_view, List.flatMap_map, List.map_append,
    List.map_flatMap, Table.entryView, Key.toValue_view, List.map_cons, List.map_nil]
  rw [← metas]

theorem reached_view (roots : List Value) :
    (h.view p).reached (roots.map (Value.view p)) = (h.reached roots).map (Value.view p) := by
  have start : (h.view p).unseen [] (roots.map (Value.view p)) =
      (h.unseen [] roots).map (Value.view p) := h.unseen_view [] roots
  unfold reached
  dsimp only
  rw [start, ephemerons_view, places_view, List.length_map, List.length_map, spread_view]

/-! ### Weak tables -/

theorem sift_view (id : Nat) {keep keep' : Key × Value → Bool}
    (hk : ∀ e, keep' (Table.entryView p e) = keep e) :
    (h.view p).sift id keep' = (h.sift id keep).view p := by
  unfold sift
  rw [view_setTable]
  dsimp only
  congr 1
  have metas : ((h.view p).table id).meta? = (h.table id).meta? :=
    (congrArg Table.meta? (h.table_view id)).trans (Table.meta?_view _)
  have hints : ((h.view p).table id).hint = (h.table id).hint :=
    (congrArg Table.hint (h.table_view id)).trans (Table.hint_view _)
  refine Table.ext_of ?_ metas hints
  show (((h.view p).table id).entries.filter keep') =
    ((h.table id).entries.filter keep).map (Table.entryView p)
  rw [table_view, Table.entries_view, List.filter_map]
  congr 2
  funext e
  exact hk e

theorem lose_view {f g : Heap → Value → Heap}
    (hf : ∀ (h : Heap) v, g (h.view p) (v.view p) = (f h v).view p) (tables : List Value) :
    (tables.map (Value.view p)).foldl g (h.view p) = (tables.foldl f h).view p := by
  induction tables generalizing h with
  | nil => rfl
  | cons v rest ih => rw [List.map_cons, List.foldl_cons, List.foldl_cons, hf, ih]

theorem loseValues_view (tables inUse : List Value) :
    (h.view p).loseValues (tables.map (Value.view p)) (inUse.map (Value.view p)) =
      (h.loseValues tables inUse).view p := by
  refine lose_view h (fun h v => ?_) tables
  cases v with
  | table id =>
    dsimp only [Value.view_table]
    rw [weakness_view]
    split
    · refine h.sift_view id fun e => ?_
      rw [Table.entryView, isCell_view, Value.contains_view]
    · rfl
  | _ => rfl

theorem loseKeys_view (tables inUse : List Value) :
    (h.view p).loseKeys (tables.map (Value.view p)) (inUse.map (Value.view p)) =
      (h.loseKeys tables inUse).view p := by
  refine lose_view h (fun h v => ?_) tables
  cases v with
  | table id =>
    dsimp only [Value.view_table]
    rw [weakness_view]
    split
    · refine h.sift_view id fun e => ?_
      rw [Table.entryView, Key.toValue_view, isCell_view, Value.contains_view]
    · rfl
  | _ => rfl

namespace Owned

variable {h : Heap}

theorem lose {f : Heap → Value → Heap} (hf : ∀ (h : Heap) v, h.Owned p → (f h v).Owned p)
    (hh : h.Owned p) (tables : List Value) : (tables.foldl f h).Owned p := by
  induction tables generalizing h with
  | nil => exact hh
  | cons v rest ih => exact ih (hf h v hh)

theorem loseValues (hh : h.Owned p) (tables inUse : List Value) :
    (h.loseValues tables inUse).Owned p := by
  refine lose (fun h v hh => ?_) hh tables
  split
  · split
    · exact hh.setTable _ _
    · exact hh
  · exact hh

theorem loseKeys (hh : h.Owned p) (tables inUse : List Value) :
    (h.loseKeys tables inUse).Owned p := by
  refine lose (fun h v hh => ?_) hh tables
  split
  · split
    · exact hh.setTable _ _
    · exact hh
  · exact hh

end Owned

/-! ### What is to be finalized -/

theorem condemn_view (inUse all : List Value) :
    (h.view p).condemn (inUse.map (Value.view p)) (all.map (Value.view p)) =
      (h.condemn inUse all).view p := by
  have within (vs ws : List Value) :
      (vs.map (Value.view p)).filter ((ws.map (Value.view p)).contains ·) =
        (vs.filter (ws.contains ·)).map (Value.view p) :=
    Value.filter_view (Value.contains_view ws) vs
  have boxes (vs : List Value) :
      (vs.map (Value.view p)).filterMap Value.box? = vs.filterMap Value.box? := by
    rw [List.filterMap_map]
    congr 1
    funext v
    cases v <;> rfl
  have awaiting : (h.view p).finalizable = h.finalizable.map (Value.view p) := rfl
  unfold condemn
  dsimp only
  rw [awaiting, Value.outside_view, Value.outside_view, loseValues_view, loseValues_view,
    loseKeys_view]
  generalize ((h.loseValues inUse inUse).loseValues _ all).loseKeys all all = left
  have kept : (left.view p).finalizable = left.finalizable.map (Value.view p) := rfl
  rw [kept, within, boxes]
  simp [view, Upkeep.view]

theorem condemnAll_view : (h.view p).condemnAll = h.condemnAll.view p := by
  simp [condemnAll, view, Upkeep.view, Upkeep.tell]

theorem next?_view :
    (h.view p).next? = h.next?.map fun x => (x.1.view p, x.2.map (Variant.view p)) := by
  have line : (h.view p).upkeep.doomed = h.upkeep.doomed.map (Value.view p) := rfl
  unfold next?
  rw [line, List.head?_map, Option.map_map, Option.map_map]
  congr 1
  funext v
  cases v with
  | box id => exact congrArg (Prod.mk _) (h.boxed?_view id)
  | _ => rfl

theorem takeDoomed_view : (h.view p).takeDoomed = h.takeDoomed.view p := by
  have line : (h.view p).upkeep.doomed = h.upkeep.doomed.map (Value.view p) := rfl
  unfold takeDoomed
  rw [line]
  cases h.upkeep.doomed with
  | nil => rfl
  | cons v rest =>
    cases v with
    | box id => exact emptyBox_view { h with upkeep := { h.upkeep with doomed := rest } } id
    | _ => rfl

namespace Owned

variable {h : Heap}

theorem condemn (hh : h.Owned p) (inUse all : List Value) : (h.condemn inUse all).Owned p :=
  have left := ((hh.loseValues inUse inUse).loseValues _ all).loseKeys all all
  ⟨left.box, left.function⟩

theorem condemnAll (hh : h.Owned p) : h.condemnAll.Owned p := ⟨hh.box, hh.function⟩

theorem takeDoomed (hh : h.Owned p) : h.takeDoomed.Owned p := by
  unfold Heap.takeDoomed
  split
  · exact hh
  · have shorter (rest : List Value) :
        ({ h with upkeep := { h.upkeep with doomed := rest } } : Heap).Owned p :=
      ⟨hh.box, hh.function⟩
    dsimp only
    split
    · exact (shorter _).emptyBox _
    · exact shorter _

end Owned

end Heap

end ScriptHost
