import ScriptHost.Proofs.Host.Detached
import ScriptHost.Proofs.Machine.Shelf
import ScriptHost.Proofs.Session.Reports

/-! Finalizations, told by what happens to boxes. The history of an interpreter agrees with its
boxes, whatever runs and whenever the collector acts; objects count the finalizations that are told
of their boxes; and when an interpreter is closed, no box that was there is left. -/

namespace ScriptHost

/-! ### Objects -/

/-- Objects have counted what the events tell of their boxes. -/
def Host.Counts (h : Host) (events : List BoxEvent) (g : Host) : Prop :=
  ∀ o, (h.object? o).isSome = true → (g.object? o).isSome = true ∧
    (g.object o).finalized = (h.object o).finalized + events.countP (·.ends o)

namespace Host.Counts

variable {h g k : Host} {es fs : List BoxEvent}

theorem refl (h : Host) : h.Counts [] h := fun _ hk => ⟨hk, rfl⟩

theorem trans (hg : h.Counts es g) (gk : g.Counts fs k) : h.Counts (es ++ fs) k := by
  intro o hk
  obtain ⟨kg, first⟩ := hg o hk
  obtain ⟨kk, second⟩ := gk o kg
  refine ⟨kk, ?_⟩
  rw [second, first, List.countP_append, Nat.add_assoc]

/-- No object counts what is not told of its boxes. -/
theorem of_works (hw : h.Works g) (he : ∀ e ∈ es, ∀ o, e.ends o = false) : h.Counts es g := by
  intro o hk
  obtain ⟨x, hx⟩ := Option.isSome_iff_exists.mp hk
  obtain ⟨y, hy, -⟩ := hw.known hx
  have none : es.countP (·.ends o) = 0 := List.countP_eq_zero.mpr fun e hm => by simp [he e hm o]
  exact ⟨hy ▸ rfl, by rw [hw.finalized o, none, Nat.add_zero]⟩

theorem of_object? {o : ObjectId} {x : Instance} (hx : h.object? o = some x) : h.object o = x := by
  rw [object, hx]
  rfl

/-- What an object answered is kept, and counts for nothing. -/
theorem keepWill (h : Host) (o : ObjectId) (result : Except CallError Variant) :
    h.Counts [] (h.keepWill o result) := by
  intro o' hk
  obtain ⟨x, hx⟩ := Option.isSome_iff_exists.mp hk
  have after := object?_update (f := fun x => { x with lastWill := some result })
    (fun _ => rfl) h o o'
  rw [hx] at after
  unfold Host.keepWill
  split at after <;> rw [of_object? hx, of_object? after] <;> exact ⟨after ▸ rfl, rfl⟩

/-- The object of a box that is finalized counts one more. -/
theorem countEnd (h : Host) (id : Nat) (o : ObjectId) :
    h.Counts [.finalized id (some o)] (h.countEnd o) := by
  intro o' hk
  obtain ⟨x, hx⟩ := Option.isSome_iff_exists.mp hk
  have after := object?_update (f := fun x => { x with finalized := x.finalized + 1 })
    (fun _ => rfl) h o o'
  rw [hx] at after
  unfold Host.countEnd
  by_cases ho : o' = o
  · rw [if_pos ho] at after
    rw [of_object? hx, of_object? after]
    exact ⟨after ▸ rfl, by simp [ho]⟩
  · rw [if_neg ho] at after
    rw [of_object? hx, of_object? after]
    exact ⟨after ▸ rfl, by simp [Ne.symm ho]⟩

end Host.Counts

/-! ### Heaps -/

/-- What is told of an interpreter that was closed, once: of every object as many boxes were
finalized as were made before the closing. -/
structure Shelf.IsCleared (events : List BoxEvent) : Prop where
  replayed : ∃ s, Shelf.empty.replay events = some s
  closed : events.count .closing = 1
  ends : ∀ o, events.countP (·.ends o) = (Shelf.beforeClosing events).count (.made (some o))

namespace Heap

variable {h g : Heap}

theorem boxed?_of_content? {id : Nat} {o : ObjectId} (hc : h.content? id = some (some o)) :
    h.boxed? id = some (.object o) := by
  obtain ⟨v, hv, ho⟩ := Option.map_eq_some_iff.mp hc
  cases v with
  | object o' =>
    cases ho
    exact hv
  | _ => cases ho

theorem mem_awaiting {id : Nat} : id ∈ h.awaiting ↔ .box id ∈ h.finalizable := by
  constructor
  · intro hm
    obtain ⟨v, hv, hb⟩ := List.mem_filterMap.mp hm
    cases v with
    | box id' =>
      cases hb
      exact hv
    | _ => cases hb
  · exact fun hm => List.mem_filterMap.mpr ⟨_, hm, rfl⟩

/-- The heap where something else is to be finalized. -/
def withDoomed (h : Heap) (doomed : List Value) : Heap :=
  { h with upkeep := { h.upkeep with doomed := doomed } }

/-- The heap where the box `id` has been finalized and only the rest is to be. -/
def withoutBox (h : Heap) (id : Nat) (o? : Option ObjectId) (rest : List Value) : Heap :=
  { h with
    boxes := h.boxes.setIfInBounds id none
    upkeep := { h.upkeep with
      doomed := rest, history := .finalized id o? :: h.upkeep.history } }

theorem contents_withoutBox (h : Heap) (id : Nat) (o? : Option ObjectId) (rest : List Value) :
    (h.withoutBox id o? rest).contents = h.contents.set id none := by
  simp [contents, withoutBox, List.map_set]

theorem told_withoutBox (h : Heap) (id : Nat) (o? : Option ObjectId) (rest : List Value) :
    (h.withoutBox id o? rest).told = h.told ++ [.finalized id o?] :=
  List.reverse_cons

/-- A box that is next in line is emptied, unless it is empty already. -/
theorem takeDoomed_cases (h : Heap) :
    (h.takeDoomed = h.withDoomed h.upkeep.doomed.tail ∧
      ∀ id rest, h.upkeep.doomed = .box id :: rest → h.content? id = none) ∨
    ∃ id o? rest, h.upkeep.doomed = .box id :: rest ∧ h.content? id = some o? ∧
      h.takeDoomed = h.withoutBox id o? rest := by
  unfold takeDoomed
  cases hd : h.upkeep.doomed with
  | nil =>
    refine .inl ⟨?_, fun _ _ he => by cases he⟩
    show h = h.withDoomed []
    rw [← hd]
    rfl
  | cons v rest =>
    cases v with
    | box id =>
      have same : (h.withDoomed rest).boxed? id = h.boxed? id := rfl
      dsimp only
      cases hv : h.boxed? id with
      | none =>
        refine .inl ⟨?_, fun id' rest' he => ?_⟩
        · show (h.withDoomed rest).emptyBox id = h.withDoomed rest
          rw [emptyBox, same, hv]
        · cases he
          rw [content?, hv]
          rfl
      | some x =>
        refine .inr ⟨id, x.object?, rest, rfl, by rw [content?, hv]; rfl, ?_⟩
        show (h.withDoomed rest).emptyBox id = _
        rw [emptyBox, same, hv]
        rfl
    | _ => exact .inl ⟨rfl, fun _ _ he => by cases he⟩

theorem doomed_takeDoomed (h : Heap) : h.takeDoomed.upkeep.doomed = h.upkeep.doomed.tail := by
  rcases h.takeDoomed_cases with ⟨ht, -⟩ | ⟨id, o?, rest, hd, -, ht⟩
  · rw [ht]
    rfl
  · rw [ht, hd]
    rfl

theorem content?_withoutBox (h : Heap) (id : Nat) (o? : Option ObjectId) (rest : List Value)
    (id' : Nat) :
    (h.withoutBox id o? rest).content? id' = if id' = id then none else h.content? id' := by
  rw [content?_eq_join, contents_withoutBox, content?_eq_join]
  by_cases hi : id' = id
  · subst hi
    rw [if_pos rfl, List.getElem?_set_self']
    cases h.contents[id']? <;> rfl
  · rw [if_neg hi, List.getElem?_set_ne (Ne.symm hi)]

/-- What is told of boxes comes to the boxes that there are, and it has been decided on the end of
all that is to be finalized. -/
def Replayed (h : Heap) : Prop :=
  ∃ condemned, Shelf.empty.replay h.told = some ⟨h.contents, condemned⟩ ∧
    ∀ id, .box id ∈ h.upkeep.doomed → id ∈ condemned

namespace Replayed

theorem works (hh : h.Replayed) (hw : h.Works g) : g.Replayed := by
  obtain ⟨condemned, hr, hd⟩ := hh
  obtain ⟨os, hc, ht, -⟩ := hw.made
  refine ⟨condemned, ?_, hw.doomed ▸ hd⟩
  rw [ht, Shelf.replay_append, hr, Option.bind_some, Shelf.replay_made, hc]

theorem takeDoomed (hh : h.Replayed) : h.takeDoomed.Replayed := by
  obtain ⟨condemned, hr, hd⟩ := hh
  rcases h.takeDoomed_cases with ⟨ht, -⟩ | ⟨id, o?, rest, hb, hc, ht⟩
  · rw [ht]
    exact ⟨condemned, hr, fun id hm => hd id (List.mem_of_mem_tail hm)⟩
  · rw [hb] at hd
    have full : h.contents[id]? = some (some o?) := content?_eq_some_iff.mp hc
    rw [ht]
    refine ⟨condemned, ?_, fun id' hm => hd id' (List.mem_cons_of_mem _ hm)⟩
    rw [told_withoutBox, Shelf.replay_append, hr, Option.bind_some, Shelf.replay_singleton,
      Shelf.next?, if_pos ⟨full, hd id List.mem_cons_self⟩, contents_withoutBox]

end Replayed

theorem decides_made (os : List (Option ObjectId)) :
    ∀ e ∈ os.map BoxEvent.made, e.decides = false := by
  intro e he
  obtain ⟨o?, -, rfl⟩ := List.mem_map.mp he
  rfl

/-- What is told when something is taken is nothing, or the finalization of a box. -/
theorem told_takeDoomed (h : Heap) :
    ∃ events, h.takeDoomed.told = h.told ++ events ∧ ∀ e ∈ events, e.decides = false := by
  rcases h.takeDoomed_cases with ⟨ht, -⟩ | ⟨id, o?, rest, -, -, ht⟩
  · rw [ht]
    exact ⟨[], (List.append_nil _).symm, List.forall_mem_nil _⟩
  · rw [ht]
    exact ⟨_, told_withoutBox h id o? rest, List.forall_mem_singleton.mpr rfl⟩

/-- An interpreter that is open: all boxes that are full are listed for their end. -/
structure Balanced (h : Heap) : Prop where
  replayed : h.Replayed
  opened : .closing ∉ h.told
  bounded : ∀ id, .box id ∈ h.finalizable ∨ .box id ∈ h.upkeep.doomed → id < h.boxes.size
  awaits : ∀ id, (h.content? id).isSome = true →
    .box id ∈ h.finalizable ∨ .box id ∈ h.upkeep.doomed

/-- An interpreter whose end has been decided on: of the first `n` boxes, which were there `before`,
those that are full are to be finalized, and no end is decided on any more. -/
structure Ending (before : List BoxEvent) (n : Nat) (h : Heap) : Prop where
  replayed : h.Replayed
  told : ∃ after, h.told = before ++ .closing :: after ∧ ∀ e ∈ after, e.decides = false
  size : n ≤ h.boxes.size
  ends : ∀ id < n, (h.content? id).isSome = true → .box id ∈ h.upkeep.doomed

/-- What running functions do keeps the property, and so does to take what is to be finalized. -/
class Persists (P : Heap → Prop) : Prop where
  works : ∀ {h g : Heap}, P h → h.Works g → P g
  takes : ∀ {h : Heap}, P h → P h.takeDoomed

theorem size_contents_append {os : List (Option ObjectId)}
    (hc : g.contents = h.contents ++ os.map some) :
    g.boxes.size = h.boxes.size + os.length := by
  simpa using congrArg List.length hc

/-- What is full after running functions was full before, or is new. -/
theorem Works.mem_awaiting_or {id : Nat} (hw : h.Works g) (hs : (g.content? id).isSome = true) :
    (h.content? id).isSome = true ∨ .box id ∈ g.finalizable := by
  obtain ⟨os, hc, -, ha⟩ := hw.made
  by_cases hi : id < h.boxes.size
  · refine .inl ?_
    rw [content?_eq_join, hc, List.getElem?_append_left (by simpa using hi), ← content?_eq_join] at hs
    exact hs
  · refine .inr (mem_awaiting.mp ?_)
    have hl : id < g.boxes.size := by
      by_contra hl
      rw [content?_of_le (Nat.le_of_not_lt hl)] at hs
      cases hs
    rw [size_contents_append hc] at hl
    rw [ha]
    refine List.mem_append_left _ (List.mem_reverse.mpr (List.mem_range'_1.mpr ?_))
    omega

theorem Works.mem_finalizable {id : Nat} (hw : h.Works g) (hm : .box id ∈ h.finalizable) :
    .box id ∈ g.finalizable := by
  obtain ⟨os, -, -, ha⟩ := hw.made
  rw [← mem_awaiting] at hm ⊢
  rw [ha]
  exact List.mem_append_right _ hm

/-- What is full when something has been taken was full before, and is not what was taken. -/
theorem mem_doomed_of_content?_takeDoomed {id : Nat} (hs : (h.takeDoomed.content? id).isSome = true) :
    (h.content? id).isSome = true ∧
      (.box id ∈ h.upkeep.doomed → .box id ∈ h.takeDoomed.upkeep.doomed) := by
  rw [doomed_takeDoomed]
  rcases h.takeDoomed_cases with ⟨ht, empty⟩ | ⟨id', o?, rest, hb, hc, ht⟩
  · rw [ht] at hs
    have before : (h.content? id).isSome = true := hs
    refine ⟨before, fun hm => ?_⟩
    cases hd : h.upkeep.doomed with
    | nil =>
      rw [hd] at hm
      cases hm
    | cons v rest =>
      rw [hd] at hm
      refine (List.mem_cons.mp hm).resolve_left fun hv => ?_
      rw [empty id rest (hd.trans (hv ▸ rfl))] at before
      cases before
  · rw [ht, content?_withoutBox] at hs
    split at hs
    · cases hs
    next hi =>
      rw [hb]
      refine ⟨hs, fun hm => (List.mem_cons.mp hm).resolve_left fun hv => hi ?_⟩
      exact Value.box.inj hv

theorem size_takeDoomed (h : Heap) : h.takeDoomed.boxes.size = h.boxes.size := by
  rcases h.takeDoomed_cases with ⟨ht, -⟩ | ⟨id, o?, rest, -, -, ht⟩ <;> rw [ht]
  · rfl
  · exact Array.size_setIfInBounds

theorem finalizable_takeDoomed (h : Heap) : h.takeDoomed.finalizable = h.finalizable := by
  rcases h.takeDoomed_cases with ⟨ht, -⟩ | ⟨id, o?, rest, -, -, ht⟩ <;> rw [ht] <;> rfl

instance Balanced.persists : Persists Balanced where
  works {h g} hh hw := by
    obtain ⟨os, hc, ht, ha⟩ := hw.made
    refine ⟨hh.replayed.works hw, ?_, fun id hm => ?_, fun id hs => ?_⟩
    · rw [ht, List.mem_append]
      exact fun hm => hm.elim hh.opened fun hm => nomatch decides_made os _ hm
    · rw [size_contents_append hc]
      rw [← mem_awaiting, ha, List.mem_append, List.mem_reverse, List.mem_range'_1, mem_awaiting,
        hw.doomed, or_assoc] at hm
      rcases hm with hm | hm
      · exact hm.2
      · exact (hh.bounded id hm).trans_le (Nat.le_add_right _ _)
    · rw [hw.doomed]
      rcases hw.mem_awaiting_or hs with before | new
      · exact (hh.awaits id before).imp_left hw.mem_finalizable
      · exact .inl new
  takes {h} hh := by
    obtain ⟨events, ht, decides⟩ := h.told_takeDoomed
    refine ⟨hh.replayed.takeDoomed, ?_, fun id hm => ?_, fun id hs => ?_⟩
    · rw [ht, List.mem_append]
      exact fun hm => hm.elim hh.opened fun hm => nomatch decides _ hm
    · rw [size_takeDoomed]
      rw [finalizable_takeDoomed, doomed_takeDoomed] at hm
      exact hh.bounded id (hm.imp_right List.mem_of_mem_tail)
    · obtain ⟨before, left⟩ := mem_doomed_of_content?_takeDoomed hs
      rw [finalizable_takeDoomed]
      exact (hh.awaits id before).imp_right left

instance Ending.persists (before : List BoxEvent) (n : Nat) : Persists (Ending before n) where
  works {h g} hh hw := by
    obtain ⟨os, hc, ht, -⟩ := hw.made
    obtain ⟨after, told, decides⟩ := hh.told
    refine ⟨hh.replayed.works hw, ⟨after ++ os.map .made, ?_, ?_⟩, ?_, fun id hi hs => ?_⟩
    · rw [ht, told, List.append_assoc, List.cons_append]
    · exact List.forall_mem_append.mpr ⟨decides, decides_made os⟩
    · rw [size_contents_append hc]
      exact hh.size.trans (Nat.le_add_right _ _)
    · rw [hw.doomed]
      refine hh.ends id hi ?_
      rw [content?_eq_join, hc, List.getElem?_append_left, ← content?_eq_join] at hs
      · exact hs
      · simpa using hi.trans_le hh.size
  takes {h} hh := by
    obtain ⟨events, ht, decided⟩ := h.told_takeDoomed
    obtain ⟨after, told, decides⟩ := hh.told
    refine ⟨hh.replayed.takeDoomed, ⟨after ++ events, ?_, ?_⟩, ?_, fun id hi hs => ?_⟩
    · rw [ht, told, List.append_assoc, List.cons_append]
    · exact List.forall_mem_append.mpr ⟨decides, decided⟩
    · rw [size_takeDoomed]
      exact hh.size
    · obtain ⟨before, left⟩ := mem_doomed_of_content?_takeDoomed hs
      exact left (hh.ends id hi before)

/-! ### Decisions -/

/-- What a collection makes of the boxes, of what awaits its end and of what is to be finalized. -/
structure Condemns (h : Heap) (gone : List Value) (g : Heap) : Prop where
  boxes : g.boxes = h.boxes
  finalizable : ∀ v, v ∈ g.finalizable ↔ v ∈ h.finalizable ∧ v ∉ gone
  doomed : g.upkeep.doomed = h.upkeep.doomed ++ gone
  told : g.told = h.told ++ (gone.filterMap Value.box?).map .condemned

theorem condemns_condemn (h : Heap) (inUse all : List Value) :
    h.Condemns (h.finalizable.filter (!inUse.contains ·)) (h.condemn inUse all) := by
  have sifts := Sifts.lose h inUse (all.filter (!inUse.contains ·)) all
  refine ⟨sifts.boxes, fun v => ?_, ?_, ?_⟩
  · show v ∈ List.filter _ _ ↔ _
    rw [sifts.finalizable, List.mem_filter, List.mem_filter]
    by_cases hv : v ∈ inUse <;> simp [hv]
  · show _ ++ _ = _
    rw [sifts.upkeep]
  · show List.reverse (_ ++ _) = _
    rw [sifts.upkeep, List.reverse_append, List.map_reverse, List.reverse_reverse]
    rfl

theorem Condemns.contents {gone : List Value} (hg : h.Condemns gone g) :
    g.contents = h.contents := by
  rw [Heap.contents, hg.boxes, Heap.contents]

theorem Condemns.balanced {gone : List Value} (hg : h.Condemns gone g)
    (listed : ∀ v ∈ gone, v ∈ h.finalizable) (hh : h.Balanced) : g.Balanced := by
  refine ⟨?_, ?_, fun id hm => ?_, fun id hs => ?_⟩
  · obtain ⟨condemned, hr, hd⟩ := hh.replayed
    refine ⟨(gone.filterMap Value.box?).reverse ++ condemned, ?_, fun id hm => ?_⟩
    · rw [hg.told, Shelf.replay_append, hr, Option.bind_some, Shelf.replay_condemned, hg.contents]
    · rw [hg.doomed] at hm
      rw [List.mem_append, List.mem_reverse]
      refine (List.mem_append.mp hm).symm.imp (fun hm => ?_) (hd id)
      exact List.mem_filterMap.mpr ⟨_, hm, rfl⟩
  · rw [hg.told, List.mem_append]
    refine fun hm => hm.elim hh.opened fun hm => ?_
    obtain ⟨id, -, he⟩ := List.mem_map.mp hm
    cases he
  · rw [hg.boxes]
    rw [hg.finalizable, hg.doomed, List.mem_append] at hm
    rcases hm with hm | hm | hm
    · exact hh.bounded id (.inl hm.1)
    · exact hh.bounded id (.inr hm)
    · exact hh.bounded id (.inl (listed _ hm))
  · rw [content?_congr hg.contents] at hs
    rw [hg.finalizable, hg.doomed, List.mem_append]
    by_cases hm : .box id ∈ gone
    · exact .inr (.inr hm)
    · exact (hh.awaits id hs).imp (fun hl => ⟨hl, hm⟩) .inl

theorem Balanced.condemn (hh : h.Balanced) (inUse all : List Value) :
    (h.condemn inUse all).Balanced :=
  (condemns_condemn h inUse all).balanced (fun _ => List.mem_of_mem_filter) hh

theorem told_condemnAll (h : Heap) : h.condemnAll.told = h.told ++ [.closing] := List.reverse_cons

/-- All boxes that there are come to their end. -/
theorem Balanced.condemnAll (hh : h.Balanced) : h.condemnAll.Ending h.told h.boxes.size := by
  refine ⟨?_, ⟨[], told_condemnAll h, List.forall_mem_nil _⟩, le_rfl, fun id _ hs => ?_⟩
  · obtain ⟨condemned, hr, hd⟩ := hh.replayed
    refine ⟨List.range h.contents.length, ?_, fun id hm => ?_⟩
    · rw [told_condemnAll, Shelf.replay_append, hr, Option.bind_some, Shelf.replay_singleton]
      rfl
    · rw [List.mem_range, length_contents]
      exact hh.bounded id (List.mem_append.mp hm).symm
  · exact List.mem_append.mpr (hh.awaits id hs).symm

/-- All that had been made before the closing is finalized once nothing is left in line. -/
theorem Ending.isCleared {before : List BoxEvent} {n : Nat} {condemned : List Nat}
    {boxes : List (Option (Option ObjectId))} (hh : h.Ending before n)
    (hd : h.upkeep.doomed = []) (opened : .closing ∉ before)
    (hr : Shelf.empty.replay before = some ⟨boxes, condemned⟩) (hn : boxes.length = n) :
    Shelf.IsCleared h.told := by
  obtain ⟨after, told, decides⟩ := hh.told
  obtain ⟨last, replayed, -⟩ := hh.replayed
  rw [told] at replayed ⊢
  have once : after.count .closing = 0 := List.count_eq_zero.mpr fun hm => nomatch decides _ hm
  refine ⟨⟨_, replayed⟩, ?_, fun o => ?_⟩
  · rw [List.count_append, List.count_eq_zero.mpr opened, List.count_cons_self, once]
  rw [Shelf.beforeClosing_append opened]
  refine Shelf.countP_ends_of_closing o decides replayed hr fun id hi => ?_
  rw [hn] at hi
  have none : h.content? id = none := by
    by_contra full
    have listed := hh.ends id hi (Option.isSome_iff_ne_none.mpr full)
    rw [hd] at listed
    cases listed
  rw [getElem?_contents, if_pos (hi.trans_le hh.size), none]

end Heap

/-! ### Worlds -/

theorem World.Works.discipline : Act.Discipline World.Works where
  refl := .refl
  trans := .trans
  hooked _ _ := ⟨.refl _, .refl _, rfl⟩
  recorded w _ := ⟨.record w.host _, .refl _, rfl⟩
  faulted w e := ⟨.refl _, .newFault w.bridge.heap e, rfl⟩

namespace World

/-- More is told of boxes, and objects have counted it. -/
def Tells (w w' : World) : Prop :=
  ∃ events, w'.bridge.heap.told = w.bridge.heap.told ++ events ∧ w.host.Counts events w'.host

namespace Tells

variable {w w' w'' : World}

theorem refl (w : World) : w.Tells w := ⟨[], (List.append_nil _).symm, .refl _⟩

theorem trans (h : w.Tells w') (h' : w'.Tells w'') : w.Tells w'' := by
  obtain ⟨es, ht, hc⟩ := h
  obtain ⟨fs, ht', hc'⟩ := h'
  exact ⟨es ++ fs, by rw [ht', ht, List.append_assoc], hc.trans hc'⟩

end Tells

/-- What is next is no longer in line, which is told if it is a full box, and counted by an object
in it. -/
theorem tells_taken (w : World) : w.Tells w.taken := by
  have told : w.taken.bridge.heap = w.bridge.heap.takeDoomed := rfl
  rw [Tells, told]
  unfold taken Heap.next?
  rcases w.bridge.heap.takeDoomed_cases with ⟨ht, empty⟩ | ⟨id, o?, rest, hd, hc, ht⟩
  · refine ⟨[], by rw [ht, List.append_nil]; rfl, ?_⟩
    cases hd : w.bridge.heap.upkeep.doomed with
    | nil => exact .refl _
    | cons v rest =>
      cases v with
      | box id =>
        have none : w.bridge.heap.boxed? id = none := Option.map_eq_none_iff.mp (empty id rest hd)
        simp only [List.head?_cons, Option.map_some, Value.box?, Option.bind_some, none]
        exact .refl _
      | _ => exact .refl _
  · refine ⟨[.finalized id o?], by rw [ht, Heap.told_withoutBox], ?_⟩
    obtain ⟨x, hx, rfl⟩ := Option.map_eq_some_iff.mp hc
    simp only [hd, List.head?_cons, Option.map_some, Value.box?, Option.bind_some, hx]
    cases x with
    | object o => exact .countEnd _ _ _
    | _ => exact .of_works (.refl _) (List.forall_mem_singleton.mpr fun _ => rfl)

theorem next?_of_box {w : World} {id : Nat} {o : ObjectId} {rest : List Value}
    (hd : w.bridge.heap.upkeep.doomed = .box id :: rest)
    (hc : w.bridge.heap.content? id = some (some o)) :
    w.bridge.heap.next? = some (.box id, some (.object o)) := by
  rw [Heap.next?, hd, List.head?_cons, Option.map_some, Value.box?, Option.bind_some,
    Heap.boxed?_of_content? hc]

/-- A box of an object is emptied when it is taken, and the object counts that. -/
theorem taken_of_box {w : World} {id : Nat} {o : ObjectId} {rest : List Value}
    (hd : w.bridge.heap.upkeep.doomed = .box id :: rest)
    (hc : w.bridge.heap.content? id = some (some o)) :
    w.taken = ⟨w.host.countEnd o,
      { w.bridge with heap := w.bridge.heap.withoutBox id (some o) rest }⟩ := by
  rcases w.bridge.heap.takeDoomed_cases with ⟨-, empty⟩ | ⟨id', o?, rest', hd', hc', ht⟩
  · rw [empty id rest hd] at hc
    cases hc
  · cases hd.symm.trans hd'
    cases hc.symm.trans hc'
    rw [taken, next?_of_box hd hc, ht]

/-- From `w` on, objects have counted what is told of boxes, and the heap keeps a property. -/
structure Accounts (P : Heap → Prop) (w w' : World) : Prop where
  id : w'.bridge.id = w.bridge.id
  heap : P w.bridge.heap → P w'.bridge.heap
  told : w.Tells w'

namespace Accounts

variable {P : Heap → Prop} {w w' w'' : World}

theorem refl (w : World) : w.Accounts P w := ⟨rfl, fun hp => hp, .refl w⟩

theorem trans (h : w.Accounts P w') (h' : w'.Accounts P w'') : w.Accounts P w'' :=
  ⟨h'.id.trans h.id, h'.heap ∘ h.heap, h.told.trans h'.told⟩

variable [Heap.Persists P]

theorem of_works (hw : w.Works w') : w.Accounts P w' := by
  obtain ⟨os, -, ht, -⟩ := hw.heap.made
  refine ⟨hw.id, fun hp => Heap.Persists.works hp hw.heap, _, ht, .of_works hw.host fun e he o => ?_⟩
  obtain ⟨o?, -, rfl⟩ := List.mem_map.mp he
  rfl

theorem discipline : Act.Discipline (Accounts P) where
  refl := .refl
  trans := .trans
  hooked w h := of_works (Works.discipline.hooked w h)
  recorded w e := of_works (Works.discipline.recorded w e)
  faulted w e := of_works (Works.discipline.faulted w e)

instance finalizes : Finalizes (Accounts P) where
  of_works := of_works
  takes w := ⟨rfl, Heap.Persists.takes, w.tells_taken⟩
  wills _ _ _ := ⟨rfl, fun hp => hp, [], (List.append_nil _).symm, .keepWill _ _ _⟩

end Accounts

instance Accounts.attends : Attends (Accounts Heap.Balanced) where
  condemns w held spared := by
    refine ⟨rfl, fun hh => hh.condemn _ _, _, (w.bridge.heap.condemns_condemn _ _).told, ?_⟩
    refine .of_works (.refl _) fun e he o => ?_
    obtain ⟨id, -, rfl⟩ := List.mem_map.mp he
    rfl
  frames w frames := ⟨rfl, fun hh => ⟨hh.replayed, hh.opened, hh.bounded, hh.awaits⟩, .refl _⟩

end World

/-! ### Single finalizations -/

/-- What the declared finalization of an object gave, if it declares one, is kept. -/
def Host.willed (h : Host) (o : ObjectId) : Option (Except CallError Variant) → Host
  | some result => h.keepWill o result
  | none => h

namespace Collector

/-- An object runs what it declares for its end, detached. Whatever comes of that is kept and raises
nothing, and nothing else is done to the interpreter. -/
theorem finalizeObject_cases (o : ObjectId) (w : World) : finalizeObject o w = .exhausted ∨
    ∃ result? host, Request.reentry.override? .detached o .gc [] w =
        .ok result? ⟨host, w.bridge⟩ ∧
      finalizeObject o w = .ok () ⟨host.willed o result?, w.bridge⟩ := by
  rcases Request.isApart_reentry.override? o .gc [] w with ends | ⟨result?, host, ends⟩
  · exact .inl (Act.bind_of_exhausted ends)
  · refine .inr ⟨result?, host, ends, ?_⟩
    rw [finalizeObject, Act.bind_of_ok ends]
    cases result? <;> rfl

/-- What runs for the end of a table raises nothing, and does to boxes what any function does. -/
theorem finalizeTable_cases (id : Nat) (w : World) :
    finalizeTable id w = .exhausted ∨ ∃ w', finalizeTable id w = .ok () w' ∧ w.Works w' := by
  have works := (composed_finalizeTable id).ends World.Works.discipline w
  have catches : Act.Catches (finalizeTable id) := by
    refine .bind .heap fun h => ?_
    split
    · exact .pure _
    · exact .bind .bridge fun b => .bind (fun _ _ _ h => by cases h) fun _ =>
        .bind (.attempt _) fun _ => fun _ _ _ h => by cases h
  cases hx : finalizeTable id w with
  | exhausted => exact .inl rfl
  | raised e w' => exact absurd hx (catches w e w')
  | ok _ w' =>
    rw [hx] at works
    exact .inr ⟨w', rfl, works⟩

theorem finalizeNext_eq (w : World) : finalizeNext w = finalize w.bridge.heap.next? w.taken :=
  Act.bind_of_ok (takeNext_eq w)

/-- For the end of a box its object runs what it declares, and nothing else happens. -/
theorem finalizeNext_of_box {w : World} {id : Nat} {o : ObjectId} {rest : List Value}
    (hd : w.bridge.heap.upkeep.doomed = .box id :: rest)
    (hc : w.bridge.heap.content? id = some (some o)) : finalizeNext w = .exhausted ∨
      ∃ result? host, Request.reentry.override? .detached o .gc [] w.taken =
          .ok result? ⟨host, w.taken.bridge⟩ ∧
        finalizeNext w = .ok () ⟨host.willed o result?, w.taken.bridge⟩ := by
  rw [finalizeNext_eq, World.next?_of_box hd hc]
  exact finalizeObject_cases o w.taken

/-- A finalization raises nothing. What it leaves to be finalized is what was in line before. -/
theorem finalizeNext_cases (w : World) : finalizeNext w = .exhausted ∨
    ∃ w', finalizeNext w = .ok () w' ∧
      w'.bridge.heap.upkeep.doomed = w.bridge.heap.upkeep.doomed.tail ∧
      ∀ id o?, w.taken.bridge.heap.content? id = some o? →
        w'.bridge.heap.content? id = some o? := by
  have taken : w.taken.bridge.heap.upkeep.doomed = _ := w.bridge.heap.doomed_takeDoomed
  rw [finalizeNext_eq]
  generalize w.bridge.heap.next? = next?
  unfold finalize
  split
  next o =>
    rcases finalizeObject_cases o w.taken with ends | ⟨result?, host, -, ends⟩
    · exact .inl ends
    · exact .inr ⟨_, ends, taken, fun _ _ => id⟩
  next id _ _ =>
    rcases finalizeTable_cases id w.taken with ends | ⟨w', ends, works⟩
    · exact .inl ends
    · exact .inr ⟨w', ends, works.heap.doomed.trans taken, fun _ _ => works.heap.content?⟩
  next => exact .inr ⟨_, rfl, taken, fun _ _ => id⟩

/-- Finalizations raise nothing, and leave less and less in line. -/
theorem finalizeMany_cases (n : Nat) (w : World) : finalizeMany n w = .exhausted ∨
    ∃ w', finalizeMany n w = .ok () w' ∧
      w'.bridge.heap.upkeep.doomed = w.bridge.heap.upkeep.doomed.drop n := by
  induction n generalizing w with
  | zero => exact .inr ⟨w, rfl, rfl⟩
  | succ n ih =>
    rcases finalizeNext_cases w with ends | ⟨w₁, ends, left, -⟩
    · exact .inl (Act.bind_of_exhausted ends)
    · rw [finalizeMany, Act.bind_of_ok ends]
      rcases ih w₁ with ends | ⟨w₂, ends, rest⟩
      · exact .inl ends
      · exact .inr ⟨w₂, ends, by rw [rest, left, List.drop_tail]⟩

/-! ### Closing -/

/-- What a collection or the last finalizations do is told, and counted by objects. -/
theorem ends_accounts {α : Type} {P : Heap → Prop} [Heap.Persists P] {x : Act α}
    (hx : Act.Composed (World.Accounts P) x) (w : World) : (x w).Ends (w.Accounts P) :=
  hx.ends World.Accounts.discipline w

/-- The interpreter is closed: all that had been made is finalized, and objects have counted it. -/
structure Closes (w w' : World) : Prop where
  id : w'.bridge.id = w.bridge.id
  told : w.Tells w'
  cleared : Shelf.IsCleared w'.bridge.heap.told

theorem shutDown_cases (held : List Reference) {w : World} (hw : w.bridge.heap.Balanced) :
    shutDown held w = .exhausted ∨ ∃ w', shutDown held w = .ok () w' ∧ Closes w w' := by
  have first := ends_accounts (P := Heap.Balanced) (composed_collectOnce held) w
  cases hx : collectOnce held w with
  | exhausted => exact .inl (Act.bind_of_exhausted hx)
  | raised e w₁ => exact absurd hx (Request.reentry.catches_guard _ w e w₁)
  | ok result w₁ =>
    rw [hx] at first
    -- The end of all is decided on, and then all is finalized.
    let w₂ := w₁.withHeap w₁.bridge.heap.condemnAll
    have balanced : w₁.bridge.heap.Balanced := first.heap hw
    have decided : w₁.Tells w₂ :=
      ⟨[.closing], Heap.told_condemnAll _, .of_works (.refl _) (by simp)⟩
    have rest := ends_accounts
      (P := Heap.Ending w₁.bridge.heap.told w₁.bridge.heap.boxes.size) composed_finalizeDoomed w₂
    have run : shutDown held w = finalizeDoomed w₂ := Act.bind_of_ok hx
    rw [run]
    rcases finalizeMany_cases w₂.bridge.heap.upkeep.doomed.length w₂ with ends | ⟨w₃, ends, left⟩
    · exact .inl ends
    · have comes : finalizeDoomed w₂ = .ok () w₃ := ends
      rw [comes] at rest
      obtain ⟨condemned, replayed, -⟩ := balanced.replayed
      refine .inr ⟨w₃, comes, rest.id.trans first.id, (first.told.trans decided).trans rest.told, ?_⟩
      refine (rest.heap balanced.condemnAll).isCleared ?_ balanced.opened replayed
        (Heap.length_contents _)
      rw [left, List.drop_length]

end Collector

end ScriptHost
