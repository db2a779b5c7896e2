import Mathlib.Data.Finset.Card
import Mathlib.Data.Finset.Dedup
import ScriptHost.Collector

/-! What is in use: all that leads from some values to others, whatever the length of the way. The
search of a collection finds all of it. -/

namespace ScriptHost.Heap

variable {h : Heap} {roots : List Value}

/-- Tables that hold on to a value only as long as its key is in use. -/
def IsEphemeron (h : Heap) (id : Nat) : Prop :=
  (h.weakness id).keys = true ∧ (h.weakness id).values = false

/-- What can be had from `roots`. -/
inductive InUse (h : Heap) (roots : List Value) : Value → Prop
  | root {v : Value} : v ∈ roots → InUse h roots v
  | held {v u : Value} : InUse h roots v → u ∈ h.holds v → InUse h roots u
  | promised {id : Nat} {e : Key × Value} : InUse h roots (.table id) → h.IsEphemeron id →
    e ∈ (h.table id).entries → InUse h roots e.1.toValue → InUse h roots e.2

namespace InUse

variable {v : Value}

theorem mono {roots' : List Value} (hr : roots ⊆ roots') (hv : h.InUse roots v) :
    h.InUse roots' v := by
  induction hv with
  | root hm => exact .root (hr hm)
  | held _ hu ih => exact .held ih hu
  | promised _ hw he _ iht ihk => exact .promised iht hw he ihk

/-- What the collector goes by leads to nothing. -/
theorem upkeep (u : Upkeep) (hv : h.InUse roots v) : InUse { h with upkeep := u } roots v := by
  induction hv with
  | root hm => exact .root hm
  | @held v _ _ hu ih => cases v <;> exact .held ih hu
  | promised _ hw he _ iht ihk => exact .promised iht hw he ihk

/-- What a function holds on to is in use with it: what a closure has captured, and the box whose
method it is. -/
theorem of_function {f : ScriptFunction} {x : Function} {v : Value}
    (hf : h.InUse roots (.function f)) (hx : h.functions[f.address]? = some x)
    (hv : v ∈ x.holds) : h.InUse roots v := by
  refine .held hf ?_
  rw [holds, hx]
  exact hv

end InUse

/-! ### Places -/

theorem mem_places_of_entry {id : Nat} {e : Key × Value} (he : e ∈ (h.table id).entries) :
    e.1.toValue ∈ h.places ∧ e.2 ∈ h.places := by
  have inside : h.table id ∈ h.tables.toList := by
    unfold table at he ⊢
    by_cases hi : id < h.tables.size
    · simp [Array.getD, hi]
    · simp [Array.getD, hi, Table.empty] at he
  have here (v : Value) (hv : v = e.1.toValue ∨ v = e.2) : v ∈ h.places := by
    refine List.mem_append_left _ (List.mem_append_left _ (List.mem_flatMap.mpr ⟨_, inside, ?_⟩))
    exact List.mem_append_right _ (List.mem_flatMap.mpr ⟨e, he, by simpa using hv⟩)
  exact ⟨here _ (.inl rfl), here _ (.inr rfl)⟩

theorem mem_places_of_meta {id m : Nat} (hm : (h.table id).meta? = some m) :
    Value.table m ∈ h.places := by
  have inside : h.table id ∈ h.tables.toList := by
    unfold table at hm ⊢
    by_cases hi : id < h.tables.size
    · simp [Array.getD, hi]
    · simp [Array.getD, hi, Table.empty] at hm
  refine List.mem_append_left _ (List.mem_append_left _ (List.mem_flatMap.mpr ⟨_, inside, ?_⟩))
  exact List.mem_append_left _ (by simp [hm])

/-- What something holds on to stands somewhere. -/
theorem mem_places_of_holds {v u : Value} (hu : u ∈ h.holds v) : u ∈ h.places := by
  cases v with
  | table id =>
    -- A table holds on to its metatable, and to the keys and values that are not weak.
    rcases List.mem_append.mp hu with hu | hu
    · cases hm : (h.table id).meta? with
      | none => simp [hm] at hu
      | some m =>
        rw [hm] at hu
        rw [List.mem_singleton.mp hu]
        exact mem_places_of_meta hm
    · obtain ⟨e, he, hu⟩ := List.mem_flatMap.mp hu
      rcases List.mem_append.mp hu with hu | hu
      · split at hu
        · cases hu
        · rw [List.mem_singleton.mp hu]
          exact (mem_places_of_entry he).1
      · split at hu
        · cases hu
        · rw [List.mem_singleton.mp hu]
          exact (mem_places_of_entry he).2
  | function f =>
    cases hf : h.functions[f.address]? with
    | none => simp [holds, hf] at hu
    | some x =>
      have inside : x ∈ h.functions.toList := Array.mem_toList_iff.mpr (Array.mem_of_getElem? hf)
      simp only [holds, hf, Option.map_some, Option.getD_some] at hu
      exact List.mem_append_left _ (List.mem_append_right _ (List.mem_flatMap.mpr ⟨x, inside, hu⟩))
  | thread id =>
    cases ht : h.threads[id]? with
    | none => simp [holds, ht] at hu
    | some x =>
      simp only [holds, ht, Option.toList_some, List.mem_singleton] at hu
      subst hu
      exact List.mem_append_right _ (Array.mem_toList_iff.mpr (Array.mem_of_getElem? ht))
  | _ => cases hu

theorem mem_promised {seen : List Value} {id : Nat} {u : Value} : u ∈ h.promised seen id ↔
    Value.table id ∈ seen ∧ ∃ e ∈ (h.table id).entries, e.1.toValue ∈ seen ∧ e.2 = u := by
  unfold promised
  split
  next hs => simp_all
  next hs => simp_all

theorem mem_unseen {seen vs : List Value} {v : Value} :
    v ∈ h.unseen seen vs ↔ v ∈ vs ∧ h.isCell v = true ∧ v ∉ seen := by
  simp [unseen, List.mem_eraseDups]

theorem mem_ephemerons {id : Nat} : id ∈ h.ephemerons ↔ id < h.tables.size ∧ h.IsEphemeron id := by
  simp [ephemerons, IsEphemeron]

/-! ### The search -/

/-- What each step of the search adds. -/
def next (h : Heap) (seen latest : List Value) : List Value :=
  h.unseen seen (latest.flatMap h.holds ++ h.ephemerons.flatMap (h.promised seen))

/-- Nothing that is seen leads to a cell that is not. -/
structure IsClosed (h : Heap) (seen : List Value) : Prop where
  held : ∀ v ∈ seen, ∀ u ∈ h.holds v, h.isCell u = true → u ∈ seen
  promised : ∀ id ∈ h.ephemerons, ∀ u ∈ h.promised seen id, h.isCell u = true → u ∈ seen

/-- Where the search is: all is seen that anything but the latest values holds on to. -/
structure Searches (h : Heap) (seen latest : List Value) : Prop where
  mem : ∀ v ∈ latest, v ∈ seen
  held : ∀ v ∈ seen, v ∉ latest → ∀ u ∈ h.holds v, h.isCell u = true → u ∈ seen

namespace Searches

variable {seen latest : List Value}

theorem step (hs : h.Searches seen latest) :
    h.Searches (seen ++ h.next seen latest) (h.next seen latest) := by
  refine ⟨fun v hv => List.mem_append_right _ hv, fun v hv hn u hu hc => ?_⟩
  have hv : v ∈ seen := (List.mem_append.mp hv).resolve_right hn
  rw [List.mem_append]
  by_cases hl : v ∈ latest
  · by_cases seen_ : u ∈ seen
    · exact .inl seen_
    · refine .inr (mem_unseen.mpr ⟨?_, hc, seen_⟩)
      exact List.mem_append_left _ (List.mem_flatMap.mpr ⟨v, hl, hu⟩)
  · exact .inl (hs.held v hv hl u hu hc)

theorem isClosed (hs : h.Searches seen latest) (hn : h.next seen latest = []) :
    h.IsClosed seen := by
  have found (u : Value) (hu : u ∈ latest.flatMap h.holds ++ h.ephemerons.flatMap (h.promised seen))
      (hc : h.isCell u = true) : u ∈ seen := by
    by_contra unseen_
    have left : u ∈ h.next seen latest := mem_unseen.mpr ⟨hu, hc, unseen_⟩
    rw [hn] at left
    cases left
  refine ⟨fun v hv u hu hc => ?_, fun id hi u hu hc => ?_⟩
  · by_cases hl : v ∈ latest
    · exact found u (List.mem_append_left _ (List.mem_flatMap.mpr ⟨v, hl, hu⟩)) hc
    · exact hs.held v hv hl u hu hc
  · exact found u (List.mem_append_right _ (List.mem_flatMap.mpr ⟨id, hi, hu⟩)) hc

end Searches

theorem next_subset_places (seen latest : List Value) : h.next seen latest ⊆ h.places := by
  intro u hu
  rcases List.mem_append.mp (mem_unseen.mp hu).1 with hu | hu
  · obtain ⟨v, -, hu⟩ := List.mem_flatMap.mp hu
    exact mem_places_of_holds hu
  · obtain ⟨id, -, hu⟩ := List.mem_flatMap.mp hu
    obtain ⟨-, e, he, -, rfl⟩ := mem_promised.mp hu
    exact (mem_places_of_entry he).2

/-- Once all places are seen there is nothing left to find. -/
theorem IsClosed.of_places {seen : List Value} (hp : h.places ⊆ seen) : h.IsClosed seen := by
  refine ⟨fun v _ u hu _ => hp (mem_places_of_holds hu), fun id _ u hu _ => hp ?_⟩
  obtain ⟨-, e, he, -, rfl⟩ := mem_promised.mp hu
  exact (mem_places_of_entry he).2

theorem spread_succ (fuel : Nat) (seen latest : List Value) :
    h.spread h.ephemerons (fuel + 1) seen latest =
      if h.next seen latest = [] then seen
      else h.spread h.ephemerons fuel (seen ++ h.next seen latest) (h.next seen latest) := by
  rw [spread, ← next]
  cases h.next seen latest <;> rfl

theorem subset_spread (fuel : Nat) (seen latest : List Value) :
    seen ⊆ h.spread h.ephemerons fuel seen latest := by
  induction fuel generalizing seen latest with
  | zero => exact List.Subset.refl _
  | succ fuel ih =>
    rw [spread_succ]
    split
    · exact List.Subset.refl _
    · exact fun v hv => ih _ _ (List.mem_append_left _ hv)

/-- With as many steps as there are places that are not seen, nothing is missed. -/
theorem Searches.spread {seen latest : List Value} (hs : h.Searches seen latest)
    (roots : List Value) (fuel : Nat)
    (hf : (roots ++ h.places).toFinset.card ≤ fuel + seen.toFinset.card)
    (hu : seen ⊆ roots ++ h.places) :
    h.IsClosed (h.spread h.ephemerons fuel seen latest) := by
  induction fuel generalizing seen latest with
  | zero =>
    have inside : seen.toFinset ⊆ (roots ++ h.places).toFinset := fun v hv =>
      List.mem_toFinset.mpr (hu (List.mem_toFinset.mp hv))
    -- No step is left, so every place has been seen.
    have all := Finset.eq_of_subset_of_card_le inside (by omega)
    refine .of_places fun v hv => List.mem_toFinset.mp ?_
    exact all ▸ List.mem_toFinset.mpr (List.mem_append_right _ hv)
  | succ fuel ih =>
    rw [spread_succ]
    split
    next hn => exact hs.isClosed hn
    next hn =>
      refine ih hs.step ?_ ?_
      · obtain ⟨v, hv⟩ := List.exists_mem_of_ne_nil _ hn
        -- A step that finds anything sees one more place.
        have fresh : v ∉ seen.toFinset := fun hm =>
          (mem_unseen.mp hv).2.2 (List.mem_toFinset.mp hm)
        have more : insert v seen.toFinset ⊆ (seen ++ h.next seen latest).toFinset := by
          intro u hu
          rcases Finset.mem_insert.mp hu with rfl | hu
          · exact List.mem_toFinset.mpr (List.mem_append_right _ hv)
          · exact List.mem_toFinset.mpr (List.mem_append_left _ (List.mem_toFinset.mp hu))
        have grown := Finset.card_le_card more
        rw [Finset.card_insert_of_notMem fresh] at grown
        omega
      · refine List.append_subset.mpr ⟨hu, fun v hv => ?_⟩
        exact List.mem_append_right _ (next_subset_places _ _ hv)

theorem isClosed_reached (roots : List Value) : h.IsClosed (h.reached roots) := by
  have begins : h.Searches (h.unseen [] roots) (h.unseen [] roots) :=
    ⟨fun _ hv => hv, fun v hv hn => absurd hv hn⟩
  refine begins.spread roots _ ?_ fun v hv => ?_
  · have card := List.toFinset_card_le (roots ++ h.places)
    rw [List.length_append] at card
    omega
  · exact List.mem_append_left _ (mem_unseen.mp hv).1

/-- A collection finds all that is in use. -/
theorem InUse.mem_reached {v : Value} (hv : h.InUse roots v) (hc : h.isCell v = true) :
    v ∈ h.reached roots := by
  have closed := h.isClosed_reached roots
  induction hv with
  | root hr => exact subset_spread _ _ _ (mem_unseen.mpr ⟨hr, hc, nofun⟩)
  | @held v u _ hu ih =>
    refine closed.held v (ih ?_) u hu hc
    -- only cells hold on to anything
    cases v with
    | table | thread => rfl
    | function f =>
      cases hf : h.functions[f.address]? with
      | none => simp [isCell, hf]
      | some x =>
        cases x with
        | builtin b => simp [holds, hf, Function.holds] at hu
        | _ => simp [isCell, hf]
    | _ => cases hu
  | @promised id e ht hw he _ iht ihk =>
    have seen := iht rfl
    cases hk : h.isCell e.1.toValue with
    | false =>
      refine closed.held _ seen e.2 ?_ hc
      refine List.mem_append_right _ (List.mem_flatMap.mpr ⟨e, he, List.mem_append_right _ ?_⟩)
      simp [hw.2, hk]
    | true =>
      have size : id < h.tables.size := by
        by_contra hi
        simp [table, Array.getD, hi, Table.empty] at he
      exact closed.promised id (mem_ephemerons.mpr ⟨size, hw⟩) e.2
        (mem_promised.mpr ⟨seen, e, he, ihk hk, rfl⟩) hc

end ScriptHost.Heap
