import ScriptHost.Host.State

/-! What a write of a property does to the host. The object takes it or not; if it takes it,
this one property has the new value, and all other properties of all objects are as before. -/

namespace ScriptHost

theorem mem_of_assoc? {α β : Type} [DecidableEq α] {key : α} {b : β} {es : List (α × β)}
    (h : assoc? key es = some b) : (key, b) ∈ es := by
  induction es with
  | nil => cases h
  | cons e rest ih =>
    rw [assoc?] at h
    split at h
    next hk =>
      cases h
      exact hk ▸ List.mem_cons_self
    next => exact List.mem_cons_of_mem _ (ih h)

namespace Host

variable {h : Host} {o : ObjectId} {name : String} {value : Variant}

/-! ### Lists of properties -/

theorem isSome_writeIn (takesNew : Bool) (name : String) (value : Variant)
    (ps : List (String × Variant)) :
    (writeIn takesNew name value ps).isSome = (takesNew || (assoc? name ps).isSome) := by
  induction ps with
  | nil => cases takesNew <;> rfl
  | cons p rest ih =>
    obtain ⟨n, v⟩ := p
    rw [writeIn, assoc?]
    by_cases hn : n = name
    · simp [hn]
    · rw [if_neg hn, if_neg hn, Option.isSome_map]
      exact ih

theorem assoc?_writeIn {takesNew : Bool} {ps qs : List (String × Variant)}
    (hw : writeIn takesNew name value ps = some qs) (m : String) :
    assoc? m qs = if m = name then some value else assoc? m ps := by
  induction ps generalizing qs with
  | nil =>
    rw [writeIn] at hw
    cases takesNew with
    | false => cases hw
    | true =>
      cases hw
      simp only [assoc?, eq_comm (a := name)]
  | cons p rest ih =>
    obtain ⟨n, v⟩ := p
    rw [writeIn] at hw
    by_cases hn : n = name
    · rw [if_pos hn] at hw
      cases hw
      subst hn
      rw [assoc?, assoc?]
      by_cases hm : n = m
      · rw [if_pos hm, if_pos hm.symm]
      · rw [if_neg hm, if_neg (Ne.symm hm), if_neg hm]
    · rw [if_neg hn] at hw
      obtain ⟨qs', hr, rfl⟩ := Option.map_eq_some_iff.mp hw
      rw [assoc?, assoc?, ih hr]
      by_cases hm : n = m
      · have other : m ≠ name := hm ▸ hn
        rw [if_pos hm, if_pos hm, if_neg other]
      · rw [if_neg hm, if_neg hm]

/-! ### Objects -/

theorem definition_congr {h h' : Host} (he : h'.objects = h.objects) (o : ObjectId) :
    h'.definition o = h.definition o := by
  unfold definition object object?
  rw [he]

theorem property?_congr {h h' : Host} (he : h'.objects = h.objects) (o : ObjectId)
    (name : String) : h'.property? o name = h.property? o name := by
  unfold property? object object?
  rw [he]

theorem object?_update {f : Instance → Instance} (hf : ∀ x, (f x).id = x.id) (h : Host)
    (o o' : ObjectId) :
    (h.update o f).object? o' = if o' = o then (h.object? o').map f else h.object? o' := by
  let g (x : Instance) : Instance := if x.id = o then f x else x
  have ids (x : Instance) : (g x).id = x.id := by
    dsimp only [g]
    split
    · exact hf x
    · rfl
  have found : (h.update o f).object? o' = (h.object? o').map g := by
    dsimp only [object?, update]
    rw [List.find?_map]
    congr 2
    funext x
    show decide ((g x).id = o') = decide (x.id = o')
    rw [ids]
  rw [found]
  cases ho : h.object? o' with
  | none => simp
  | some x =>
    have hx : x.id = o' := by simpa using List.find?_some ho
    by_cases he : o' = o
    · simp [g, hx, he]
    · simp [g, hx, he]

theorem object_update {f : Instance → Instance} (hf : ∀ x, (f x).id = x.id) (h : Host)
    {o o' : ObjectId} (hb : (h.definition o).isBare = false) :
    (h.update o f).object o' = if o' = o then f (h.object o') else h.object o' := by
  unfold object
  rw [object?_update hf]
  by_cases he : o' = o
  · subst he
    rw [if_pos rfl, if_pos rfl]
    cases ho : h.object? o' with
    | some x => rfl
    | none =>
      -- an object that nobody made is bare
      have bare : (h.definition o').isBare = true := by
        rw [definition, object, ho]
        rfl
      rw [bare] at hb
      cases hb
  · rw [if_neg he, if_neg he]

/-! ### Writes -/

/-- Whether the object takes a write of the property. -/
def takes (h : Host) (o : ObjectId) (name : String) : Bool :=
  !(h.definition o).isBare && ((h.definition o).takesNew || (h.property? o name).isSome)

theorem takes_congr {h h' : Host} (he : h'.objects = h.objects) (o : ObjectId)
    (name : String) : h'.takes o name = h.takes o name := by
  rw [takes, takes, definition_congr he, property?_congr he]

/-- What a write comes to. A bare object does not notice. -/
inductive Written (h : Host) (o : ObjectId) (name : String) (value : Variant) :
    Bool × Host → Prop
  | unnoticed : (h.definition o).isBare = true → Written h o name value (false, h)
  | refused : (h.definition o).isBare = false → h.takes o name = false →
    Written h o name value (false, h.record (.write o name value false))
  | taken {g : Host} : (h.definition o).isBare = false → h.takes o name = true →
    g.log = .write o name value true :: h.log → g.natives = h.natives →
    (∀ o', g.definition o' = h.definition o') →
    (∀ o' m, g.property? o' m = if o' = o ∧ m = name then some value else h.property? o' m) →
    Written h o name value (true, g)

theorem written_write (h : Host) (o : ObjectId) (name : String) (value : Variant) :
    h.Written o name value (h.write o name value) := by
  have takes (hb : (h.definition o).isBare = false) : h.takes o name =
      (writeIn (h.object o).definition.takesNew name value (h.object o).properties).isSome := by
    rw [isSome_writeIn, Host.takes, hb]
    rfl
  unfold write
  dsimp only
  split
  next hb => exact .unnoticed hb
  next hb =>
    have full : (h.definition o).isBare = false := eq_false_of_ne_true hb
    split
    next ps hw =>
      have taken : h.takes o name = true := by rw [takes full, hw, Option.isSome_some]
      let put (x : Instance) : Instance := { x with properties := ps }
      have same (x : Instance) : (put x).id = x.id := rfl
      have updated (o' : ObjectId) : (h.update o put).object o' = _ := object_update same h full
      refine .taken full taken rfl rfl (fun o' => ?_) fun o' m => ?_
      · show ((h.update o put).object o').definition = (h.object o').definition
        rw [updated]
        split <;> rfl
      · show assoc? m ((h.update o put).object o').properties = _
        rw [updated]
        by_cases ho : o' = o
        · subst ho
          rw [if_pos rfl, assoc?_writeIn hw]
          simp only [true_and]
          rfl
        · have other : ¬ (o' = o ∧ m = name) := fun e => ho e.1
          rw [if_neg ho, if_neg other]
          rfl
    next hw =>
      have refused : h.takes o name = false := by rw [takes full, hw, Option.isSome_none]
      exact .refused full refused

/-! ### Hosts after a write -/

theorem definition_write (h : Host) (o : ObjectId) (name : String) (value : Variant)
    (o' : ObjectId) : (h.write o name value).2.definition o' = h.definition o' := by
  have written := h.written_write o name value
  generalize h.write o name value = result at written ⊢
  cases written with
  | unnoticed => rfl
  | refused => rfl
  | taken _ _ _ _ hd _ => exact hd o'

theorem property?_write (h : Host) (o : ObjectId) (name : String) (value : Variant)
    (o' : ObjectId) (m : String) : (h.write o name value).2.property? o' m =
      if (o' = o ∧ m = name) ∧ h.takes o name = true then some value else h.property? o' m := by
  have written := h.written_write o name value
  generalize h.write o name value = result at written ⊢
  cases written with
  | unnoticed hb => simp [takes, hb]
  | refused _ ht =>
    rw [ht]
    simp only [Bool.false_eq_true, and_false, if_false]
    rfl
  | taken _ ht _ _ _ hp =>
    rw [ht, hp]
    simp only [and_true]

/-- An object that has taken a property goes on to take it. -/
theorem takes_write (h : Host) (o : ObjectId) (name : String) (value : Variant)
    (o' : ObjectId) (m : String) :
    (h.write o name value).2.takes o' m = h.takes o' m := by
  rw [takes, takes, definition_write, property?_write]
  by_cases he : (o' = o ∧ m = name) ∧ h.takes o name = true
  · obtain ⟨⟨rfl, rfl⟩, ht⟩ := he
    rw [if_pos ⟨⟨rfl, rfl⟩, ht⟩]
    have full := ht
    rw [takes, Bool.and_eq_true] at full
    rw [full.1, full.2]
    simp
  · rw [if_neg he]

/-- A write is recorded, or goes unnoticed, and nothing else is recorded. -/
theorem log_write (h : Host) (o : ObjectId) (name : String) (value : Variant) :
    ∃ es : List Event, (h.write o name value).2.log = es ++ h.log ∧
      ∀ e ∈ es, ∃ ok, e = .write o name value ok := by
  have written := h.written_write o name value
  generalize h.write o name value = result at written ⊢
  cases written with
  | unnoticed => exact ⟨[], rfl, nofun⟩
  | refused => exact ⟨[_], rfl, by simp⟩
  | taken _ _ hl => exact ⟨[_], hl, by simp⟩

end Host

end ScriptHost
