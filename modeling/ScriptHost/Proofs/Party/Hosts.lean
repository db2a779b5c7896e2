import ScriptHost.Collector
import ScriptHost.Proofs.Party.Definitions
import ScriptHost.Proofs.Party.Methods

/-! The host as one side of a session sees it: its own objects and functions, and nothing of the
others'. What the host can be asked about the party's values is answered from these alone, and what
is done to them leaves the others' objects alone. -/

namespace ScriptHost

variable {p : Party}

/-! ### Objects and events -/

namespace Instance

def view (p : Party) (x : Instance) : Instance :=
  ⟨x.id, x.definition.view p, x.properties.map fun e => (e.1, e.2.view p),
    x.connections.map fun e => (e.1, e.2.view p), x.created, x.finalized,
    x.lastWill.map (Except.map (Variant.view p))⟩

/-- All that the object holds belongs to the party. -/
structure Owned (p : Party) (x : Instance) : Prop where
  definition : x.definition.Owned p
  properties : ∀ e ∈ x.properties, e.2.Owned p
  connections : ∀ e ∈ x.connections, e.2.Owned p
  lastWill : ∀ v, x.lastWill = some (.ok v) → v.Owned p

theorem view_new (o : ObjectId) (d : Definition) : (new o d).view p = new o (d.view p) := by
  simp [new, view, Definition.properties_view]

theorem Owned.new (o : ObjectId) {d : Definition} (hd : d.Owned p) : (Instance.new o d).Owned p :=
  ⟨hd, Definition.owned_properties hd, List.forall_mem_nil _, nofun⟩

end Instance

def NativeFunction.view (p : Party) (f : NativeFunction) : NativeFunction :=
  ⟨f.native, f.behaviour.view p⟩

def Event.view (p : Party) : Event → Event
  | write o name v accepted => write o name (v.view p) accepted
  | call o method args => call o method (args.map (Variant.view p))
  | override o op args => override o op (args.map (Variant.view p))
  | native name args => native name (args.map (Variant.view p))
  | print bridge line => print bridge line
  | report bridge e => report bridge e
  | hook e => hook e

/-! ### Hosts -/

namespace Host

/-- The party's objects. -/
def own (p : Party) (h : Host) : List Instance := h.objects.filter fun x => p.object x.id

def view (p : Party) (h : Host) : Host where
  objects := (h.own p).map (Instance.view p)
  natives := (h.natives.filter fun f => p.native f.native.key).map (NativeFunction.view p)
  log := h.log.map (Event.view p)

/-- The party's objects and functions hold only what belongs to it, too. -/
structure Owned (p : Party) (h : Host) : Prop where
  object : ∀ x ∈ h.objects, p.object x.id = true → x.Owned p
  native : ∀ f ∈ h.natives, p.native f.native.key = true → f.behaviour.Owned p

/-- What may be done to a host on behalf of the party: the others' objects and functions stay as
they are. -/
structure Spares (p : Party) (h h' : Host) : Prop where
  objects : h'.own p.others = h.own p.others
  natives : h'.natives = h.natives

variable {h h' h'' : Host} {o : ObjectId}

namespace Spares

@[refl] theorem refl (h : Host) : Spares p h h := ⟨rfl, rfl⟩

theorem trans (h₁ : Spares p h h') (h₂ : Spares p h' h'') : Spares p h h'' :=
  ⟨h₂.objects.trans h₁.objects, h₂.natives.trans h₁.natives⟩

end Spares

/-- What belongs to the others still holds only what is theirs. -/
theorem Owned.spared (hh : h.Owned p.others) (hs : h.Spares p h') : h'.Owned p.others where
  object x hx ho := by
    have found : x ∈ h.own p.others := hs.objects ▸ List.mem_filter.mpr ⟨hx, ho⟩
    exact hh.object x (List.mem_filter.mp found).1 ho
  native := hs.natives ▸ hh.native

/-! ### What is asked about an object -/

theorem object?_view (ho : p.object o = true) :
    (h.view p).object? o = (h.object? o).map (Instance.view p) := by
  unfold object?
  show ((h.own p).map (Instance.view p)).find? (fun x => x.id = o) = _
  rw [List.find?_map, own, List.find?_filter]
  congr 2
  funext x
  by_cases hx : x.id = o
  · simp [Function.comp, Instance.view, hx, ho]
  · simp [Function.comp, Instance.view, hx]

theorem object_view (ho : p.object o = true) : (h.view p).object o = (h.object o).view p := by
  rw [object, object?_view ho, object]
  cases h.object? o with
  | none => exact (Instance.view_new o default).symm
  | some x => rfl

theorem Owned.instance (hh : h.Owned p) (ho : p.object o = true) : (h.object o).Owned p := by
  unfold Host.object
  cases hx : h.object? o with
  | none => exact .new o trivial
  | some x =>
    have known : x.id = o := by simpa using List.find?_some hx
    exact hh.object x (List.mem_of_find?_eq_some hx) (known ▸ ho)

theorem definition_view (ho : p.object o = true) :
    (h.view p).definition o = (h.definition o).view p := by
  rw [definition, object_view ho]
  rfl

theorem fields_view (ho : p.object o = true) :
    ((h.view p).definition o).fields = (h.definition o).fields := by
  rw [definition_view ho, Definition.fields_view]

theorem classOf_view (ho : p.object o = true) : (h.view p).classOf o = h.classOf o := by
  rw [classOf, definition_view ho, Definition.className_view]
  rfl

theorem agreeOn_classOf (h : Host) : h.classOf.AgreeOn p (h.view p).classOf :=
  fun _ ho => classOf_view ho

theorem text_view {v : Variant} (hv : v.Owned p) : (h.view p).text (v.view p) = h.text v :=
  Variant.text_view h.agreeOn_classOf v hv

theorem hasMethod_view (ho : p.object o = true) (name : String) :
    (h.view p).hasMethod o name = h.hasMethod o name := by
  rw [hasMethod, definition_view ho, Definition.method?_view, Option.isSome_map]
  rfl

theorem property?_view (ho : p.object o = true) (name : String) :
    (h.view p).property? o name = (h.property? o name).map (Variant.view p) := by
  rw [property?, object_view ho]
  exact assoc?_map _ _ _

theorem Owned.property? (hh : h.Owned p) (ho : p.object o = true) {name : String} {v : Variant}
    (hv : h.property? o name = some v) : v.Owned p :=
  (hh.instance ho).properties _ (mem_of_assoc? hv)

theorem valueHasMethod_view {v : Variant} (hv : v.Owned p) (name : String) :
    (h.view p).valueHasMethod (v.view p) name = h.valueHasMethod v name := by
  cases v with
  | object o => exact hasMethod_view (Variant.owned_object.mp hv) name
  | _ => rfl

theorem get_view {v : Variant} (hv : v.Owned p) (key : Variant) :
    (h.view p).get (v.view p) (key.view p) = (h.get v key).view p := by
  cases v with
  | object o =>
    cases key with
    | string name =>
      simp only [Variant.view, get, property?_view (Variant.owned_object.mp hv)]
      exact (Variant.view_ofOption _).symm
    | _ => rfl
  | dictionary es =>
    have view := Variant.get_view (p := p) (.dictionary es) key
    rw [Variant.view_dictionary] at view ⊢
    exact view
  | _ => exact Variant.get_view _ _

theorem Owned.get (hh : h.Owned p) {v : Variant} (hv : v.Owned p) (key : Variant) :
    (h.get v key).Owned p := by
  unfold Host.get
  split
  · exact Variant.owned_ofOption fun _ h => hh.property? (Variant.owned_object.mp hv) h
  · exact Variant.owned_get hv

theorem isNull_view {s : Signal} (hs : p.object s.object = true) :
    (h.view p).isNull s = h.isNull s := by
  rw [isNull, hasMethod_view hs, isNull]

theorem isValid_view : (c : Callable) → c.Owned p → (h.view p).isValid (c.view p) = h.isValid c
  | .method _ _, hc => hasMethod_view (Callable.owned_method.mp hc) _
  | .native _, _ => rfl
  | .script _, _ => rfl
  | .bound target _ _, hc => isValid_view target (Callable.owned_bound.mp hc).1

theorem behaviour?_view {f : Native} (hf : p.native f.key = true) :
    (h.view p).behaviour? f = (h.behaviour? f).map (Behaviour.view p) := by
  have found : (h.view p).natives.find? (fun x => x.native.key = f.key) =
      (h.natives.find? fun x => x.native.key = f.key).map (NativeFunction.view p) := by
    show ((h.natives.filter _).map (NativeFunction.view p)).find? _ = _
    rw [List.find?_map, List.find?_filter]
    congr 2
    funext x
    by_cases hx : x.native.key = f.key
    · simp [Function.comp, NativeFunction.view, hx, hf]
    · simp [Function.comp, NativeFunction.view, hx]
  rw [behaviour?, found, behaviour?, Option.map_map, Option.map_map]
  rfl

theorem Owned.behaviour? (hh : h.Owned p) {f : Native} (hf : p.native f.key = true)
    {b : Behaviour} (hb : h.behaviour? f = some b) : b.Owned p := by
  obtain ⟨x, hx, rfl⟩ := Option.map_eq_some_iff.mp hb
  have known : x.native.key = f.key := by simpa using List.find?_some hx
  exact hh.native x (List.mem_of_find?_eq_some hx) (known ▸ hf)

/-! ### What is done to an object -/

/-- What can be done to an object of the party. -/
structure Change (p : Party) (f g : Instance → Instance) : Prop where
  id : ∀ x, (f x).id = x.id
  view : ∀ x, g (x.view p) = (f x).view p
  owned : ∀ x, x.Owned p → (f x).Owned p

variable {f g : Instance → Instance}

/-- The object that an update makes of another. -/
theorem id_update (hf : ∀ x, (f x).id = x.id) (o : ObjectId) (x : Instance) :
    (if x.id = o then f x else x).id = x.id := by
  split
  · exact hf x
  · rfl

theorem own_update (q : Party) (hf : ∀ x, (f x).id = x.id) (h : Host) (o : ObjectId) :
    (h.update o f).own q = (h.own q).map fun x => if x.id = o then f x else x := by
  unfold own update
  rw [List.filter_map]
  congr 2
  funext x
  exact congrArg q.object (id_update hf o x)

theorem view_update (hf : Change p f g) (h : Host) (o : ObjectId) :
    (h.update o f).view p = (h.view p).update o g := by
  have objects : ((h.update o f).own p).map (Instance.view p) =
      ((h.own p).map (Instance.view p)).map fun x => if x.id = o then g x else x := by
    rw [own_update p hf.id, List.map_map, List.map_map]
    refine List.map_congr_left fun x _ => ?_
    show (if x.id = o then f x else x).view p = if x.id = o then g (x.view p) else x.view p
    split
    · exact (hf.view x).symm
    · rfl
  show (⟨_, _, _⟩ : Host) = ⟨_, _, _⟩
  rw [objects]
  rfl

theorem Owned.update (hf : Change p f g) (hh : h.Owned p) (o : ObjectId) :
    (h.update o f).Owned p where
  object x hx ho := by
    obtain ⟨y, hy, rfl⟩ := List.mem_map.mp hx
    have owned := hh.object y hy (id_update hf.id o y ▸ ho)
    split
    · exact hf.owned y owned
    · exact owned
  native := hh.native

theorem Spares.update (hf : ∀ x, (f x).id = x.id) (h : Host) (ho : p.object o = true) :
    Spares p h (h.update o f) := by
  refine ⟨?_, rfl⟩
  rw [own_update _ hf]
  refine List.map_congr_left (fun x hx => if_neg fun hid => ?_) |>.trans (List.map_id _)
  have other : (!p.object x.id) = true := (List.mem_filter.mp hx).2
  rw [hid, ho] at other
  cases other

variable {x : Instance}

theorem view_add (hx : p.object x.id = true) (h : Host) :
    (h.add x).view p = (h.view p).add (x.view p) := by
  simp [add, view, own, List.filter_append, hx]

theorem Owned.add (hh : h.Owned p) (hx : x.Owned p) : (h.add x).Owned p where
  object y hy ho := by
    rcases List.mem_append.mp hy with hy | hy
    · exact hh.object y hy ho
    · exact List.mem_singleton.mp hy ▸ hx
  native := hh.native

theorem Spares.add (h : Host) (hx : p.object x.id = true) : Spares p h (h.add x) :=
  ⟨by simp [own, Host.add, List.filter_append, Party.others, hx], rfl⟩

theorem view_record (h : Host) (e : Event) : (h.record e).view p = (h.view p).record (e.view p) :=
  rfl

theorem Owned.record (hh : h.Owned p) (e : Event) : (h.record e).Owned p := ⟨hh.object, hh.native⟩

theorem Spares.record (h : Host) (e : Event) : Spares p h (h.record e) := ⟨rfl, rfl⟩

theorem writeIn_view (takesNew : Bool) (name : String) (value : Variant)
    (ps : List (String × Variant)) :
    writeIn takesNew name (value.view p) (ps.map fun e => (e.1, e.2.view p)) =
      (writeIn takesNew name value ps).map (·.map fun e => (e.1, e.2.view p)) := by
  induction ps with
  | nil => cases takesNew <;> rfl
  | cons e rest ih =>
    obtain ⟨n, v⟩ := e
    simp only [List.map_cons, writeIn]
    split
    · rfl
    · rw [ih]
      cases writeIn takesNew name value rest <;> rfl

theorem owned_writeIn {takesNew : Bool} {name : String} {value : Variant}
    {ps qs : List (String × Variant)} (hp : ∀ e ∈ ps, e.2.Owned p) (hv : value.Owned p)
    (h : writeIn takesNew name value ps = some qs) : ∀ e ∈ qs, e.2.Owned p := by
  induction ps generalizing qs with
  | nil =>
    cases takesNew with
    | false => cases h
    | true =>
      cases h
      exact List.forall_mem_singleton.mpr hv
  | cons e rest ih =>
    obtain ⟨n, v⟩ := e
    rw [List.forall_mem_cons] at hp
    rw [writeIn] at h
    split at h
    · cases h
      exact List.forall_mem_cons.mpr ⟨hv, hp.2⟩
    · obtain ⟨qs, hq, rfl⟩ := Option.map_eq_some_iff.mp h
      exact List.forall_mem_cons.mpr ⟨hp.1, ih hp.2 hq⟩

/-- New properties that belong to the party. -/
theorem Change.properties {qs : List (String × Variant)} (hq : ∀ e ∈ qs, e.2.Owned p) :
    Change p (fun x => { x with properties := qs })
      (fun x => { x with properties := qs.map fun e => (e.1, e.2.view p) }) :=
  ⟨fun _ => rfl, fun _ => rfl, fun _ hx => ⟨hx.definition, hq, hx.connections, hx.lastWill⟩⟩

/-- A write is the same to the party, and stays with it. -/
theorem write_view (hh : h.Owned p) (ho : p.object o = true) (name : String) {value : Variant}
    (hv : value.Owned p) :
    (h.view p).write o name (value.view p) =
        ((h.write o name value).1, (h.write o name value).2.view p) ∧
      (h.write o name value).2.Owned p ∧ Spares p h (h.write o name value).2 := by
  unfold write
  rw [object_view ho]
  dsimp only [Instance.view]
  rw [Definition.isBare_view, Definition.takesNew_view, writeIn_view]
  split
  · exact ⟨rfl, hh, .refl h⟩
  · cases hw : writeIn (h.object o).definition.takesNew name value (h.object o).properties with
    | none => exact ⟨rfl, hh.record _, .record h _⟩
    | some qs =>
      have change := Change.properties (p := p) (owned_writeIn (hh.instance ho).properties hv hw)
      refine ⟨?_, (hh.update change o).record _,
        (Spares.update change.id h ho).trans (.record _ _)⟩
      dsimp only [Option.map_some]
      rw [view_record, view_update change]
      rfl

end Host

end ScriptHost
