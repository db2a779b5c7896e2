import ScriptHost.Proofs.Codec.Crossing

/-! Actions that keep an interpreter to itself. Started in a world whose heap belongs to an
interpreter, such an action ends, if it ends, in another one, with a value or an error that
belongs to it as well. It leaves the bridge what it is to others, and adds only events
that are no reports to the record. -/

namespace ScriptHost

variable {owner : Nat} {α β : Type}

def Event.isReport : Event → Bool
  | report .. => true
  | _ => false

/-- The host has seen more. -/
def Host.Extends (h h' : Host) : Prop :=
  ∃ es : List Event, h'.log = es ++ h.log ∧ ∀ e ∈ es, e.isReport = false

/-- What no running script changes. -/
structure World.Extends (w w' : World) : Prop where
  host : w.host.Extends w'.host
  name : w'.bridge.name = w.bridge.name
  id : w'.bridge.id = w.bridge.id
  mode : w'.bridge.mode = w.bridge.mode
  prints : w'.bridge.prints = w.bridge.prints
  reports : w'.bridge.reports = w.bridge.reports

structure World.OwnedBy (owner : Nat) (w : World) : Prop where
  id : w.bridge.id = owner
  heap : w.bridge.heap.OwnedBy owner

/-- A good end of what began in `w`. -/
def Outcome.IsGood (owner : Nat) (w : World) (post : α → Prop) : Outcome α → Prop
  | .ok a w' => w'.OwnedBy owner ∧ w.Extends w' ∧ post a
  | .raised e w' => w'.OwnedBy owner ∧ w.Extends w' ∧ e.OwnedBy owner
  | .exhausted => True

def Act.Keeps (owner : Nat) (post : α → Prop) (x : Act α) : Prop :=
  ∀ w : World, w.OwnedBy owner → (x w).IsGood owner w post

/-- All values of a list. -/
def AllOwned (owner : Nat) (vs : List Value) : Prop := ∀ v ∈ vs, v.OwnedBy owner

/-! ### Growth -/

namespace Host.Extends

theorem refl (h : Host) : h.Extends h := ⟨[], rfl, nofun⟩

theorem trans {h h' h'' : Host} (a : h.Extends h') (b : h'.Extends h'') : h.Extends h'' := by
  obtain ⟨es, he, hes⟩ := a
  obtain ⟨fs, hf, hfs⟩ := b
  refine ⟨fs ++ es, by rw [hf, he, List.append_assoc], fun e hm => ?_⟩
  rcases List.mem_append.mp hm with hm | hm
  · exact hfs e hm
  · exact hes e hm

theorem of_log_eq {h h' : Host} (he : h'.log = h.log) : h.Extends h' := ⟨[], he, nofun⟩

theorem record {e : Event} (he : e.isReport = false) (h : Host) : h.Extends (h.record e) :=
  ⟨[e], rfl, by simpa using he⟩

theorem update (h : Host) (o : ObjectId) (f : Instance → Instance) : h.Extends (h.update o f) :=
  of_log_eq rfl

theorem write (h : Host) (o : ObjectId) (name : String) (value : Variant) :
    h.Extends (h.write o name value).2 := by
  unfold Host.write
  dsimp only
  split
  · exact refl h
  · split
    · exact record rfl h
    · exact record rfl h

end Host.Extends

namespace World.Extends

theorem refl (w : World) : w.Extends w := ⟨.refl _, rfl, rfl, rfl, rfl, rfl⟩

theorem trans {w w' w'' : World} (a : w.Extends w') (b : w'.Extends w'') : w.Extends w'' where
  host := a.host.trans b.host
  name := b.name.trans a.name
  id := b.id.trans a.id
  mode := b.mode.trans a.mode
  prints := b.prints.trans a.prints
  reports := b.reports.trans a.reports

end World.Extends

/-! ### Actions -/

namespace Act.Keeps

variable {post : α → Prop}

theorem pure {a : α} (ha : post a) : Keeps owner post (Pure.pure a) :=
  fun w hw => ⟨hw, .refl w, ha⟩

theorem bind {x : Act α} {f : α → Act β} {post' : β → Prop} (hx : Keeps owner post x)
    (hf : ∀ a, post a → Keeps owner post' (f a)) : Keeps owner post' (x >>= f) := by
  intro w hw
  have first := hx w hw
  show (Act.bind x f w).IsGood owner w post'
  unfold Act.bind
  cases hxw : x w with
  | exhausted => trivial
  | raised e w₁ => rwa [hxw] at first
  | ok a w₁ =>
    rw [hxw] at first
    obtain ⟨hw₁, grows, ha⟩ := first
    have second := hf a ha w₁ hw₁
    show (f a w₁).IsGood owner w post'
    cases hfw : f a w₁ with
    | exhausted => trivial
    | raised e w₂ =>
      rw [hfw] at second
      exact ⟨second.1, grows.trans second.2.1, second.2.2⟩
    | ok b w₂ =>
      rw [hfw] at second
      exact ⟨second.1, grows.trans second.2.1, second.2.2⟩

theorem weaken {post' : α → Prop} {x : Act α} (hx : Keeps owner post x)
    (h : ∀ a, post a → post' a) : Keeps owner post' x := by
  intro w hw
  have hx := hx w hw
  cases hxw : x w with
  | exhausted => trivial
  | raised => rwa [hxw] at hx
  | ok a w₁ =>
    rw [hxw] at hx
    exact ⟨hx.1, hx.2.1, h a hx.2.2⟩

theorem exhausted : Keeps owner post Act.exhausted := fun _ _ => trivial

theorem raise {e : Value} (he : e.OwnedBy owner) : Keeps owner post (Act.raise e) :=
  fun w hw => ⟨hw, .refl w, he⟩

theorem attempt {x : Act α} (hx : Keeps owner post x) :
    Keeps owner (fun r => (∀ a, r = .ok a → post a) ∧ ∀ e, r = .error e → e.OwnedBy owner)
      x.attempt := by
  intro w hw
  have hx := hx w hw
  unfold Act.attempt
  cases hxw : x w with
  | exhausted => trivial
  | raised e w₁ =>
    rw [hxw] at hx
    exact ⟨hx.1, hx.2.1, nofun, fun _ he => Except.error.inj he ▸ hx.2.2⟩
  | ok a w₁ =>
    rw [hxw] at hx
    exact ⟨hx.1, hx.2.1, fun _ ha => Except.ok.inj ha ▸ hx.2.2, nofun⟩

theorem ite {c : Prop} [Decidable c] {x y : Act α} (hx : Keeps owner post x)
    (hy : Keeps owner post y) : Keeps owner post (if c then x else y) := by
  split
  · exact hx
  · exact hy

theorem host : Keeps owner (fun _ => True) Act.host := fun w hw => ⟨hw, .refl w, trivial⟩

theorem bridge : Keeps owner (fun b => b.id = owner ∧ b.heap.OwnedBy owner) Act.bridge :=
  fun w hw => ⟨hw, .refl w, hw.id, hw.heap⟩

theorem heap : Keeps owner (Heap.OwnedBy owner) Act.heap := fun w hw => ⟨hw, .refl w, hw.heap⟩

theorem modifyHost {f : Host → Host} (hf : ∀ h : Host, h.Extends (f h)) :
    Keeps owner (fun _ => True) (Act.modifyHost f) :=
  fun w hw => ⟨⟨hw.id, hw.heap⟩, ⟨hf w.host, rfl, rfl, rfl, rfl, rfl⟩, trivial⟩

theorem onHost {f : Host → α × Host} (hf : ∀ h : Host, h.Extends (f h).2) :
    Keeps owner (fun _ => True) (Act.onHost f) :=
  fun w hw => ⟨⟨hw.id, hw.heap⟩, ⟨hf w.host, rfl, rfl, rfl, rfl, rfl⟩, trivial⟩

theorem modifyHeap {f : Heap → Heap} (hf : ∀ h : Heap, h.OwnedBy owner → (f h).OwnedBy owner) :
    Keeps owner (fun _ => True) (Act.modifyHeap f) :=
  fun _ hw => ⟨⟨hw.id, hf _ hw.heap⟩, ⟨.refl _, rfl, rfl, rfl, rfl, rfl⟩, trivial⟩

/-- A new hook changes nothing else. -/
theorem setHook (hook : Option Hook) :
    Keeps owner (fun _ => True) (Act.modifyBridge fun b => { b with hook? := hook }) :=
  fun _ hw => ⟨⟨hw.id, hw.heap⟩, ⟨.refl _, rfl, rfl, rfl, rfl, rfl⟩, trivial⟩

theorem onHeap {f : Heap → α × Heap}
    (hf : ∀ h : Heap, h.OwnedBy owner → (f h).2.OwnedBy owner ∧ post (f h).1) :
    Keeps owner post (Act.onHeap f) :=
  fun w hw => ⟨⟨hw.id, (hf _ hw.heap).1⟩, ⟨.refl _, rfl, rfl, rfl, rfl, rfl⟩,
    (hf w.bridge.heap hw.heap).2⟩

theorem record {e : Event} (he : e.isReport = false) :
    Keeps owner (fun _ => True) (Act.record e) :=
  modifyHost (.record he)

theorem throw {e : ScriptError} : Keeps owner post (Act.throw e) :=
  (onHeap fun _ hh => ⟨hh.newFault _, trivial⟩).bind fun v (hv : v.OwnedBy owner) => raise hv

theorem orThrow {r : Except ScriptError α} (hr : ∀ a, r = .ok a → post a) :
    Keeps owner post (Act.orThrow r) := by
  cases r with
  | ok a => exact pure (hr a rfl)
  | error e => exact throw

theorem newTable {t : Table} (ht : t.OwnedBy owner) :
    Keeps owner (Value.OwnedBy owner) (Act.newTable t) :=
  (onHeap fun _ hh => ⟨hh.newTable ht, trivial⟩).bind fun _ (_ : True) => pure trivial

theorem newFunction {f : Function} (hf : f.OwnedBy owner) :
    Keeps owner (Value.OwnedBy owner) (Act.newFunction f) :=
  bridge.bind fun _ hb =>
    (onHeap fun _ hh => ⟨hh.newFunction hf, trivial⟩).bind fun _ (_ : True) => pure hb.1

theorem encode (v : Variant) :
    Keeps owner (fun r => ∀ x, r = .ok x → x.OwnedBy owner) (Act.encode v) :=
  bridge.bind fun _ hb => onHeap fun _ hh => by
    rw [hb.1]
    exact hh.encode v

theorem encodeAll (vs : List Variant) :
    Keeps owner (fun r => ∀ xs, r = .ok xs → AllOwned owner xs) (Act.encodeAll vs) :=
  bridge.bind fun _ hb => onHeap fun _ hh => by
    rw [hb.1]
    exact hh.encodeAll vs

theorem push (v : Variant) : Keeps owner (Value.OwnedBy owner) (Act.push v) :=
  (encode v).bind fun r hr => orThrow fun x hx => by
    cases r with
    | error e => cases hx
    | ok y => exact Except.ok.inj hx ▸ hr y rfl

theorem decode (v : Value) : Keeps owner (fun _ => True) (Act.decode v) :=
  bridge.bind fun _ _ => pure trivial

theorem decodeAll (vs : List Value) : Keeps owner (fun _ => True) (Act.decodeAll vs) :=
  bridge.bind fun _ _ => pure trivial

theorem mapM {γ : Type} {f : γ → Act α} {xs : List γ} (hf : ∀ x ∈ xs, Keeps owner post (f x)) :
    Keeps owner (fun ys => ∀ y ∈ ys, post y) (xs.mapM f) := by
  induction xs with
  | nil => exact pure nofun
  | cons x rest ih =>
    rw [List.mapM_cons]
    rw [List.forall_mem_cons] at hf
    exact hf.1.bind fun a ha => (ih hf.2).bind fun as has =>
      pure (List.forall_mem_cons.mpr ⟨ha, has⟩)

end Act.Keeps

end ScriptHost
