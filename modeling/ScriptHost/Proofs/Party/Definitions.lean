import ScriptHost.Proofs.Host.Properties
import ScriptHost.Proofs.Party.Values

/-! What host objects and host functions do, as one side of a session sees it. -/

namespace ScriptHost

variable {p : Party}

mutual

/-- The behaviour with the values in it as the party sees them. -/
def Behaviour.view (p : Party) (b : Behaviour) : Behaviour :=
  match b with
  | .give v => .give (v.view p)
  | .create definition => .create (Definition.view p definition)
  | b => b
termination_by structural b

def Definition.view (p : Party) (d : Definition) : Definition :=
  match d with
  | .bare name => .bare name
  | .full name properties growing methods fields overrides =>
    .full name (properties.map fun e => (e.1, e.2.view p)) growing
      (Definition.methodsView p methods) fields (Definition.overridesView p overrides)
termination_by structural d

def Definition.methodsView (p : Party) (es : List (String × Behaviour)) :
    List (String × Behaviour) :=
  match es with
  | [] => []
  | e :: rest => Definition.methodView p e :: Definition.methodsView p rest
termination_by structural es

def Definition.methodView (p : Party) (e : String × Behaviour) : String × Behaviour :=
  match e with
  | (name, b) => (name, Behaviour.view p b)
termination_by structural e

def Definition.overridesView (p : Party) (es : List (Metamethod × Behaviour)) :
    List (Metamethod × Behaviour) :=
  match es with
  | [] => []
  | e :: rest => Definition.overrideView p e :: Definition.overridesView p rest
termination_by structural es

def Definition.overrideView (p : Party) (e : Metamethod × Behaviour) : Metamethod × Behaviour :=
  match e with
  | (op, b) => (op, Behaviour.view p b)
termination_by structural e

end

mutual

/-- All values in the behaviour belong to the party. -/
def Behaviour.Owned (p : Party) (b : Behaviour) : Prop :=
  match b with
  | .give v => v.Owned p
  | .create definition => Definition.Owned p definition
  | _ => True
termination_by structural b

def Definition.Owned (p : Party) (d : Definition) : Prop :=
  match d with
  | .bare _ => True
  | .full _ properties _ methods _ overrides =>
    (∀ e ∈ properties, e.2.Owned p) ∧ Definition.MethodsOwned p methods ∧
      Definition.OverridesOwned p overrides
termination_by structural d

def Definition.MethodsOwned (p : Party) (es : List (String × Behaviour)) : Prop :=
  match es with
  | [] => True
  | e :: rest => Definition.MethodOwned p e ∧ Definition.MethodsOwned p rest
termination_by structural es

def Definition.MethodOwned (p : Party) (e : String × Behaviour) : Prop :=
  match e with
  | (_, b) => Behaviour.Owned p b
termination_by structural e

def Definition.OverridesOwned (p : Party) (es : List (Metamethod × Behaviour)) : Prop :=
  match es with
  | [] => True
  | e :: rest => Definition.OverrideOwned p e ∧ Definition.OverridesOwned p rest
termination_by structural es

def Definition.OverrideOwned (p : Party) (e : Metamethod × Behaviour) : Prop :=
  match e with
  | (_, b) => Behaviour.Owned p b
termination_by structural e

end

/-! ### Lists of pairs -/

theorem assoc?_map {α β γ : Type} [DecidableEq α] (f : β → γ) (key : α) (es : List (α × β)) :
    assoc? key (es.map fun e => (e.1, f e.2)) = (assoc? key es).map f := by
  induction es with
  | nil => rfl
  | cons e rest ih =>
    simp only [List.map_cons, assoc?]
    split
    · rfl
    · exact ih

/-! ### Members of a definition -/

namespace Definition

theorem methodsView_eq (es : List (String × Behaviour)) :
    methodsView p es = es.map fun e => (e.1, e.2.view p) := by
  induction es with
  | nil => rfl
  | cons e rest ih =>
    obtain ⟨name, b⟩ := e
    rw [methodsView, methodView, ih, List.map_cons]

theorem overridesView_eq (es : List (Metamethod × Behaviour)) :
    overridesView p es = es.map fun e => (e.1, e.2.view p) := by
  induction es with
  | nil => rfl
  | cons e rest ih =>
    obtain ⟨op, b⟩ := e
    rw [overridesView, overrideView, ih, List.map_cons]

theorem methodsOwned_iff {es : List (String × Behaviour)} :
    MethodsOwned p es ↔ ∀ e ∈ es, e.2.Owned p := by
  induction es with
  | nil => simp [MethodsOwned]
  | cons e rest ih =>
    obtain ⟨name, b⟩ := e
    rw [MethodsOwned, MethodOwned, ih, List.forall_mem_cons]

theorem overridesOwned_iff {es : List (Metamethod × Behaviour)} :
    OverridesOwned p es ↔ ∀ e ∈ es, e.2.Owned p := by
  induction es with
  | nil => simp [OverridesOwned]
  | cons e rest ih =>
    obtain ⟨op, b⟩ := e
    rw [OverridesOwned, OverrideOwned, ih, List.forall_mem_cons]

@[simp] theorem className_view (d : Definition) : (d.view p).className = d.className := by
  cases d <;> rfl

@[simp] theorem isBare_view (d : Definition) : (d.view p).isBare = d.isBare := by cases d <;> rfl

@[simp] theorem takesNew_view (d : Definition) : (d.view p).takesNew = d.takesNew := by
  cases d <;> rfl

@[simp] theorem fields_view (d : Definition) : (d.view p).fields = d.fields := by cases d <;> rfl

theorem properties_view (d : Definition) :
    (d.view p).properties = d.properties.map fun e => (e.1, e.2.view p) := by
  cases d <;> rfl

theorem owned_properties {d : Definition} (hd : d.Owned p) :
    ∀ e ∈ d.properties, e.2.Owned p := by
  cases d with
  | bare name => exact List.forall_mem_nil _
  | full => exact hd.1

theorem method?_view (name : String) (d : Definition) :
    (d.view p).method? name = (d.method? name).map (Behaviour.view p) := by
  cases d with
  | bare => rfl
  | full _ _ _ methods =>
    rw [view, method?, methodsView_eq]
    exact assoc?_map _ _ _

theorem owned_of_method? {name : String} {d : Definition} {b : Behaviour} (hd : d.Owned p)
    (hb : d.method? name = some b) : b.Owned p := by
  cases d with
  | bare => cases hb
  | full => exact methodsOwned_iff.mp hd.2.1 _ (mem_of_assoc? hb)

theorem override?_view (op : Metamethod) (d : Definition) :
    (d.view p).override? op = (d.override? op).map (Behaviour.view p) := by
  cases d with
  | bare => rfl
  | full _ _ _ _ _ overrides =>
    rw [view, override?, overridesView_eq]
    exact assoc?_map _ _ _

theorem owned_of_override? {op : Metamethod} {d : Definition} {b : Behaviour} (hd : d.Owned p)
    (hb : d.override? op = some b) : b.Owned p := by
  cases d with
  | bare => cases hb
  | full => exact overridesOwned_iff.mp hd.2.2 _ (mem_of_assoc? hb)

end Definition

end ScriptHost
