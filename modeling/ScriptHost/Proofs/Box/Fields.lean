import ScriptHost.Bridge
import ScriptHost.Proofs.Box.Dispatch
import ScriptHost.Proofs.Host.Properties
import ScriptHost.Proofs.Machine.Running

/-! Fields of host objects, read and written by scripts while the host switches the access
mode. At every moment the mode of that moment and what the object declares settle which calls
of the host an access makes. -/

namespace ScriptHost

variable {α : Type}

/-! ### What an access does -/

section Rules

variable (mode : AccessMode) (h : Host) (o : ObjectId) (key : Variant)

/-- The calls that an assignment to an object of the host `h` makes. -/
inductive Assigns (value : Variant) : (Reentry → Act Unit) → Prop
  | overridden {b : Behaviour} : (h.definition o).override? .newIndex = some b →
    Assigns value fun r => do
      Act.record (.override o .newIndex [key, value])
      match ← r.perform r.site .attached (some o) b [key, value] with
      | .ok _ => return ()
      | .error e => Act.throw (e.toScript "__newindex")
  | set {name : String} : (h.definition o).override? .newIndex = none → key = .string name →
    mode.allows (h.definition o).fields name = true →
    Assigns value fun _ => Act.onHost fun h => ((), (h.write o name value).2)
  | denied {name : String} : (h.definition o).override? .newIndex = none → key = .string name →
    mode.allows (h.definition o).fields name = false → Assigns value fun _ => return ()
  | nameless : (h.definition o).override? .newIndex = none → (∀ name, key ≠ .string name) →
    Assigns value fun _ => return ()

/-- The calls that reading a field of an object of the host `h` makes, where the object is in
box `b`, and what the script gets. -/
inductive Reads (b : Nat) : (Reentry → Act Value) → Prop
  | overridden {behaviour : Behaviour} : (h.definition o).override? .index = some behaviour →
    Reads b fun r => do
      Act.record (.override o .index [key])
      match ← r.perform r.site .attached (some o) behaviour [key] with
      | .ok v => Act.push v
      | .error e => Act.throw (e.toScript "__index")
  | nameless : (h.definition o).override? .index = none → (∀ name, key ≠ .string name) →
    Reads b fun _ => return .nil
  | denied {name : String} : (h.definition o).override? .index = none → key = .string name →
    mode.allows (h.definition o).fields name = false → Reads b fun _ => return .nil
  | method {name : String} : (h.definition o).override? .index = none → key = .string name →
    mode.allows (h.definition o).fields name = true → h.hasMethod o name = true →
    Reads b fun _ => Act.newFunction (.method b name)
  | property {name : String} : (h.definition o).override? .index = none → key = .string name →
    mode.allows (h.definition o).fields name = true → h.hasMethod o name = false →
    Reads b fun _ => Act.push (Variant.ofOption (h.property? o name))

end Rules

/-! ### Objects behind hooks -/

theorem World.Shown.definition {w w' : World} (h : w.Shown w') (o : ObjectId) :
    w'.host.definition o = w.host.definition o :=
  Host.definition_congr h.objects o

namespace Box

variable {w : World} {o : ObjectId} {key value : Value} {k v : Variant}

theorem writeObject_of_some (r : Reentry) {b : Behaviour}
    (hd : (w.host.definition o).override? .newIndex = some b)
    (hk : w.bridge.heap.decode w.bridge.id key = k)
    (hv : w.bridge.heap.decode w.bridge.id value = v) : writeObject r o key value w = (do
      Act.record (.override o .newIndex [k, v])
      match ← r.perform r.site .attached (some o) b [k, v] with
      | .ok _ => return ()
      | .error e => Act.throw (e.toScript "__newindex") : Act Unit) w := by
  rw [writeObject, Act.bind_of_ok (Act.decode_eq key w), Act.bind_of_ok (Act.decode_eq value w),
    hk, hv, r.override?_of_some hd (by decide)]
  refine congrFun (bind_congr fun _ => bind_congr fun result => ?_) w
  cases result <;> rfl

theorem readObject_of_some (r : Reentry) (b : Nat) {behaviour : Behaviour}
    (hd : (w.host.definition o).override? .index = some behaviour)
    (hk : w.bridge.heap.decode w.bridge.id key = k) : readObject r b o key w = (do
      Act.record (.override o .index [k])
      match ← r.perform r.site .attached (some o) behaviour [k] with
      | .ok v => Act.push v
      | .error e => Act.throw (e.toScript "__index") : Act Value) w := by
  rw [readObject, Act.bind_of_ok (Act.decode_eq key w), hk,
    r.override?_of_some hd (by decide)]
  refine congrFun (bind_congr fun _ => bind_congr fun result => ?_) w
  cases result <;> rfl

/-- An assignment to an object makes the calls that the rules name. -/
theorem exists_assigns (w : World) (o : ObjectId) (key value : Value) :
    ∃ run, Assigns w.bridge.mode w.host o
        (w.bridge.heap.decode w.bridge.id key) (w.bridge.heap.decode w.bridge.id value) run ∧
      ∀ (r : Reentry) (w₁ : World), w.Shown w₁ → writeObject r o key value w₁ = run r w₁ := by
  have reads {w₁ : World} (h₁ : w.Shown w₁) (x : Value) :
      w₁.bridge.heap.decode w₁.bridge.id x = w.bridge.heap.decode w.bridge.id x := by
    rw [h₁.heap, h₁.id]
  -- What the object declares comes first, then the name, then the mode.
  cases hd : (w.host.definition o).override? .newIndex with
  | some b =>
    refine ⟨_, .overridden hd, fun r w₁ h₁ => ?_⟩
    have hd₁ : (w₁.host.definition o).override? .newIndex = some b := by rw [h₁.definition, hd]
    exact writeObject_of_some r hd₁ (reads h₁ key) (reads h₁ value)
  | none =>
    have field (r : Reentry) {w₁ : World} (h₁ : w.Shown w₁) : writeObject r o key value w₁ =
        writeField o (w.bridge.heap.decode w.bridge.id key)
          (w.bridge.heap.decode w.bridge.id value) w₁ := by
      have hd₁ : (w₁.host.definition o).override? .newIndex = none := by rw [h₁.definition, hd]
      rw [writeObject_of_none r hd₁, reads h₁, reads h₁]
    cases hk : w.bridge.heap.decode w.bridge.id key with
    | string name =>
      have asked (r : Reentry) {w₁ : World} (h₁ : w.Shown w₁) :
          writeObject r o key value w₁ =
            if w.bridge.mode.allows (w.host.definition o).fields name then
              .ok () { w₁ with host :=
                (w₁.host.write o name (w.bridge.heap.decode w.bridge.id value)).2 }
            else .ok () w₁ := by
        rw [field r h₁, hk, writeField_string, h₁.mode, h₁.definition]
      cases ha : w.bridge.mode.allows (w.host.definition o).fields name with
      | true =>
        refine ⟨_, .set hd rfl ha, fun r w₁ h₁ => ?_⟩
        rw [asked r h₁, if_pos ha]
        rfl
      | false =>
        refine ⟨_, .denied hd rfl ha, fun r w₁ h₁ => ?_⟩
        rw [asked r h₁, if_neg (ne_true_of_eq_false ha)]
        rfl
    | _ =>
      refine ⟨_, .nameless hd (by simp), fun r w₁ h₁ => ?_⟩
      rw [field r h₁, hk]
      rfl

/-- Reading a field of an object makes the calls that the rules name. -/
theorem exists_reads (w : World) (b : Nat) (o : ObjectId) (key : Value) :
    ∃ run, Reads w.bridge.mode w.host o
        (w.bridge.heap.decode w.bridge.id key) b run ∧
      ∀ (r : Reentry) (w₁ : World), w.Shown w₁ → readObject r b o key w₁ = run r w₁ := by
  have reads {w₁ : World} (h₁ : w.Shown w₁) :
      w₁.bridge.heap.decode w₁.bridge.id key = w.bridge.heap.decode w.bridge.id key := by
    rw [h₁.heap, h₁.id]
  -- The order is that of assignments. Of a name in reach a method hides a property.
  cases hd : (w.host.definition o).override? .index with
  | some behaviour =>
    refine ⟨_, .overridden hd, fun r w₁ h₁ => ?_⟩
    have hd₁ : (w₁.host.definition o).override? .index = some behaviour := by
      rw [h₁.definition, hd]
    exact readObject_of_some r b hd₁ (reads h₁)
  | none =>
    have field (r : Reentry) {w₁ : World} (h₁ : w.Shown w₁) :
        readObject r b o key w₁ = readField b o (w.bridge.heap.decode w.bridge.id key) w₁ := by
      have hd₁ : (w₁.host.definition o).override? .index = none := by rw [h₁.definition, hd]
      rw [readObject_of_none r b hd₁, reads h₁]
    cases hk : w.bridge.heap.decode w.bridge.id key with
    | string name =>
      have asked (r : Reentry) {w₁ : World} (h₁ : w.Shown w₁) : readObject r b o key w₁ =
          (if !w.bridge.mode.allows (w.host.definition o).fields name then pure .nil
          else if w.host.hasMethod o name then Act.newFunction (.method b name)
          else Act.push (Variant.ofOption (w.host.property? o name))) w₁ := by
        rw [field r h₁, hk, readField_string, h₁.mode, Host.hasMethod, h₁.definition,
          Host.property?_congr h₁.objects]
        rfl
      cases ha : w.bridge.mode.allows (w.host.definition o).fields name with
      | false =>
        refine ⟨_, .denied hd rfl ha, fun r w₁ h₁ => ?_⟩
        rw [asked r h₁, ha]
        rfl
      | true =>
        cases hm : w.host.hasMethod o name with
        | true =>
          refine ⟨_, .method hd rfl ha hm, fun r w₁ h₁ => ?_⟩
          rw [asked r h₁, ha, hm]
          rfl
        | false =>
          refine ⟨_, .property hd rfl ha hm, fun r w₁ h₁ => ?_⟩
          rw [asked r h₁, ha, hm]
          rfl
    | _ =>
      refine ⟨_, .nameless hd (by simp), fun r w₁ h₁ => ?_⟩
      rw [field r h₁, hk]
      rfl

end Box

/-! ### Writes without effect -/

/-- Whether nothing comes of an assignment: the field is out of reach, or the object refuses. -/
def Host.Drops (mode : AccessMode) (h : Host) (o : ObjectId) (key : Variant) : Prop :=
  (h.definition o).override? .newIndex = none ∧ ∀ name, key = .string name →
    mode.allows (h.definition o).fields name = true → h.takes o name = false

theorem Host.objects_write_of_takes {h : Host} {o : ObjectId} {name : String}
    (ht : h.takes o name = false) (value : Variant) :
    (h.write o name value).2.objects = h.objects := by
  have written := h.written_write o name value
  generalize h.write o name value = result at written ⊢
  cases written with
  | unnoticed => rfl
  | refused => rfl
  | taken _ taken => exact absurd (ht.symm.trans taken) Bool.false_ne_true

namespace Assigns

variable {mode : AccessMode} {h : Host} {o : ObjectId} {key value : Variant}
  {run : Reentry → Act Unit}

/-- Where nothing comes of an assignment, it ends, and the objects are as they were. -/
theorem ends_of_drops (ha : Assigns mode h o key value run) (hd : h.Drops mode o key)
    (r : Reentry) {w : World} (hw : w.host.objects = h.objects) :
    ∃ host : Host, run r w = .ok () { w with host := host } ∧
      host.objects = h.objects := by
  obtain ⟨declares, refuses⟩ := hd
  cases ha with
  | overridden hb =>
    rw [declares] at hb
    cases hb
  | @set name _ hk allowed =>
    have refused : w.host.takes o name = false := by
      rw [Host.takes_congr hw]
      exact refuses name hk allowed
    refine ⟨(w.host.write o name value).2, rfl, ?_⟩
    exact (Host.objects_write_of_takes refused value).trans hw
  | denied => exact ⟨w.host, rfl, hw⟩
  | nameless => exact ⟨w.host, rfl, hw⟩

end Assigns

/-! ### Runs -/

/-- What happens next: the host switches the mode, or a script accesses a box. -/
inductive Turn
  | switch (permissive : Bool)
  | read (site : Site) (box : Nat) (key : Value) (of? : Option Origin)
  | assign (site : Site) (box : Nat) (key value : Value) (of? : Option Origin)

def Turn.act (n : Nat) : Turn → Act Unit
  | switch permissive => Request.setMode (.ofPermissive permissive)
  | read site box key of? => do let _ ← (Reentry.upTo n site).index (.box box) key of?
  | assign site box key value of? => (Reentry.upTo n site).setIndex (.box box) key value of?

/-- The values that a turn mentions belong to the interpreter. -/
def Turn.OwnedBy (owner : Nat) : Turn → Prop
  | switch _ => True
  | read _ _ key _ => key.OwnedBy owner
  | assign _ _ key value _ => key.OwnedBy owner ∧ value.OwnedBy owner

/-- The mode after some turns is that of the last switch. -/
def modeAfter (mode : AccessMode) : List Turn → AccessMode
  | [] => mode
  | .switch permissive :: rest => modeAfter (.ofPermissive permissive) rest
  | _ :: rest => modeAfter mode rest

/-- The turns lead from one world to another, whether each of them succeeds or not. -/
inductive Turn.Leads (n : Nat) (w : World) : List Turn → World → Prop
  | start : Leads n w [] w
  | turn {ts : List Turn} {t : Turn} {w₁ w₂ : World} {result : Except Value Unit} :
    Leads n w ts w₁ → t.OwnedBy w.bridge.id → (t.act n).attempt w₁ = .ok result w₂ →
    Leads n w (ts ++ [t]) w₂

theorem modeAfter_append (mode : AccessMode) (ts : List Turn) (t : Turn) :
    modeAfter mode (ts ++ [t]) = modeAfter (modeAfter mode ts) [t] := by
  induction ts generalizing mode with
  | nil => rfl
  | cons u rest ih =>
    cases u with
    | switch permissive => exact ih _
    | read => exact ih _
    | assign => exact ih _

namespace Turn

variable {n owner : Nat} {w w' : World} {t : Turn}

/-- One turn keeps the interpreter to itself, and only a switch changes the mode. -/
theorem attempt_act {result : Except Value Unit} (hw : w.OwnedBy owner) (ht : t.OwnedBy owner)
    (h : (t.act n).attempt w = .ok result w') :
    w'.OwnedBy owner ∧ w'.bridge.mode = modeAfter w.bridge.mode [t] := by
  have kept {x : Act Unit} (hx : Act.Keeps owner (fun _ => True) x)
      (h : x.attempt w = .ok result w') :
      w'.OwnedBy owner ∧ w'.bridge.mode = w.bridge.mode := by
    have good := hx.attempt w hw
    rw [h] at good
    exact ⟨good.1, good.2.1.mode⟩
  have box (b : Nat) : (Value.box b).OwnedBy owner := trivial
  cases t with
  | switch permissive =>
    cases h
    exact ⟨⟨hw.id, hw.heap⟩, rfl⟩
  | read site b key of? =>
    have keeps : Reentry.Keeps owner (Reentry.upTo n site) := .upTo n site
    exact kept (.bind (keeps.index (box b) ht of?) fun _ _ => .pure trivial) h
  | assign site b key value of? =>
    exact kept ((Reentry.Keeps.upTo n site).setIndex (box b) ht.1 ht.2 of?) h

theorem Leads.kept {ts : List Turn} (hl : Leads n w ts w') (hw : w.OwnedBy w.bridge.id) :
    w'.OwnedBy w.bridge.id ∧ w'.bridge.mode = modeAfter w.bridge.mode ts := by
  induction hl with
  | start => exact ⟨hw, rfl⟩
  | turn _ ht h ih =>
    obtain ⟨own, mode⟩ := attempt_act ih.1 ht h
    rw [modeAfter_append, ← ih.2]
    exact ⟨own, mode⟩

end Turn

/-- After any run of accesses and switches, an access to an object makes exactly the calls
that the rules name for the mode of the last switch. -/
theorem accesses_follow_the_mode (n : Nat) (w w' : World) (ts : List Turn)
    (hw : w.OwnedBy w.bridge.id) (hl : Turn.Leads n w ts w') (site : Site) (b : Nat)
    (o : ObjectId) (hb : w'.bridge.heap.boxed? b = some (.object o)) (of? : Option Origin)
    (key : Value) :
    let r := Reentry.upTo n site
    let mode := modeAfter w.bridge.mode ts
    let k := w'.bridge.heap.decode w'.bridge.id key
    (∃ run, Reads mode w'.host o k b run ∧ r.index (.box b) key of? w' = r.outside run w') ∧
    ∀ value : Value,
      (∃ run, Assigns mode w'.host o k (w'.bridge.heap.decode w'.bridge.id value) run ∧
        r.setIndex (.box b) key value of? w' = r.outside run w') ∧
      (w'.host.Drops mode o k →
        ((r.setIndex (.box b) key value of? w').Ends fun w'' =>
          w''.host.objects = w'.host.objects) ∧
        (w'.stop? = none → ∃ w'', r.setIndex (.box b) key value of? w' = .ok () w'')) := by
  intro r mode k
  -- Only switches change the mode.
  have moded : w'.bridge.mode = mode := (hl.kept hw).2
  obtain ⟨reading, reads, hr⟩ := Box.exists_reads w' b o key
  rw [moded] at reads
  refine ⟨⟨reading, reads, ?_⟩, fun value => ?_⟩
  · rw [r.index_object hb of?]
    exact Act.outside_congr _ fun w₁ h₁ => hr r.inside w₁ h₁
  obtain ⟨writing, assigns, hs⟩ := Box.exists_assigns w' o key value
  rw [moded] at assigns
  have whole : r.setIndex (.box b) key value of? w' = r.outside writing w' := by
    rw [r.setIndex_object hb of?]
    exact Act.outside_congr _ fun w₁ h₁ => hs r.inside w₁ h₁
  refine ⟨⟨writing, assigns, whole⟩, fun drops => ?_⟩
  rw [whole]
  constructor
  · refine Act.outside_ends (fun h hw₁ => h.objects.trans hw₁) (fun _ _ hw₁ => hw₁)
      (fun w₁ hw₁ => ?_) rfl _
    obtain ⟨host, ended, same⟩ := assigns.ends_of_drops drops r.inside hw₁
    rw [ended]
    exact same
  · intro hn
    have ends (w₁ : World) (h₁ : w'.Shown w₁) :
        ∃ a w₂, writing r.inside w₁ = .ok a w₂ ∧ w₂.stop? = w₁.stop? := by
      obtain ⟨host, ended, -⟩ := assigns.ends_of_drops drops r.inside h₁.objects
      exact ⟨(), _, ended, rfl⟩
    obtain ⟨_, w'', ended⟩ := Act.outside_ok hn ends (r.site.callee?.map Origin.name)
    exact ⟨w'', ended⟩

/-- A player who shows nothing but health, in box 0. -/
def World.player : World where
  host := ⟨[.new ⟨"player"⟩
    (.full "Player" [("health", .int 3), ("x", .int 7)] false [] (some ["health"]) [])], [], []⟩
  bridge :=
    let h := (Heap.initial.newBox ⟨.object ⟨"player"⟩, rfl⟩).2
    ⟨"main", 1, h, .restrictive, none, false, false, []⟩

/-- What is in reach in one mode is out of reach after a switch, for a box that was there
before. -/
theorem accesses_follow_the_mode_player :
    let hurt : Turn := .assign .outermost 0 (.ofString "health") (.int 2) none
    World.player.OwnedBy 1 ∧ ∃ w', Turn.Leads 1 World.player [hurt, .switch true] w' ∧
      w'.bridge.heap.boxed? 0 = some (.object ⟨"player"⟩) ∧
      w'.host.property? ⟨"player"⟩ "health" = some (.int 2) ∧
      (∃ run, Reads .permissive w'.host ⟨"player"⟩ (.string "health") 0 run ∧
        (Reentry.upTo 1 .outermost).index (.box 0) (.ofString "health") none w' =
          (Reentry.upTo 1 .outermost).outside run w') ∧
      w'.host.Drops .permissive ⟨"player"⟩ (.string "health") ∧
      ∃ w'', (Reentry.upTo 1 .outermost).setIndex (.box 0) (.ofString "health") (.int 9) none w' =
        .ok () w'' := by
  intro hurt
  have own : World.player.OwnedBy 1 := ⟨rfl, Heap.OwnedBy.initial.newBox _⟩
  have text : Value.OwnedBy 1 (.ofString "health") := trivial
  have leads : ∃ w', Turn.Leads 1 World.player [hurt, .switch true] w' ∧
      w'.bridge.heap.boxed? 0 = some (.object ⟨"player"⟩) ∧
      w'.host.property? ⟨"player"⟩ "health" = some (.int 2) ∧
      w'.bridge.heap.decode w'.bridge.id (.ofString "health") = .string "health" ∧
      w'.stop? = none ∧ w'.host.Drops .permissive ⟨"player"⟩ (.string "health") := by
    have first : Turn.Leads 1 World.player [hurt] _ := .turn .start ⟨text, trivial⟩ rfl
    refine ⟨_, .turn first trivial rfl, rfl, rfl, rfl, rfl, rfl, ?_⟩
    rintro name hk ha
    cases hk
    cases ha
  obtain ⟨w', leads, box, health, decoded, stop, drops⟩ := leads
  have access := accesses_follow_the_mode 1 _ _ _ own leads .outermost 0 _ box none
    (.ofString "health")
  dsimp only at access
  rw [decoded] at access
  exact ⟨own, w', leads, box, health, access.1, drops, ((access.2 (.int 9)).2 drops).2 stop⟩

end ScriptHost
