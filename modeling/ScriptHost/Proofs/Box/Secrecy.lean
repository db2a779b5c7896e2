import ScriptHost.Proofs.Box.Dispatch
import ScriptHost.Proofs.Host.Properties

/-! What scripts cannot see. Two hosts that differ only in fields which the access mode keeps
from scripts are one and the same to any script that reads and assigns fields, and what is
kept from it the script does not change. -/

namespace ScriptHost

variable {α β : Type} {mode : AccessMode}

/-! ### Two hosts -/

/-- The hosts agree in all that scripts may reach, and objects answer accesses by their
fields alone. -/
structure Host.Alike (mode : AccessMode) (h h' : Host) : Prop where
  fields : ∀ o, (h'.definition o).fields = (h.definition o).fields
  index : ∀ o, (h.definition o).override? .index = none ∧
    (h'.definition o).override? .index = none
  newIndex : ∀ o, (h.definition o).override? .newIndex = none ∧
    (h'.definition o).override? .newIndex = none
  property? : ∀ o name, mode.allows (h.definition o).fields name = true →
    h'.property? o name = h.property? o name
  hasMethod : ∀ o name, mode.allows (h.definition o).fields name = true →
    h'.hasMethod o name = h.hasMethod o name
  takes : ∀ o name, mode.allows (h.definition o).fields name = true →
    h'.takes o name = h.takes o name

/-- What happens in a host whose hidden fields are neither asked to change nor change. -/
structure Host.Reserves (mode : AccessMode) (h g : Host) : Prop where
  definition : ∀ o, g.definition o = h.definition o
  property? : ∀ o name, mode.allows (h.definition o).fields name = false →
    g.property? o name = h.property? o name
  log : ∃ es : List Event, g.log = es ++ h.log ∧ ∀ o name value ok,
    .write o name value ok ∈ es → mode.allows (h.definition o).fields name = true

namespace Host.Reserves

variable {h g k : Host}

theorem refl (h : Host) : h.Reserves mode h :=
  ⟨fun _ => rfl, fun _ _ _ => rfl, [], rfl, by simp⟩

theorem trans (hg : h.Reserves mode g) (gk : g.Reserves mode k) : h.Reserves mode k where
  definition o := (gk.definition o).trans (hg.definition o)
  property? o name hn := by
    have later := gk.property? o name
    rw [hg.definition] at later
    exact (later hn).trans (hg.property? o name hn)
  log := by
    obtain ⟨es, he, hes⟩ := hg.log
    obtain ⟨fs, hf, hfs⟩ := gk.log
    refine ⟨fs ++ es, by rw [hf, he, List.append_assoc], fun o name value ok hm => ?_⟩
    rcases List.mem_append.mp hm with hm | hm
    · rw [← hg.definition]
      exact hfs o name value ok hm
    · exact hes o name value ok hm

/-- Events that are no writes give nothing away. -/
theorem of_objects (ho : g.objects = h.objects) (es : List Event) (hl : g.log = es ++ h.log)
    (hes : ∀ o name value ok, .write o name value ok ∉ es) : h.Reserves mode g where
  definition := Host.definition_congr ho
  property? o name _ := Host.property?_congr ho o name
  log := ⟨es, hl, fun o name value ok hm => absurd hm (hes o name value ok)⟩

theorem write {o : ObjectId} {name : String}
    (ha : mode.allows (h.definition o).fields name = true) (value : Variant) :
    h.Reserves mode (h.write o name value).2 where
  definition := h.definition_write o name value
  property? o' m hn := by
    have other : ¬ ((o' = o ∧ m = name) ∧ h.takes o name = true) := by
      rintro ⟨⟨rfl, rfl⟩, -⟩
      rw [ha] at hn
      cases hn
    rw [h.property?_write, if_neg other]
  log := by
    obtain ⟨es, hl, hes⟩ := h.log_write o name value
    refine ⟨es, hl, fun o' m v ok hm => ?_⟩
    obtain ⟨ok', he⟩ := hes _ hm
    cases he
    exact ha

end Host.Reserves

namespace Host.Alike

variable {h h' g g' : Host}

theorem of_objects (ha : h.Alike mode h') (hg : g.objects = h.objects)
    (hg' : g'.objects = h'.objects) : g.Alike mode g' := by
  have definition (o : ObjectId) : g.definition o = h.definition o := definition_congr hg o
  have definition' (o : ObjectId) : g'.definition o = h'.definition o := definition_congr hg' o
  constructor
  · intro o
    rw [definition, definition']
    exact ha.fields o
  · intro o
    rw [definition, definition']
    exact ha.index o
  · intro o
    rw [definition, definition']
    exact ha.newIndex o
  · intro o name hn
    rw [definition] at hn
    rw [property?_congr hg, property?_congr hg']
    exact ha.property? o name hn
  · intro o name hn
    rw [definition] at hn
    rw [Host.hasMethod, Host.hasMethod, definition, definition']
    exact ha.hasMethod o name hn
  · intro o name hn
    rw [definition] at hn
    rw [takes_congr hg, takes_congr hg']
    exact ha.takes o name hn

theorem write (ha : h.Alike mode h') {o : ObjectId} {name : String}
    (hn : mode.allows (h.definition o).fields name = true) (value : Variant) :
    (h.write o name value).2.Alike mode (h'.write o name value).2 := by
  constructor
  · intro o'
    rw [definition_write, definition_write]
    exact ha.fields o'
  · intro o'
    rw [definition_write, definition_write]
    exact ha.index o'
  · intro o'
    rw [definition_write, definition_write]
    exact ha.newIndex o'
  · intro o' m hm
    rw [definition_write] at hm
    rw [property?_write, property?_write, ha.takes o name hn, ha.property? o' m hm]
  · intro o' m hm
    rw [definition_write] at hm
    rw [Host.hasMethod, Host.hasMethod, definition_write, definition_write]
    exact ha.hasMethod o' m hm
  · intro o' m hm
    rw [definition_write] at hm
    rw [takes_write, takes_write]
    exact ha.takes o' m hm

end Host.Alike

/-! ### Two worlds -/

/-- One interpreter, in one of two hosts. -/
structure World.Alike (mode : AccessMode) (w w' : World) : Prop where
  bridge : w'.bridge = w.bridge
  host : w.host.Alike mode w'.host
  mode : w.bridge.mode = mode

/-- An action that began in `w` and in `w'` ends in the same way. -/
inductive Outcome.Agrees (mode : AccessMode) (w w' : World) : Outcome α → Outcome α → Prop
  | ok {a : α} {v v' : World} : v.Alike mode v' → w.host.Reserves mode v.host →
    w'.host.Reserves mode v'.host → Agrees mode w w' (.ok a v) (.ok a v')
  | raised {e : Value} {v v' : World} : v.Alike mode v' → w.host.Reserves mode v.host →
    w'.host.Reserves mode v'.host → Agrees mode w w' (.raised e v) (.raised e v')

/-- To the script, the action is the same in both hosts. -/
def Act.Hides (mode : AccessMode) (x : Act α) : Prop :=
  ∀ w w' : World, w.Alike mode w' → (x w).Agrees mode w w' (x w')

namespace Outcome.Agrees

variable {w w' v v' : World} {x y : Outcome α}

theorem after (h : x.Agrees mode v v' y) (hv : w.host.Reserves mode v.host)
    (hv' : w'.host.Reserves mode v'.host) : x.Agrees mode w w' y := by
  cases h with
  | ok ha hg hg' => exact .ok ha (hv.trans hg) (hv'.trans hg')
  | raised ha hg hg' => exact .raised ha (hv.trans hg) (hv'.trans hg')

end Outcome.Agrees

namespace Act.Hides

variable {x : Act α}

theorem bind {f : α → Act β} (hx : x.Hides mode) (hf : ∀ a, (f a).Hides mode) :
    (x >>= f).Hides mode := by
  intro w w' ha
  have first := hx w w' ha
  show (Act.bind x f w).Agrees mode w w' (Act.bind x f w')
  unfold Act.bind
  generalize x w = result at first ⊢
  generalize x w' = result' at first ⊢
  cases first with
  | @ok a v v' hv hg hg' => exact (hf a v v' hv).after hg hg'
  | raised hv hg hg' => exact .raised hv hg hg'

theorem of_local (hx : x.Local) : x.Hides mode := by
  intro w w' ha
  obtain ⟨result, h, hx⟩ := hx w
  have alike : (w.withHeap h).Alike mode (w'.withHeap h) := by
    refine ⟨?_, ha.host, ha.mode⟩
    show { w'.bridge with heap := h } = { w.bridge with heap := h }
    rw [ha.bridge]
  rw [hx w rfl rfl, hx w' (by rw [ha.bridge]) (by rw [ha.bridge])]
  cases result with
  | ok a => exact .ok alike (.refl _) (.refl _)
  | error e => exact .raised alike (.refl _) (.refl _)

theorem map (f : α → β) (hx : x.Hides mode) : (f <$> x).Hides mode :=
  hx.bind fun a => .of_local (.pure (f a))

theorem attempt (hx : x.Hides mode) : x.attempt.Hides mode := by
  intro w w' ha
  have tried := hx w w' ha
  unfold Act.attempt
  generalize x w = result at tried ⊢
  generalize x w' = result' at tried ⊢
  cases tried with
  | ok hv hg hg' => exact .ok hv hg hg'
  | raised hv hg hg' => exact .ok hv hg hg'

/-! ### Hooks -/

theorem judge (hook : Hook) (e : HookEvent) : (Act.judge hook e).Hides mode := by
  unfold Act.judge
  split
  · exact .of_local (.throw _)
  · exact .of_local (.pure _)

/-- The hook belongs to the bridge, and sees the same in both hosts. -/
theorem fire (e : HookEvent) : (Act.fire e).Hides mode := by
  intro w w' ha
  rcases Act.hooked_or_unseen e w with ⟨hook, hh, hm⟩ | unseen
  · have hh' : w'.bridge.hook? = some hook := by rw [ha.bridge, hh]
    rw [Act.fire_of_hook hh hm, Act.fire_of_hook hh' hm]
    have alike : (Act.showing hook e w).Alike mode (Act.showing hook e w') := by
      refine ⟨?_, ha.host.of_objects rfl rfl, ha.mode⟩
      dsimp only [Act.showing]
      rw [ha.bridge]
    have shown (w : World) : w.host.Reserves mode (Act.showing hook e w).host := by
      cases hq : hook.quiet with
      | true => exact .of_objects rfl [] (by simp [Act.showing, hq]) (by simp)
      | false =>
        exact .of_objects rfl [.hook e] (by simp [Act.showing, hq]) (by simp)
    exact (judge hook e _ _ alike).after (shown w) (shown w')
  · have unseen' : ∀ hook, w'.bridge.hook? = some hook → hook.mask.holds e.kind = false := by
      rw [ha.bridge]
      exact unseen
    rw [Act.fire_of_no_hook unseen, Act.fire_of_no_hook unseen']
    exact .ok ha (.refl _) (.refl _)

theorem note (callee? : Option String) : (Act.note callee?).Hides mode := by
  intro w w' ha
  have alike : (w.calling callee?).Alike mode (w'.calling callee?) := by
    refine ⟨?_, ha.host, ha.mode⟩
    unfold World.calling World.withHook
    rw [ha.bridge]
  rw [Act.note_apply, Act.note_apply]
  exact .ok alike (.refl _) (.refl _)

theorem cross (e : HookEvent) : (Act.cross e).Hides mode := (note none).bind fun _ => fire e

theorem outside (hx : x.Hides mode) (name : Option String) : (Act.outside name x).Hides mode :=
  (cross _).bind fun _ => hx.bind fun a => (cross _).bind fun _ => .of_local (.pure a)

end Act.Hides

/-! ### Fields -/

namespace Box

variable (r : Reentry) (b : Nat) (o : ObjectId) (key value : Value)

theorem hides_readField (k : Variant) : (readField b o k).Hides mode := by
  intro w w' ha
  cases k with
  | string name =>
    rw [readField_string, readField_string, ha.bridge, ha.mode, ha.host.fields]
    cases hn : mode.allows (w.host.definition o).fields name with
    | false => exact Act.Hides.of_local (.pure _) _ _ ha
    | true =>
      rw [ha.host.hasMethod o name hn, ha.host.property? o name hn]
      exact Act.Hides.of_local (.ite (.pure _) (.ite (.newFunction _) (.push _))) _ _ ha
  | _ => exact Act.Hides.of_local (.pure _) _ _ ha

theorem hides_writeField (k v : Variant) : (writeField o k v).Hides mode := by
  intro w w' ha
  cases k with
  | string name =>
    rw [writeField_string, writeField_string, ha.bridge, ha.mode, ha.host.fields]
    cases hn : mode.allows (w.host.definition o).fields name with
    | false => exact .ok ha (.refl _) (.refl _)
    | true =>
      have hn' : mode.allows (w'.host.definition o).fields name = true := by
        rw [ha.host.fields, hn]
      exact .ok ⟨rfl, ha.host.write hn v, ha.mode⟩ (.write hn v) (.write hn' v)
  | _ => exact .ok ha (.refl _) (.refl _)

theorem hides_readObject : (readObject r b o key).Hides mode := by
  intro w w' ha
  obtain ⟨declares, declares'⟩ := ha.host.index o
  rw [readObject_of_none r b declares, readObject_of_none r b declares', ha.bridge]
  exact hides_readField b o _ w w' ha

theorem hides_writeObject : (writeObject r o key value).Hides mode := by
  intro w w' ha
  obtain ⟨declares, declares'⟩ := ha.host.newIndex o
  rw [writeObject_of_none r declares, writeObject_of_none r declares', ha.bridge]
  exact hides_writeField o _ _ w w' ha

variable {b key value} {v : Variant}

theorem local_readTyped (hv : v.object? = none) : (readTyped b v key).Local := by
  rw [readTyped_of_not_object hv]
  refine .bind (.decode key) fun k => ?_
  split
  · exact .ite (.newFunction _) (.push _)
  · exact .push _

theorem local_writeTyped : (writeTyped b key value).Local :=
  .bind (.decode key) fun _ => .bind (.decode value) fun _ => .modifyHeap _

end Box

namespace Reentry

variable (r : Reentry) (b : Nat) (key value : Value) (of? : Option Origin)

theorem hides_handle_index {h : Handler} (hn : ∀ x, h ≠ .value x) :
    (r.handle .index h [.box b, key]).Hides mode := by
  cases h with
  | value x => exact absurd rfl (hn x)
  | box v =>
    refine .outside ?_ _
    cases v with
    | object o => exact Box.hides_readObject _ b o key
    | _ => exact .of_local (Box.local_readTyped rfl)
  | faultText e => exact .outside (.of_local (.pure _)) _
  | streamField => exact .of_local (.pure _)
  | emptied => exact .outside (.of_local (.throw _)) _

theorem hides_handle_newIndex {h : Handler} (hn : ∀ x, h ≠ .value x) :
    (r.handle .newIndex h [.box b, key, value]).Hides mode := by
  have written {x : Act Unit} (hx : x.Hides mode) : (x >>= fun _ => pure Value.nil).Hides mode :=
    hx.bind fun _ => .of_local (.pure _)
  cases h with
  | value x => exact absurd rfl (hn x)
  | box v =>
    refine .outside ?_ _
    cases v with
    | object o => exact written (Box.hides_writeObject _ o key value)
    | _ => exact written (.of_local Box.local_writeTyped)
  | faultText e => exact .outside (.of_local (.pure _)) _
  | streamField => exact .of_local (.pure _)
  | emptied => exact .outside (.of_local (.throw _)) _

theorem handler?_box_ne_value {h : Heap} {op : Metamethod} {x : Handler}
    (hx : h.handler? op (.box b) = some x) (y : Value) : x ≠ .value y := by
  rintro rfl
  dsimp only [Heap.handler?] at hx
  split at hx
  · split at hx <;> cases hx
  · split at hx <;> cases hx

/-- Reading whatever is in a box. -/
theorem hides_index : (r.index (.box b) key of?).Hides mode := by
  intro w w' ha
  cases hh : w.bridge.heap.handler? .index (.box b) with
  | none =>
    have hh' : w'.bridge.heap.handler? .index (.box b) = none := by rw [ha.bridge, hh]
    rw [r.index_of_no_handler hh, r.index_of_no_handler hh', ha.bridge]
    exact Act.Hides.of_local (.raise _) _ _ ha
  | some h =>
    have hn := handler?_box_ne_value b hh
    have hh' : w'.bridge.heap.handler? .index (.box b) = some h := by rw [ha.bridge, hh]
    rw [r.index_of_handler hh hn, r.index_of_handler hh' hn]
    exact r.hides_handle_index b key hn _ _ ha

theorem hides_setIndex : (r.setIndex (.box b) key value of?).Hides mode := by
  intro w w' ha
  cases hh : w.bridge.heap.handler? .newIndex (.box b) with
  | none =>
    have hh' : w'.bridge.heap.handler? .newIndex (.box b) = none := by rw [ha.bridge, hh]
    rw [r.setIndex_of_no_handler hh, r.setIndex_of_no_handler hh', ha.bridge]
    exact Act.Hides.of_local (.raise _) _ _ ha
  | some h =>
    have hn := handler?_box_ne_value b hh
    have hh' : w'.bridge.heap.handler? .newIndex (.box b) = some h := by rw [ha.bridge, hh]
    rw [r.setIndex_of_handler hh hn, r.setIndex_of_handler hh' hn]
    exact (r.hides_handle_newIndex b key value hn).map _ _ _ ha

end Reentry

/-! ### Runs -/

/-- An access of a script to a box. -/
inductive Move
  | read (r : Reentry) (box : Nat) (key : Value) (of? : Option Origin)
  | assign (r : Reentry) (box : Nat) (key value : Value) (of? : Option Origin)

def Move.act : Move → Act Value
  | read r box key of? => r.index (.box box) key of?
  | assign r box key value of? => do
    r.setIndex (.box box) key value of?
    return .nil

/-- Accesses one after the other, each of which may depend on what came of those before. -/
inductive Probe
  | done
  | next (m : Move) (rest : Except Value Value → Probe)

/-- All that the script gets to see. -/
def Probe.run : Probe → Act (List (Except Value Value))
  | done => return []
  | next m rest => do
    let result ← m.act.attempt
    return result :: (← (rest result).run)

theorem Move.hides_act (m : Move) : m.act.Hides mode := by
  cases m with
  | read r box key of? => exact r.hides_index box key of?
  | assign r box key value of? =>
    exact (r.hides_setIndex box key value of?).bind fun _ => .of_local (.pure _)

theorem Probe.hides_run (p : Probe) : p.run.Hides mode := by
  induction p with
  | done => exact .of_local (.pure _)
  | next m rest ih =>
    exact m.hides_act.attempt.bind fun result =>
      (ih result).bind fun _ => .of_local (.pure _)

/-- What is attempted comes to an end, if the attempt is not of something endless. -/
theorem Probe.run_ok (p : Probe) {w w' : World} (ha : w.Alike mode w') :
    ∃ results v, p.run w = .ok results v := by
  have tried {x : Act Value} {w w' : World} (ha : w.Alike mode w') (hx : x.Hides mode) :
      ∃ result v v', x.attempt w = .ok result v ∧ v.Alike mode v' := by
    have once := hx w w' ha
    unfold Act.attempt
    generalize x w = result at once ⊢
    generalize x w' = result' at once
    cases once with
    | ok hv => exact ⟨_, _, _, rfl, hv⟩
    | raised hv => exact ⟨_, _, _, rfl, hv⟩
  induction p generalizing w w' with
  | done => exact ⟨_, _, rfl⟩
  | next m rest ih =>
    obtain ⟨result, v, v', hm, hv⟩ := tried ha m.hides_act
    obtain ⟨results, u, hr⟩ := ih result hv
    refine ⟨result :: results, u, ?_⟩
    rw [Probe.run, Act.bind_of_ok hm, Act.bind_of_ok hr]
    rfl

/-- A script that reads and assigns fields sees the same in both hosts, and reaches nothing
that the mode denies it in either of them. -/
theorem denied_fields_are_invisible (mode : AccessMode) (w w' : World) (ha : w.Alike mode w')
    (p : Probe) : ∃ results v v', p.run w = .ok results v ∧ p.run w' = .ok results v' ∧
      v'.bridge = v.bridge ∧ w.host.Reserves mode v.host ∧ w'.host.Reserves mode v'.host := by
  obtain ⟨results, v, hr⟩ := p.run_ok ha
  have agrees := p.hides_run w w' ha
  rw [hr] at agrees
  generalize hr' : p.run w' = result' at agrees
  cases agrees with
  | ok hv hg hg' => exact ⟨results, v, _, hr, rfl, hv.bridge, hg, hg'⟩

/-- A vault whose door scripts may use, in box 0. Other fields are hidden. -/
def World.vault (properties : List (String × Variant)) (methods : List (String × Behaviour)) :
    World where
  host := ⟨[.new ⟨"vault"⟩ (.full "Vault" (("door", .bool true) :: properties) false methods
    (some ["door"]) [])], [], []⟩
  bridge :=
    let h := (Heap.initial.newBox ⟨.object ⟨"vault"⟩, rfl⟩).2
    ⟨"main", 1, h, .restrictive, none, false, false, []⟩

/-- One vault has a code as a property, the other as a method. -/
theorem denied_fields_are_invisible_vault :
    let w := World.vault [("code", .int 7)] []
    let w' := World.vault [] [("code", .echo)]
    let p : Probe := .next (.read (.upTo 1 .outermost) 0 (.ofString "code") none) fun _ =>
      .next (.assign (.upTo 1 .outermost) 0 (.ofString "code") (.int 9) none) fun _ =>
      .next (.read (.upTo 1 .outermost) 0 (.ofString "door") none) fun _ => .done
    w.Alike .restrictive w' ∧ ∃ v v',
      p.run w = .ok [.ok .nil, .ok .nil, .ok (.bool true)] v ∧
      p.run w' = .ok [.ok .nil, .ok .nil, .ok (.bool true)] v' ∧
      v.host.property? ⟨"vault"⟩ "code" = some (.int 7) := by
  intro w w' p
  -- an object other than the vault is bare in both hosts
  have other {o : ObjectId} (ho : o ≠ ⟨"vault"⟩) :
      w.host.object o = .new o (.bare "") ∧ w'.host.object o = .new o (.bare "") := by
    have bare : (default : Definition) = .bare "" := rfl
    constructor
    · simp [w, World.vault, Host.object, Host.object?, Instance.new, ho.symm, bare]
    · simp [w', World.vault, Host.object, Host.object?, Instance.new, ho.symm, bare]
  have door {name : String} (hn : AccessMode.allows .restrictive ["door"] name = true) :
      name = "door" := by
    simpa [AccessMode.allows] using hn
  have alike : w.Alike .restrictive w' := by
    refine ⟨rfl, ⟨fun o => ?_, fun o => ?_, fun o => ?_, fun o name hn => ?_, fun o name hn => ?_,
      fun o name hn => ?_⟩, rfl⟩
    all_goals
      by_cases ho : o = ⟨"vault"⟩
      · subst ho
        first
          | exact rfl
          | exact ⟨rfl, rfl⟩
          | obtain rfl := door hn
            exact rfl
      · simp [Host.definition, Host.property?, Host.hasMethod, Host.takes, other ho, Instance.new,
          Definition.override?]
  obtain ⟨results, v, v', hr, hr', -, hv, -⟩ :=
    denied_fields_are_invisible .restrictive w w' alike p
  have seen : ∃ v, p.run w = .ok [.ok .nil, .ok .nil, .ok (.bool true)] v := ⟨_, rfl⟩
  obtain ⟨v₁, hs⟩ := seen
  obtain ⟨rfl, rfl⟩ : results = [.ok .nil, .ok .nil, .ok (.bool true)] ∧ v = v₁ := by
    rw [hs] at hr
    cases hr
    exact ⟨rfl, rfl⟩
  exact ⟨alike, v, v', hr, hr', hv.property? ⟨"vault"⟩ "code" rfl⟩

end ScriptHost
