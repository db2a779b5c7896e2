import ScriptHost.Bridge
import ScriptHost.Proofs.Codec.Stability
import ScriptHost.Proofs.Machine.Observing
import ScriptHost.Proofs.Machine.Running

/-! Globals that a host reads, writes and reads again. The second reading gives the same
value, as long as the name is written to the table of globals itself. -/

namespace ScriptHost

variable {owner : Nat} {h : Heap} {x : Value} {name : String} {v : Variant}

namespace Heap

/-! ### What is read -/

theorem OwnedBy.part (hh : h.OwnedBy owner) {id : Nat} (hx : x ∈ h.parts id) :
    x.OwnedBy owner := by
  unfold parts at hx
  split at hx
  next items hs =>
    obtain ⟨-, -, rfl⟩ := Table.slots_eq hs
    obtain ⟨i, -, rfl⟩ := List.mem_map.mp hx
    exact (hh.table id).get _
  next =>
    obtain ⟨e, he, hx⟩ := List.mem_flatMap.mp hx
    have own := hh.table id e he
    rcases List.mem_cons.mp hx with rfl | hx
    · exact own.1
    · exact List.mem_singleton.mp hx ▸ own.2

theorem OwnedBy.visits (hh : h.OwnedBy owner) (hx : x.OwnedBy owner) {n : Nat} {y : Value}
    (hy : h.Visits n x y) : y.OwnedBy owner := by
  induction hy with
  | here => exact hx
  | part hp _ ih => exact ih (hh.part hp)

/-- All strings on the way through the value are text. -/
def IsText (h : Heap) (x : Value) : Prop :=
  ∀ n ≤ depthLimit, ∀ bytes, h.Visits n x (.string bytes) → ∃ s : String, bytes = s.toUTF8

theorem legible_of_ownedBy (hh : h.OwnedBy owner) (hx : x.OwnedBy owner) (ht : h.IsText x) :
    h.Legible owner depthLimit x := by
  intro n hn y hy
  cases y with
  | string bytes => exact ht n hn bytes hy
  | function f => exact hh.visits hx hy
  | _ => trivial

/-! ### The table of globals -/

/-- The globals have no metatable, or one that lacks the field. -/
def GlobalsLack (h : Heap) (field : String) : Prop :=
  ∀ m, (h.table globals).meta? = some m → m < h.tables.size ∧ (h.table m).getString field = .nil

/-- The name is written to the table of globals itself, and a nil read from there. -/
structure Settles (h : Heap) (name : String) (v : Variant) : Prop where
  globals : globals < h.tables.size
  write : h.get Heap.globals (.ofString name) ≠ .nil ∨ h.GlobalsLack Metamethod.newIndex.name
  read : v = .nil → h.GlobalsLack Metamethod.index.name

theorem GlobalsLack.handler? {op : Metamethod} (hl : h.GlobalsLack op.name) :
    h.handler? op (.table globals) = none := by
  have field : h.metaField (.table globals) op.name = .nil := by
    unfold metaField
    split
    next m hm => exact (hl m hm).2
    next => rfl
  dsimp only [Heap.handler?]
  rw [field]

theorem Kept.get {g : Heap} (hk : h.Kept 0 g) {id : Nat} (hi : id < h.tables.size) (key : Key) :
    g.get id key = h.get id key :=
  (Table.get_of_perm (hk.entries id (Nat.zero_le _) hi) key).symm

theorem GlobalsLack.kept {g : Heap} {field : String} (hl : h.GlobalsLack field) (hk : h.Kept 0 g)
    (hg : globals < h.tables.size) : g.GlobalsLack field := by
  intro m hm
  rw [hk.meta? globals (Nat.zero_le _) hg] at hm
  obtain ⟨hs, hn⟩ := hl m hm
  exact ⟨hs.trans_le hk.tables, (hk.get hs _).trans hn⟩

theorem size_set (h : Heap) (id : Nat) (key : Key) (value : Value) :
    (h.set id key value).tables.size = h.tables.size := by
  simp [set, setTable]

theorem table_set_of_ne {id other : Nat} (ho : other ≠ id) (key : Key) (value : Value) :
    (h.set id key value).table other = h.table other := by
  simp [set, setTable, table, Array.getElem?_setIfInBounds_ne ho.symm]

theorem table_set {id : Nat} (hi : id < h.tables.size) (key : Key) (value : Value) :
    (h.set id key value).table id = (h.table id).set key value := by
  simp [set, setTable, table, hi]

/-- Forgetting a global leaves the metatable without the field. -/
theorem GlobalsLack.forget {field : String} (hl : h.GlobalsLack field)
    (hg : globals < h.tables.size) (key : Key) :
    (h.set globals key .nil).GlobalsLack field := by
  intro m hm
  rw [table_set hg, Table.meta_set] at hm
  obtain ⟨hs, hn⟩ := hl m hm
  rw [size_set]
  refine ⟨hs, ?_⟩
  by_cases he : m = globals
  · subst he
    rw [table_set hg]
    exact Table.get_set_nil hn key
  · rwa [table_set_of_ne he]

/-- Tables other than that of the globals are kept when a global is written. -/
theorem Kept.setGlobal (h : Heap) {above : Nat} (ha : globals < above) (key : Key) (value : Value) :
    h.Kept above (h.set globals key value) := by
  have same {id : Nat} (hi : above ≤ id) : (h.set globals key value).table id = h.table id :=
    table_set_of_ne (ha.trans_le hi).ne' key value
  refine ⟨(size_set ..).ge, Nat.le_refl _, fun id hi _ => ?_, fun id hi _ => ?_, fun _ _ => rfl⟩
  · rw [same hi]
  · rw [same hi]

end Heap

/-- No hook hinders what the host does to the globals. If they have no metatable, none sees it. -/
def World.Unhindered (w : World) : Prop :=
  w.stop? = none ∨ (w.bridge.heap.table Heap.globals).meta? = none

theorem World.Unhindered.of_kept {w w' : World} (hw : w.Unhindered) (hs : w'.stop? = w.stop?)
    (hm : (w'.bridge.heap.table Heap.globals).meta? = (w.bridge.heap.table Heap.globals).meta?) :
    w'.Unhindered :=
  hw.imp hs.trans hm.trans

/-! ### Reading and writing -/

namespace Reentry

variable (r : Reentry) {w w' : World}

theorem guard_of_ok {α : Type} {act : Act α} {a : α} (ha : act w = .ok a w') :
    r.guard act w = .ok (.ok a) w' := by
  rw [guard, Act.bind_of_ok (Act.attempt_of_ok ha)]
  rfl

theorem held_globals (h : Heap) (name : String) :
    held h (.table Heap.globals) (.ofString name) = h.get Heap.globals (.ofString name) := rfl

theorem global_eq (hg : w.bridge.heap.get Heap.globals (.ofString name) ≠ .nil ∨
      w.bridge.heap.GlobalsLack Metamethod.index.name) :
    r.global name w = .ok (w.bridge.heap.get Heap.globals (.ofString name)) w := by
  rw [global, index, Act.bind_of_ok (Act.heap_eq _), held_globals]
  generalize w.bridge.heap.get Heap.globals (.ofString name) = x at hg ⊢
  cases x with
  | nil =>
    have lack := (hg.resolve_left fun hn => hn rfl).handler?
    show r.indexFrom _ (chainLimit - 1 + 1) _ _ w = _
    rw [indexFrom, Act.bind_of_ok (Act.heap_eq _), lack]
    rfl
  | _ => rfl

theorem setGlobal_eq (value : Value) (hg : w.bridge.heap.get Heap.globals (.ofString name) ≠ .nil ∨
      w.bridge.heap.GlobalsLack Metamethod.newIndex.name) :
    r.setGlobal name value w =
      .ok () (w.withHeap (w.bridge.heap.set Heap.globals (.ofString name) value)) := by
  rw [setGlobal, setIndex, Act.bind_of_ok (Act.heap_eq _), held_globals]
  generalize w.bridge.heap.get Heap.globals (.ofString name) = x at hg ⊢
  cases x with
  | nil =>
    have lack := (hg.resolve_left fun hn => hn rfl).handler?
    show r.setIndexFrom _ _ (chainLimit - 1 + 1) _ _ w = _
    rw [setIndexFrom, Act.bind_of_ok (Act.heap_eq _), lack]
    rfl
  | _ => rfl

/-- Globals without a metatable are reached directly. -/
theorem onGlobals_of_no_meta {α : Type} (hg : (w.bridge.heap.table Heap.globals).meta? = none)
    (run : Reentry → Act α) : r.onGlobals run w = run r w := by
  rw [onGlobals, Act.bind_of_ok (Act.heap_eq _), hg]

/-- What only changes the heap is done to the globals, whatever a hook sees of it. -/
theorem onGlobals_of_ok {α : Type} {run : Reentry → Act α} {a : α} {g : Heap}
    (hw : w.Unhindered)
    (hr : ∀ (r : Reentry) (w₁ : World), w.Shown w₁ → run r w₁ = .ok a (w₁.withHeap g)) :
    ∃ w₂, r.onGlobals run w = .ok a w₂ ∧ (w.withHeap g).Shown w₂ := by
  cases hm : (w.bridge.heap.table Heap.globals).meta? with
  | none => exact ⟨_, (r.onGlobals_of_no_meta hm run).trans (hr r w (.refl w)), .refl _⟩
  | some m =>
    have unstopped : w.stop? = none := hw.resolve_right (hm ▸ nofun)
    have framed := Act.framed_outside none (run r.inside) w
    rw [onGlobals, Act.bind_of_ok (Act.heap_eq _), hm]
    show ∃ w₂, Act.outside none (run r.inside) w = .ok a w₂ ∧ _
    generalize Act.outside none (run r.inside) w = result at framed ⊢
    cases framed with
    | before hs _ => exact absurd (unstopped ▸ hs) Verdict.not_stops_none
    | raised h₁ hx => cases (hr _ _ h₁).symm.trans hx
    | exhausted h₁ hx => cases (hr _ _ h₁).symm.trans hx
    | ok h₁ hx h₃ =>
      cases (hr _ _ h₁).symm.trans hx
      exact ⟨_, rfl, (h₁.withHeap g).trans h₃⟩
    | after h₁ hx hs _ =>
      cases (hr _ _ h₁).symm.trans hx
      have stop : (World.withHeap _ g).stop? = none := h₁.stop?.trans unstopped
      exact absurd (stop ▸ hs) Verdict.not_stops_none

theorem pullGlobal_eq (hx : r.onGlobals (·.global name) w = .ok x w') :
    r.pullGlobal .attached name w =
      .ok ((w'.bridge.heap.decodeStrict w'.bridge.id x).mapError Refusal.error) w' := by
  rw [pullGlobal, Act.bind_of_ok (r.guard_of_ok hx)]
  dsimp only
  rw [Act.bind_of_ok (Act.bridge_eq _)]
  rfl

theorem pushGlobal_eq {h : Heap} (he : w.bridge.heap.encode w.bridge.id v = (.ok x, h))
    (hx : r.onGlobals (·.setGlobal name x) (w.withHeap h) = .ok () w') :
    r.pushGlobal .attached name v w = .ok (.ok ()) w' := by
  have encode : Act.encode v w = .ok (.ok x) (w.withHeap h) := by
    show Outcome.ok (Heap.encode w.bridge.id v w.bridge.heap).1
      (w.withHeap (Heap.encode w.bridge.id v w.bridge.heap).2) = _
    rw [he]
  rw [pushGlobal, Act.bind_of_ok encode]
  exact r.guard_of_ok hx

/-- What was read under a name can be written and is read again, even if another value
stood in for it at first. -/
theorem pull_push_pull {w₁ : World} (hx : r.onGlobals (·.global name) w = .ok x w₁)
    (hv : w₁.bridge.heap.decodeStrict w₁.bridge.id x = .ok v)
    (hl : w₁.bridge.heap.Legible w₁.bridge.id depthLimit x)
    (hs : w₁.bridge.heap.Settles name v) (hu : w₁.Unhindered) :
    r.pullGlobal .attached name w = .ok (.ok v) w₁ ∧ ∃ w₂ w₃ v',
      r.pushGlobal .attached name v w₁ = .ok (.ok ()) w₂ ∧
      r.pullGlobal .attached name w₂ = .ok (.ok v') w₃ ∧ v.Rearranged v' := by
  obtain ⟨x', h, he, hk, hread⟩ := Heap.strict_encode_strict hv hl
  have globals := hs.globals.trans_le hk.tables
  let g := h.set Heap.globals (.ofString name) x'
  have get : g.get Heap.globals (.ofString name) = x' := by
    rw [Heap.get, Heap.table_set globals, Table.get_set]
  obtain ⟨v', hd, hr⟩ := hread g (.setGlobal h hs.globals _ _)
  have encoded : (w₁.withHeap h).Unhindered :=
    hu.of_kept rfl (hk.meta? Heap.globals (Nat.zero_le _) hs.globals)
  have writes : ∃ w₂, r.onGlobals (·.setGlobal name x') (w₁.withHeap h) = .ok () w₂ ∧
      (w₁.withHeap g).Shown w₂ := by
    refine r.onGlobals_of_ok encoded fun r w' hw' => ?_
    rw [r.setGlobal_eq x' (hs.write.imp (fun hn => ?_) fun hl => ?_), hw'.heap]
    · rfl
    · rw [hw'.heap]
      exact (hk.get hs.globals _).trans_ne hn
    · rw [hw'.heap]
      exact hl.kept hk hs.globals
  obtain ⟨w₂, written, h₂⟩ := writes
  have same : (g.table Heap.globals).meta? = (h.table Heap.globals).meta? := by
    rw [Heap.table_set globals, Table.meta_set]
  -- A nil that was written is read as nil only if nothing stands in for it.
  have settled : x' ≠ .nil ∨ g.GlobalsLack Metamethod.index.name := by
    by_cases hn : v = .nil
    · subst hn
      rw [Heap.encode] at he
      cases he
      exact .inr ((hs.read rfl).forget hs.globals _)
    · refine .inl ?_
      rintro rfl
      rw [(Heap.eq_nil_iff_of_strict hd).mpr rfl] at hr
      cases hr
      exact hn rfl
  have unhindered : w₂.Unhindered := encoded.of_kept h₂.stop? (h₂.heap ▸ same)
  have reads : ∃ w₃, r.onGlobals (·.global name) w₂ = .ok x' w₃ ∧ (w₂.withHeap g).Shown w₃ := by
    refine r.onGlobals_of_ok unhindered fun r w' hw' => ?_
    have heap : w'.bridge.heap = g := hw'.heap.trans h₂.heap
    have read : r.global name w' = .ok (w'.bridge.heap.get Heap.globals (.ofString name)) w' :=
      r.global_eq (by rwa [heap, get])
    have self : w'.withHeap g = w' := heap ▸ rfl
    rw [read, heap, get, self]
  obtain ⟨w₃, again, h₃⟩ := reads
  refine ⟨?_, w₂, w₃, v', r.pushGlobal_eq he written, ?_, hr⟩
  · rw [r.pullGlobal_eq hx, hv]
    rfl
  · have last : w₁.bridge.id = w₃.bridge.id := h₂.id.symm.trans h₃.id.symm
    rw [r.pullGlobal_eq again, h₃.heap, ← last]
    exact congrArg (fun d => Outcome.ok (d.mapError Refusal.error) _) hd

end Reentry

/-! ### Stability -/

/-- What interpreters read strictly, they read again, wherever the ends of tables were found the
first time, and are found the second. -/
theorem strict_reading_is_stable :
    (∀ (owner : Nat) (h : Heap) (x : Value) (v : Variant), h.OwnedBy owner → x.OwnedBy owner →
      h.IsText x → h.decodeStrict owner x = .ok v →
      ∃ x' h', h.encode owner v = (.ok x', h') ∧ h.Kept 0 h' ∧ ∀ g, h'.Kept h.tables.size g →
        ∃ v', g.decodeStrict owner x' = .ok v' ∧ v.Rearranged v') ∧
    ∀ (n : Nat) (site : Site) (name : String) (x : Value) (v : Variant) (w w₁ : World),
      w.OwnedBy w.bridge.id →
      (Reentry.upTo n site).onGlobals (·.global name) w = .ok x w₁ →
      w₁.bridge.heap.IsText x → w₁.bridge.heap.decodeStrict w₁.bridge.id x = .ok v →
      w₁.bridge.heap.Settles name v → w₁.Unhindered →
      (Reentry.upTo n site).pullGlobal .attached name w = .ok (.ok v) w₁ ∧ ∃ w₂ w₃ v',
        (Reentry.upTo n site).pushGlobal .attached name v w₁ = .ok (.ok ()) w₂ ∧
        (Reentry.upTo n site).pullGlobal .attached name w₂ = .ok (.ok v') w₃ ∧
        v.Rearranged v' := by
  constructor
  · intro owner h x v hh hx ht hv
    exact Heap.strict_encode_strict hv (Heap.legible_of_ownedBy hh hx ht)
  · intro n site name x v w w₁ hw hx ht hv hs hu
    have good := (Reentry.Keeps.upTo n site).onGlobals (fun _ hr => hr.global name) w hw
    rw [hx] at good
    obtain ⟨hw₁, -, own⟩ := good
    rw [← hw₁.id] at own
    have legible := Heap.legible_of_ownedBy (hw₁.id ▸ hw₁.heap) own ht
    exact Reentry.pull_push_pull _ hx hv legible hs hu

/-- A table with one item as the only global `x`. -/
def World.single : World where
  host := default
  bridge :=
    let item := Table.empty.set (.int 1) (.string "one".toUTF8)
    { Bridge.fresh "main" 1 .restrictive false with
      heap := (Heap.initial.newTable item).2.setGlobal "x" (.table 3) }

theorem strict_reading_is_stable_single :
    World.single.OwnedBy 1 ∧ World.single.bridge.heap.IsText (.table 3) ∧
    World.single.bridge.heap.Settles "x" (.array [.string "one"]) ∧
    (∃ x' h', World.single.bridge.heap.encode 1 (.array [.string "one"]) = (.ok x', h')) ∧
    World.single.Unhindered ∧
    ∃ w₂ w₃ v', Request.push "x" (.array [.string "one"]) World.single = .ok (.ok ()) w₂ ∧
      Request.pull "x" w₂ = .ok (.ok v') w₃ ∧ (Variant.array [.string "one"]).Rearranged v' := by
  have own : World.single.OwnedBy 1 := by
    have key (k : Key) (hk : ∀ f, k ≠ .function f) : k.toValue.OwnedBy 1 := by
      cases k with
      | function f => exact absurd rfl (hk f)
      | _ => trivial
    have text (s : String) : (Value.string s.toUTF8).OwnedBy 1 := trivial
    refine ⟨rfl, (Heap.OwnedBy.initial.newTable ?_).set _ (key _ nofun) trivial⟩
    exact Table.OwnedBy.empty.set (key _ nofun) (text _)
  have parts : World.single.bridge.heap.parts 3 = [.string "one".toUTF8] := rfl
  have text : World.single.bridge.heap.IsText (.table 3) := by
    intro n hn bytes hv
    cases hv with
    | part hp hv =>
      rw [parts, List.mem_singleton] at hp
      subst hp
      cases hv
      exact ⟨"one", rfl⟩
  have settles : World.single.bridge.heap.Settles "x" (.array [.string "one"]) :=
    ⟨by decide, .inr nofun, nofun⟩
  obtain ⟨codec, globals⟩ := strict_reading_is_stable
  obtain ⟨x', h', he, -, -⟩ := codec 1 _ (.table 3) _ own.heap trivial text rfl
  obtain ⟨-, written⟩ := globals Reentry.callLimit .outermost "x" (.table 3) _
    World.single World.single own rfl text rfl settles (.inl rfl)
  exact ⟨own, text, settles, ⟨x', h', he⟩, .inl rfl, written⟩

/-- The metatable 5 of the globals takes what is written, and reads from table 4. -/
def World.shadowed : World where
  host := default
  bridge :=
    let index (v : Value) := Table.empty.set (.ofString Metamethod.index.name) v
    let h := ((Heap.initial.newTable (index (.int 5))).2.newTable (index (.table 3))).2
    let h := (h.newTable ((index (.table 4)).set (.ofString Metamethod.newIndex.name) (.table 5))).2
    { Bridge.fresh "main" 1 .restrictive false with
      heap := h.setTable Heap.globals { Table.empty with meta? := some 5 } }

/-- A global named for the field through which globals are read is read through another
table once it is written. -/
theorem pull_push_pull_shadowed :
    World.shadowed.OwnedBy 1 ∧ World.shadowed.bridge.heap.IsText (.table 3) ∧
    Request.reentry.onGlobals (·.global "__index") World.shadowed =
      .ok (.table 3) World.shadowed ∧ World.shadowed.Unhindered ∧
    ∃ v v' w w', Request.pull "__index" World.shadowed = .ok (.ok v) World.shadowed ∧
      Request.push "__index" v World.shadowed = .ok (.ok ()) w ∧
      Request.pull "__index" w = .ok (.ok v') w' ∧ ¬ v.Rearranged v' := by
  have own : World.shadowed.OwnedBy 1 := by
    have key (s : String) : (Key.ofString s).toValue.OwnedBy 1 := trivial
    have index {v : Value} (hv : v.OwnedBy 1) :
        (Table.empty.set (.ofString Metamethod.index.name) v).OwnedBy 1 :=
      Table.OwnedBy.empty.set (key _) hv
    have table (id : Nat) : (Value.table id).OwnedBy 1 := trivial
    have number : (Value.int 5).OwnedBy 1 := trivial
    have tables := ((Heap.OwnedBy.initial.newTable (index number)).newTable (index (table 3)))
    refine ⟨rfl, (tables.newTable ((index (table 4)).set (key _) (table 5))).setTable _ ?_⟩
    exact Table.OwnedBy.empty.withMeta _
  have parts : World.shadowed.bridge.heap.parts 3 = [.string "__index".toUTF8, .int 5] := rfl
  have text : World.shadowed.bridge.heap.IsText (.table 3) := by
    intro n hn bytes hv
    cases hv with
    | part hp hv =>
      rw [parts] at hp
      rcases List.mem_cons.mp hp with rfl | hp
      · cases hv
        exact ⟨"__index", rfl⟩
      · rw [List.mem_singleton.mp hp] at hv
        cases hv
  refine ⟨own, text, rfl, .inl rfl, .dictionary [(.string "__index", .int 5)], .int 5, _, _, rfl, rfl, rfl, ?_⟩
  rintro ⟨⟩

end ScriptHost
