import ScriptHost.Proofs.Codec.Boxing
import ScriptHost.Proofs.Session.Deciding
import ScriptHost.Proofs.Session.Hooks
import ScriptHost.Proofs.Session.Isolation
import ScriptHost.Proofs.Session.Opening

/-! The ledger of a run of a session: what has happened to the boxes of each interpreter, whether it
is open or was closed, and whenever the collector acted. Objects have counted all that it tells. -/

namespace ScriptHost

/-! ### New interpreters -/

/-- No box was ever made. -/
structure Heap.IsBoxless (h : Heap) : Prop where
  boxes : h.boxes = #[]
  finalizable : h.finalizable = []
  upkeep : h.upkeep = ⟨[], [], 0, []⟩

namespace Heap.IsBoxless

variable {h : Heap}

theorem initial : Heap.initial.IsBoxless := ⟨rfl, rfl, rfl⟩

theorem furnishes : Heap.Furnishes IsBoxless where
  newTable _ hh := ⟨hh.boxes, hh.finalizable, hh.upkeep⟩
  newFunction _ _ hh := ⟨hh.boxes, hh.finalizable, hh.upkeep⟩
  set _ _ _ _ hh := ⟨hh.boxes, hh.finalizable, hh.upkeep⟩
  textMeta _ _ hh := ⟨hh.boxes, hh.finalizable, hh.upkeep⟩

/-- There are no boxes in a new interpreter. -/
theorem openWith {name : String} {id : Nat} {s : Settings} {observed : Bool} {b : Bridge}
    (h : Bridge.openWith name id s observed = .ok b) : b.heap.IsBoxless :=
  furnishes.openWith initial h

theorem told (hh : h.IsBoxless) : h.told = [] := by
  rw [Heap.told, hh.upkeep]
  rfl

theorem balanced (hh : h.IsBoxless) : h.Balanced where
  replayed := by
    have contents : h.contents = [] := by rw [contents, hh.boxes]; rfl
    refine ⟨[], ?_, fun id hm => ?_⟩
    · rw [hh.told, contents]
      rfl
    · rw [hh.upkeep] at hm
      cases hm
  opened := by
    rw [hh.told]
    exact List.not_mem_nil
  bounded id hm := by
    rw [hh.finalizable, hh.upkeep] at hm
    rcases hm with hm | hm <;> cases hm
  awaits id hs := by
    rw [content?_of_le (by simp [hh.boxes])] at hs
    cases hs

end Heap.IsBoxless

/-! ### Ledgers -/

/-- What has happened to the boxes of some interpreters. -/
abbrev Ledger : Type := List (Nat × List BoxEvent)

namespace Ledger

/-- How many boxes of an object were finalized altogether. -/
def ends (o : ObjectId) (l : Ledger) : Nat := (l.flatMap (·.2)).countP (·.ends o)

/-- How many boxes were made for an object altogether before interpreters were closed. -/
def made (o : ObjectId) (l : Ledger) : Nat :=
  (l.flatMap fun x => Shelf.beforeClosing x.2).count (.made (some o))

variable {o : ObjectId} {l m : Ledger}

theorem ends_cons (x : Nat × List BoxEvent) (l : Ledger) :
    ends o (x :: l) = x.2.countP (·.ends o) + l.ends o := by
  rw [ends, List.flatMap_cons, List.countP_append, ends]

theorem ends_append (l m : Ledger) : ends o (l ++ m) = l.ends o + m.ends o := by
  rw [ends, List.flatMap_append, List.countP_append, ends, ends]

theorem ends_perm (h : l.Perm m) : l.ends o = m.ends o := (h.flatMap_right _).countP_eq _

/-- Where everything was closed, as many boxes were finalized as had been made. -/
theorem ends_eq_made (h : ∀ x ∈ l, Shelf.IsCleared x.2) : l.ends o = l.made o := by
  induction l with
  | nil => rfl
  | cons x rest ih =>
    rw [List.forall_mem_cons] at h
    rw [ends_cons, ih h.2, h.1.ends o, made, made, List.flatMap_cons, List.count_append]

end Ledger

namespace Session

variable {s t u : Session} {name : String} {b b' : Bridge} {bridges : List (String × Bridge)}

/-- What has happened in the interpreters of some bridges. -/
def histories (bridges : List (String × Bridge)) : Ledger :=
  bridges.map fun e => (e.2.id, e.2.heap.told)

/-- What has happened in the interpreters that are open. -/
def opened (s : Session) : Ledger := histories s.bridges

/-- What has happened in the interpreter of the bridge `name` when that has been closed. -/
def closed (s : Session) (name : String) : Ledger :=
  match assoc? name s.bridges with
  | none => []
  | some b =>
    match Collector.shutDown (s.heldOutside name) ⟨s.host, b⟩ with
    | .ok _ w => [(b.id, w.bridge.heap.told)]
    | _ => []

/-- What has happened in an interpreter that a request closes. -/
def ending (s : Session) (name : String) : Step → Ledger
  | .close => s.closed name
  | .open settings observed =>
    match Bridge.openWith name s.nextId settings observed with
    | .ok _ => s.closed name
    | .error _ => []
  | _ => []

/-- What a session is after a run in which the collector acts as planned before each request, and
while it is carried out. -/
def attended (s : Session) : List (Collector.Plan × Turn) → Session
  | [] => s
  | (_, .hook name hook?) :: rest => (s.setHook name hook?).attended rest
  | (plan, .request name request) :: rest => (s.stepAttended plan name request).2.attended rest

/-- What has happened in the interpreters that are closed in such a run. -/
def endings (s : Session) : List (Collector.Plan × Turn) → Ledger
  | [] => []
  | (_, .hook name hook?) :: rest => (s.setHook name hook?).endings rest
  | (plan, .request name request) :: rest =>
    let held := s.heldOutside name ++ request.references
    (s.attend held plan name).ending name request ++
      (s.stepAttended plan name request).2.endings rest

/-- What has happened in all interpreters at the end of such a run. -/
def ledger (s : Session) (turns : List (Collector.Plan × Turn)) : Ledger :=
  s.endings turns ++ (s.attended turns).opened

/-! ### Bridges by their names -/

theorem not_mem_of_assoc? (h : assoc? name bridges = none) : ∀ e ∈ bridges, e.1 ≠ name := by
  induction bridges with
  | nil => exact List.forall_mem_nil _
  | cons x rest ih =>
    rw [assoc?] at h
    split at h
    · cases h
    next hx => exact List.forall_mem_cons.mpr ⟨hx, ih h⟩

theorem without_of_not_mem (h : ∀ e ∈ bridges, e.1 ≠ name) : without name bridges = bridges :=
  List.filter_eq_self.mpr fun e he => decide_eq_true (h e he)

theorem ne_of_mem_without {e : String × Bridge} (h : e ∈ without name bridges) : e.1 ≠ name :=
  of_decide_eq_true (List.mem_filter.mp h).2

/-- The bridge of a name stands before all others. -/
theorem perm_putIn (b : Bridge) (h : (bridges.map (·.1)).Nodup) :
    (putIn name b bridges).Perm ((name, b) :: without name bridges) := by
  induction bridges with
  | nil => exact .refl _
  | cons e rest ih =>
    rw [List.map_cons, List.nodup_cons] at h
    rw [putIn, without]
    by_cases he : e.1 = name
    · have others : ∀ e' ∈ rest, e'.1 ≠ name := fun e' hm hn =>
        h.1 (he ▸ hn ▸ List.mem_map_of_mem hm)
      rw [if_pos he, List.filter_cons_of_neg (by simpa using he), ← without,
        without_of_not_mem others]
    · rw [if_neg he, List.filter_cons_of_pos (by simpa using he), ← without]
      exact ((ih h.2).cons e).trans (.swap _ _ _)

theorem putIn_self (h : assoc? name bridges = some b) : putIn name b bridges = bridges := by
  induction bridges with
  | nil => cases h
  | cons e rest ih =>
    rw [assoc?] at h
    rw [putIn]
    split at h
    next he =>
      cases h
      rw [if_pos he, ← he]
    next he => rw [if_neg he, ih h]

theorem putIn_putIn (b b' : Bridge) (bridges : List (String × Bridge)) :
    putIn name b (putIn name b' bridges) = putIn name b bridges := by
  induction bridges with
  | nil => exact if_pos rfl
  | cons e rest ih =>
    rw [putIn, putIn]
    split
    · exact if_pos rfl
    next he => rw [putIn, if_neg he, ih]

theorem perm_of_assoc? (hb : assoc? name bridges = some b) (h : (bridges.map (·.1)).Nodup) :
    bridges.Perm ((name, b) :: without name bridges) := by
  have front : (putIn name b bridges).Perm _ := perm_putIn b h
  rwa [putIn_self hb] at front

theorem without_putIn (b : Bridge) :
    without name (putIn name b bridges) = without name bridges := by
  induction bridges with
  | nil => simp [putIn, without]
  | cons e rest ih =>
    rw [putIn]
    by_cases he : e.1 = name
    · simp [he, without]
    · rw [if_neg he, without, without, List.filter_cons_of_pos (by simpa using he),
        List.filter_cons_of_pos (by simpa using he), ← without, ← without, ih]

theorem names_without (h : (bridges.map (·.1)).Nodup) :
    ((without name bridges).map (·.1)).Nodup :=
  h.sublist (List.filter_sublist.map _)

/-! ### The invariant -/

/-- The ledger of what has been closed, and a session. -/
structure Balances (past : Ledger) (s : Session) : Prop where
  names : (s.bridges.map (·.1)).Nodup
  distinct : ((past ++ s.opened).map (·.1)).Nodup
  known : ∀ id ∈ (past ++ s.opened).map (·.1), id < s.nextId
  balanced : ∀ e ∈ s.bridges, e.2.heap.Balanced
  cleared : ∀ x ∈ past, Shelf.IsCleared x.2

/-- What becomes of a session, where `ended` are the interpreters that were closed. Objects have
counted what happened meanwhile. -/
structure Settles (past ended : Ledger) (s t : Session) : Prop where
  balances : Balances (past ++ ended) t
  counts : ∀ o, (s.host.object? o).isSome = true → (t.host.object? o).isSome = true ∧
    (t.host.object o).finalized + s.opened.ends o =
      (s.host.object o).finalized + (ended ++ t.opened).ends o

variable {past ended ended' : Ledger}

theorem Balances.ofHost (host : Host) : Balances [] (ofHost host) :=
  ⟨List.nodup_nil, List.nodup_nil, List.forall_mem_nil _, List.forall_mem_nil _,
    List.forall_mem_nil _⟩

/-- The order of bridges does not matter. -/
theorem Balances.congr (hs : Balances past s) (hb : t.bridges.Perm s.bridges)
    (hn : s.nextId ≤ t.nextId) : Balances past t := by
  have told : (past ++ t.opened).Perm (past ++ s.opened) := (hb.map _).append_left past
  exact ⟨(hb.map _).nodup_iff.mpr hs.names, (told.map _).nodup_iff.mpr hs.distinct,
    fun id hi => (hs.known id ((told.map _).mem_iff.mp hi)).trans_le hn,
    fun e he => hs.balanced e (hb.mem_iff.mp he), hs.cleared⟩

namespace Settles

theorem refl (hs : Balances past s) : Settles past [] s s :=
  ⟨(List.append_nil past).symm ▸ hs, fun _ hk => ⟨hk, rfl⟩⟩

theorem trans (h : Settles past ended s t) (h' : Settles (past ++ ended) ended' t u) :
    Settles past (ended ++ ended') s u := by
  refine ⟨List.append_assoc past ended ended' ▸ h'.balances, fun o hk => ?_⟩
  obtain ⟨kt, first⟩ := h.counts o hk
  obtain ⟨ku, second⟩ := h'.counts o kt
  simp only [Ledger.ends_append] at first second ⊢
  exact ⟨ku, by omega⟩

theorem congr (h : Settles past ended s t) (hb : u.bridges.Perm t.bridges)
    (hh : u.host.objects = t.host.objects) (hn : t.nextId ≤ u.nextId) :
    Settles past ended s u := by
  have told : (ended ++ u.opened).Perm (ended ++ t.opened) := (hb.map _).append_left ended
  refine ⟨h.balances.congr hb hn, fun o hk => ?_⟩
  have same : u.host.object? o = t.host.object? o := by rw [Host.object?, hh, Host.object?]
  rw [Ledger.ends_perm told, Host.object, same]
  exact h.counts o hk

end Settles

end Session

/-- Objects have counted what is told of their boxes since. -/
theorem World.Tells.counts {w w' : World} (h : w.Tells w') {o : ObjectId}
    (hk : (w.host.object? o).isSome = true) : (w'.host.object? o).isSome = true ∧
      (w'.host.object o).finalized + w.bridge.heap.told.countP (·.ends o) =
        (w.host.object o).finalized + w'.bridge.heap.told.countP (·.ends o) := by
  obtain ⟨events, told, counts⟩ := h
  obtain ⟨known, counted⟩ := counts o hk
  refine ⟨known, ?_⟩
  rw [told, List.countP_append, counted]
  omega

namespace Session

variable {s t u : Session} {name : String} {b b' : Bridge} {past ended : Ledger}

namespace Balances

theorem front (hs : Balances past s) (hb : assoc? name s.bridges = some b) :
    Balances past { s with bridges := (name, b) :: without name s.bridges } :=
  hs.congr (perm_of_assoc? hb hs.names).symm le_rfl

theorem ends_front (hs : Balances past s) (hb : assoc? name s.bridges = some b) (o : ObjectId) :
    s.opened.ends o = b.heap.told.countP (·.ends o) +
      (histories (without name s.bridges)).ends o := by
  have order : s.opened.Perm (histories ((name, b) :: without name s.bridges)) :=
    (perm_of_assoc? hb hs.names).map _
  rw [Ledger.ends_perm order, histories, List.map_cons, Ledger.ends_cons, histories]

/-- A bridge is replaced by what became of it. -/
theorem replace (hs : Balances past s) (hb : assoc? name s.bridges = some b) {w : World}
    (hw : World.Accounts Heap.Balanced ⟨s.host, b⟩ w) :
    Settles past [] s { s with host := w.host, bridges := putIn name w.bridge s.bridges } := by
  have front := hs.front hb
  have id : w.bridge.id = b.id := hw.id
  let t : Session :=
    { s with host := w.host, bridges := (name, w.bridge) :: without name s.bridges }
  have ids : (past ++ t.opened).map (·.1) =
      (past ++ histories ((name, b) :: without name s.bridges)).map (·.1) := by
    simp [t, opened, histories, id]
  have later : Balances past t := by
    obtain ⟨first, others⟩ := List.forall_mem_cons.mp front.balanced
    exact ⟨front.names, ids ▸ front.distinct, ids ▸ front.known,
      List.forall_mem_cons.mpr ⟨hw.heap first, others⟩, front.cleared⟩
  have settled : Settles past [] s t := by
    refine ⟨(List.append_nil past).symm ▸ later, fun o hk => ?_⟩
    obtain ⟨known, counted⟩ := hw.told.counts hk
    have ends : t.opened.ends o = w.bridge.heap.told.countP (·.ends o) +
        (histories (without name s.bridges)).ends o := Ledger.ends_cons _ _
    refine ⟨known, ?_⟩
    show (w.host.object o).finalized + _ = _
    rw [hs.ends_front hb, List.nil_append, ends]
    dsimp only at counted
    omega
  exact settled.congr (perm_putIn _ hs.names) rfl le_rfl

/-- A bridge that is closed goes, and its history is kept. -/
theorem leave (hs : Balances past s) (hb : assoc? name s.bridges = some b) {w : World}
    (hw : Collector.Closes ⟨s.host, b⟩ w) :
    Settles past [(b.id, w.bridge.heap.told)] s
      { s with host := w.host, bridges := without name s.bridges } := by
  have front := hs.front hb
  let t : Session := { s with host := w.host, bridges := without name s.bridges }
  have ids : ((past ++ [(b.id, w.bridge.heap.told)]) ++ t.opened).map (·.1) =
      (past ++ histories ((name, b) :: without name s.bridges)).map (·.1) := by
    simp [t, opened, histories]
  refine ⟨⟨names_without hs.names, ids ▸ front.distinct, ids ▸ front.known,
    (List.forall_mem_cons.mp front.balanced).2, ?_⟩, fun o hk => ?_⟩
  · exact List.forall_mem_append.mpr ⟨hs.cleared, List.forall_mem_singleton.mpr hw.cleared⟩
  · obtain ⟨known, counted⟩ := hw.told.counts hk
    refine ⟨known, ?_⟩
    show (w.host.object o).finalized + _ = _ + Ledger.ends o (_ :: t.opened)
    have others : t.opened = histories (without name s.bridges) := rfl
    rw [hs.ends_front hb, Ledger.ends_cons, others]
    dsimp only at counted ⊢
    omega

/-- A new bridge has a number of its own. -/
theorem add (hs : Balances past s) (hid : b.id = s.nextId) (hb : b.heap.IsBoxless)
    (hn : ∀ e ∈ s.bridges, e.1 ≠ name) : Settles past [] s (s.adding name b) := by
  let t : Session := { s with bridges := (name, b) :: s.bridges, nextId := s.nextId + 1 }
  have told : t.opened = (b.id, []) :: s.opened := by
    show (b.id, b.heap.told) :: _ = _
    rw [hb.told]
    rfl
  have later : Balances past t := by
    have order : (past ++ t.opened).Perm ((b.id, []) :: (past ++ s.opened)) :=
      told ▸ List.perm_middle
    refine ⟨List.nodup_cons.mpr ⟨?_, hs.names⟩, ?_, fun id hi => ?_, ?_, hs.cleared⟩
    · intro hm
      obtain ⟨e, he, same⟩ := List.mem_map.mp hm
      exact hn e he same
    · refine (order.map _).nodup_iff.mpr (List.nodup_cons.mpr ⟨fun hm => ?_, hs.distinct⟩)
      exact (hs.known _ hm).ne hid
    · rcases List.mem_cons.mp ((order.map _).mem_iff.mp hi) with rfl | hi
      · exact hid ▸ Nat.lt_succ_self _
      · exact (hs.known id hi).trans (Nat.lt_succ_self _)
    · exact List.forall_mem_cons.mpr ⟨hb.balanced, hs.balanced⟩
  have settled : Settles past [] s t := by
    refine ⟨(List.append_nil past).symm ▸ later, fun o hk => ⟨hk, ?_⟩⟩
    rw [List.nil_append, told, Ledger.ends_cons, List.countP_nil, Nat.zero_add]
  refine settled.congr ?_ rfl le_rfl
  have order : (putIn name b s.bridges).Perm _ := perm_putIn b hs.names
  rw [without_of_not_mem hn] at order
  exact order

end Balances

/-! ### Requests -/

/-- What is done within a bridge that keeps the account. -/
theorem settles_within (hs : Balances past s) (name : String) {act : Act Answer}
    (ha : ∀ w, (act w).Ends (w.Accounts Heap.Balanced)) :
    Settles past [] s (s.within name act).2 := by
  unfold within
  split
  · exact .refl hs
  next b hb =>
    have accounts := ha ⟨s.host, b⟩
    cases hw : act ⟨s.host, b⟩ with
    | exhausted => exact .refl hs
    | _ =>
      rw [hw] at accounts
      exact hs.replace hb accounts

theorem settles_setHook (hs : Balances past s) (name : String) (hook? : Option Hook) :
    Settles past [] s (s.setHook name hook?) := by
  unfold setHook
  split
  next b hb => exact hs.replace hb (World.Accounts.discipline.hooked ⟨s.host, b⟩ hook?)
  next => exact .refl hs

/-- There is nothing to close, or that comes to no end, or the history of what is closed is kept. -/
theorem within_close (hs : Balances past s) (name : String) :
    let r := s.within name (Step.close.act (s.heldOutside name))
    r = (.exhausted, s) ∧ s.closed name = [] ∨
    (r = (.closed, s) ∧ s.closed name = [] ∧ assoc? name s.bridges = none) ∨
    ∃ b w, assoc? name s.bridges = some b ∧ Collector.Closes ⟨s.host, b⟩ w ∧
      s.closed name = [(b.id, w.bridge.heap.told)] ∧
      r = (.done, { s with host := w.host, bridges := putIn name w.bridge s.bridges }) := by
  dsimp only
  unfold within closed
  cases hb : assoc? name s.bridges with
  | none => exact .inr (.inl ⟨rfl, rfl, rfl⟩)
  | some b =>
    dsimp only
    have balanced := hs.balanced _ (mem_of_assoc? hb)
    rcases Collector.shutDown_cases (s.heldOutside name) (w := ⟨s.host, b⟩) balanced with
      ends | ⟨w, ends, closes⟩
    · have run : Step.close.act (s.heldOutside name) ⟨s.host, b⟩ = .exhausted :=
        Act.bind_of_exhausted ends
      rw [run, ends]
      exact .inl ⟨rfl, rfl⟩
    · have run : Step.close.act (s.heldOutside name) ⟨s.host, b⟩ = .ok .done w :=
        Act.bind_of_ok ends
      rw [run, ends]
      exact .inr (.inr ⟨b, w, rfl, closes, rfl, rfl⟩)

theorem settles_close (hs : Balances past s) (name : String) :
    Settles past (s.closed name) s (s.answer name .close).2 := by
  rw [answer_eq s name (rfl : Step.close.isOpening = false)]
  rcases within_close hs name with ⟨hr, none⟩ | ⟨hr, none, -⟩ | ⟨b, w, hb, closes, told, hr⟩
  · rw [hr, none]
    exact .refl hs
  · rw [hr, none]
    exact .refl hs
  · rw [hr, told]
    refine (hs.leave hb closes).congr ?_ rfl le_rfl
    exact .of_eq (without_putIn _)

/-- The new bridge comes in when the old one of its name has been closed. -/
theorem settles_open (hs : Balances past s) (name : String) {settings : Settings} {observed : Bool}
    (hb : Bridge.openWith name s.nextId settings observed = .ok b) :
    Settles past (s.closed name) s (s.openBridge name settings observed).2 := by
  have hid : b.id = s.nextId := (Bridge.ownedBy_of_openWith hb).id
  have boxless := Heap.IsBoxless.openWith hb
  rw [openBridge_of_ok hb]
  rcases within_close hs name with ⟨hr, none⟩ | ⟨hr, none, absent⟩ | ⟨old, w, old?, closes, told, hr⟩
  · rw [hr, none]
    exact (Settles.refl hs).congr (.refl _) rfl (Nat.le_succ _)
  · rw [hr, none]
    exact hs.add hid boxless (not_mem_of_assoc? absent)
  · rw [hr, told]
    have left := hs.leave old? closes
    have added := left.trans (left.balances.add hid boxless fun _ he => ne_of_mem_without he)
    refine added.congr ?_ rfl le_rfl
    show (putIn name b (putIn name w.bridge s.bridges)).Perm (putIn name b (without name s.bridges))
    have apart : ∀ e ∈ without name s.bridges, e.1 ≠ name := fun _ => ne_of_mem_without
    have front : (putIn name b (without name s.bridges)).Perm _ :=
      perm_putIn b (names_without hs.names)
    rw [without_of_not_mem apart] at front
    rw [putIn_putIn]
    exact (perm_putIn b hs.names).trans front.symm

/-- Of what a request did nothing is undone when it is answered. -/
theorem settles_finish {r : Answer × Session} {request : Step} (hr : Settles past ended s r.2)
    (hc : request.isClosing = false) : Settles past ended s (request.finish name r).2 := by
  obtain ⟨answer, t⟩ := r
  have keep (save : Option String) : Settles past ended s (Session.keep save (answer, t)).2 := by
    cases answer with
    | value v => cases save <;> exact hr.congr (.refl _) rfl le_rfl
    | _ => exact hr
  cases request with
  | «open» | close => cases hc
  | collect => cases answer <;> exact hr
  | pull _ save | eval _ save | call _ _ save => exact keep save
  | _ => exact hr

/-- A request keeps the account, however the interpreter sees to its heap meanwhile. -/
theorem settles_answer [Pausing] [∀ most, Pausing.Abides most (World.Accounts Heap.Balanced)]
    (hs : Balances past s) (name : String) (request : Step) :
    Settles past (s.ending name request) s (s.answer name request).2 := by
  cases hc : request.isClosing with
  | false =>
    have accounts (w : World) :=
      Step.ends_act World.Accounts.discipline (s.heldOutside name) request
        (fun hh => Step.composed_act (K := World.Accounts Heap.Balanced) _ hh hc) w
    have opening : request.isOpening = false := by cases request <;> first | rfl | cases hc
    have ending : s.ending name request = [] := by cases request <;> first | rfl | cases hc
    rw [answer_eq s name opening, ending]
    exact settles_finish (settles_within hs name accounts) hc
  | true =>
    cases request with
    | close => exact settles_close hs name
    | «open» settings observed =>
      show Settles past _ s (s.openBridge name settings observed).2
      rw [ending]
      cases hb : Bridge.openWith name s.nextId settings observed with
      | ok b => exact settles_open hs name hb
      | error refusal =>
        have drawn : Settles past [] s { s with nextId := s.nextId + 1 } :=
          (Settles.refl hs).congr (.refl _) rfl (Nat.le_succ _)
        rw [openBridge, hb]
        exact drawn
    | _ => cases hc

/-- So does a request before which and during which the collector acts. -/
theorem settles_stepAttended (hs : Balances past s) (plan : Collector.Plan) (name : String)
    (request : Step) :
    let held := s.heldOutside name ++ request.references
    Settles past ((s.attend held plan name).ending name request) s
      (s.stepAttended plan name request).2 := by
  intro held
  let := Collector.attending held plan
  have abides : Pausing.Abides (Request.reentry.room + 1) (World.Accounts Heap.Balanced) :=
    Collector.attending_abides held plan _
  have paused : Act.Composed (World.Accounts Heap.Balanced)
      (do Pausing.pause fun _ => ⟨Request.reentry.room + 1, []⟩; return .done : Act Answer) :=
    .bind (abides.pause _ le_rfl) fun _ => .pure _
  have attended : Settles past [] s (s.attend held plan name) :=
    settles_within hs name (paused.ends World.Accounts.discipline)
  have answered := settles_answer attended.balances name request
  exact (attended.trans answered).congr (.refl _) rfl le_rfl

/-- The ledger of a run agrees with what there is in the end, and objects have counted it. -/
theorem settles_attended (hs : Balances past s) (turns : List (Collector.Plan × Turn)) :
    Settles past (s.endings turns) s (s.attended turns) := by
  induction turns generalizing past s with
  | nil => exact .refl hs
  | cons turn rest ih =>
    obtain ⟨plan, turn⟩ := turn
    cases turn with
    | request name request =>
      have settled := settles_stepAttended hs plan name request
      exact settled.trans (ih settled.balances)
    | hook name hook? =>
      have settled := settles_setHook hs name hook?
      exact settled.trans (ih settled.balances)

/-! ### What the ledger tells -/

namespace Balances

theorem replays (hs : Balances past s) {x : Nat × List BoxEvent} (hx : x ∈ past ++ s.opened) :
    ∃ t, Shelf.empty.replay x.2 = some t := by
  rcases List.mem_append.mp hx with hx | hx
  · exact (hs.cleared x hx).replayed
  · obtain ⟨e, he, rfl⟩ := List.mem_map.mp hx
    obtain ⟨condemned, hr, -⟩ := (hs.balanced e he).replayed
    exact ⟨_, hr⟩

/-- As long as an interpreter is open, the boxes of an object are full or have been finalized. -/
theorem count_opened (hs : Balances past s) {e : String × Bridge} (he : e ∈ s.bridges)
    (o : ObjectId) : e.2.heap.contents.count (some (some o)) + e.2.heap.told.countP (·.ends o) =
      e.2.heap.told.count (.made (some o)) := by
  obtain ⟨condemned, hr, -⟩ := (hs.balanced e he).replayed
  have counted := Shelf.count_replay o hr
  rwa [Shelf.empty, List.count_nil, Nat.zero_add] at counted

end Balances

end Session

/-! ### All together -/

/-- Each box is finalized once. A box is made for every object that is stored, even if something
that is stored with it is refused. When it is finalized its object runs what it declares, in a
context that reaches no interpreter, and whatever comes of that, the box is empty then, and nothing
else is done to the interpreter. No box is finalized that can be had when a collection decides,
whether from the globals, from what runs or from a method that is in use; functions count as
running, and what they hold is safe, as long as they carry out an instruction. In any run of a
session, whenever the collector acts, no box is finalized twice, nor before that was decided;
objects have counted all finalizations; and in an interpreter that was closed as many boxes of an
object were finalized as had been made by then. -/
theorem boxes_are_finalized_once :
    (∀ (owner : Nat) (v : Variant) (h : Heap),
      (h.encode owner v).2.contents = h.contents ++ (Variant.boxed owner v.leaves).map some ∧
      (h.encode owner v).2.told = h.told ++ (Variant.boxed owner v.leaves).map .made ∧
      (h.encode owner v).1.toBool = v.leaves.all (Variant.accepted owner)) ∧
    (∀ (w : World) (id : Nat) (o : ObjectId) (rest : List Value),
      w.bridge.heap.upkeep.doomed = .box id :: rest →
      w.bridge.heap.content? id = some (some o) →
      w.taken.host = w.host.countEnd o ∧ w.taken.bridge.heap.content? id = none ∧
      w.taken.bridge.heap.told = w.bridge.heap.told ++ [.finalized id (some o)] ∧
      (Collector.finalizeNext w = .exhausted ∨ ∃ result? host,
        Request.reentry.override? .detached o .gc [] w.taken =
          .ok result? ⟨host, w.taken.bridge⟩ ∧
        Collector.finalizeNext w = .ok () ⟨host.willed o result?, w.taken.bridge⟩)) ∧
    (∀ (r : Reentry) (name : String) (v : Variant) (args : List Variant) (w : World),
      r.pushGlobal .detached name v w = .ok (.error Refusal.detached.error) w ∧
      r.pullGlobal .detached name w = .ok (.error Refusal.detached.error) w ∧
      r.callGlobal .detached name args w = .ok (.error Refusal.detached.error) w ∧
      r.functionExists .detached name w = .ok false w ∧
      Reentry.accessMode .detached w = .ok .restrictive w) ∧
    (∀ (held : List Reference) (w : World) (id : Nat) (o? : Option ObjectId),
      w.bridge.heap.Lives id o? → w.bridge.heap.InUse (w.roots held) (.box id) →
      ∀ spared, ((do Collector.condemn held spared; Collector.finalizeDoomed : Act Unit) w).Ends
        (·.bridge.heap.Lives id o?)) ∧
    (∀ (held : List Reference) (plan : Collector.Plan) (frame : Frame) (w : World) (id : Nat)
      (o? : Option ObjectId), w.bridge.heap.Lives id o? →
      w.bridge.heap.InUse ((w.withHeap (w.bridge.heap.enter frame)).roots held) (.box id) →
      ((Collector.attending held plan).pause (fun _ => frame) w).Ends
        (·.bridge.heap.Lives id o?)) ∧
    (∀ (held : List Reference) (plan : Collector.Plan) (n : Nat) (a : Activation)
      (callers : List Activation) (w : World),
      letI := Collector.attending held plan
      (step (Reentry.upTo n) a callers w).Ends fun w' =>
        a.frame (Reentry.upTo n) callers ∈ w'.bridge.heap.upkeep.frames ∧
          ∀ id o?, .box id ∈ (a :: callers).flatMap Activation.holds →
            w.bridge.heap.Lives id o? → w'.bridge.heap.Lives id o?) ∧
    (∀ (b : Bridge) (held : List Reference), .table Heap.globals ∈ b.roots held ∧
      ∀ frame ∈ b.heap.upkeep.frames, frame.values ⊆ b.roots held) ∧
    (∀ (h : Heap) (roots : List Value) (f : ScriptFunction) (id : Nat) (name : String),
      h.InUse roots (.function f) → h.functions[f.address]? = some (.method id name) →
      h.InUse roots (.box id)) ∧
    ∀ (host : Host) (turns : List (Collector.Plan × Session.Turn)),
      let s := (Session.ofHost host).attended turns
      let past := (Session.ofHost host).endings turns
      ((past ++ s.opened).map (·.1)).Nodup ∧
      (∀ x ∈ past ++ s.opened, (∀ id, x.2.countP (·.finalizes id) ≤ 1) ∧
        ∀ before id o? after, x.2 = before ++ .finalized id o? :: after →
          .condemned id ∈ before ∨ .closing ∈ before) ∧
      (∀ x ∈ past, Shelf.IsCleared x.2) ∧
      (∀ e ∈ s.bridges, ∀ o,
        e.2.heap.contents.count (some (some o)) + e.2.heap.told.countP (·.ends o) =
          e.2.heap.told.count (.made (some o))) ∧
      (∀ (more : List (Collector.Plan × Session.Turn)) (o : ObjectId),
        (s.host.object? o).isSome = true →
        ((s.attended more).host.object o).finalized + s.opened.ends o =
          (s.host.object o).finalized + (s.ledger more).ends o) ∧
      (s.bridges = [] → ∀ o, (host.object? o).isSome = true →
        (s.host.object o).finalized = (host.object o).finalized + past.made o) := by
  refine ⟨fun owner v h => ?_, fun w id o rest hd hc => ?_, fun r name v args w =>
    ⟨rfl, rfl, rfl, rfl, rfl⟩, fun held w id o? hl hu spared =>
      Collector.ends_condemn held spared hl hu, fun held plan frame w id o? hl hu =>
      Collector.ends_pause held plan _ hl hu, Collector.ends_step, fun b held => ?_,
      fun h roots f id name hu hf => hu.of_function hf List.mem_cons_self, fun host turns => ?_⟩
  · have boxes := h.boxes_encode owner v
    have works : h.Works (h.encode owner v).2 := Heap.Works.storing.encode v h
    obtain ⟨os, contents, told, -⟩ := works.made
    have made := List.append_cancel_left (boxes.contents.symm.trans contents)
    have same := (List.map_injective_iff.mpr (Option.some_injective _)) made
    exact ⟨boxes.contents, same ▸ told, boxes.stored⟩
  · have taken := World.taken_of_box hd hc
    refine ⟨by rw [taken], ?_, ?_, Collector.finalizeNext_of_box hd hc⟩
    · rw [taken, Heap.content?_withoutBox, if_pos rfl]
    · rw [taken, Heap.told_withoutBox]
  · exact ⟨b.globals_mem_roots held, fun frame hF v hv => Bridge.mem_roots_of_frame hF hv held⟩
  · intro s past
    have settled : Session.Settles [] past _ s := Session.settles_attended (.ofHost host) turns
    have balances : Session.Balances past s := settled.balances
    refine ⟨balances.distinct, fun x hx => ?_, balances.cleared,
      fun e he o => balances.count_opened he o, fun more o hk => ?_, fun hb o hk => ?_⟩
    · obtain ⟨t, ht⟩ := balances.replays hx
      refine ⟨fun id => ?_, fun before id o? after hx => ?_⟩
      · exact (Shelf.countP_finalizes_le id ht).trans (by split <;> decide)
      · rw [hx] at ht
        exact Shelf.condemned_of_finalized ht
    · exact ((Session.settles_attended balances more).counts o hk).2
    · have counted := (settled.counts o hk).2
      rw [← Ledger.ends_eq_made balances.cleared]
      have none : s.opened = [] := by rw [Session.opened, hb]; rfl
      rw [none, List.append_nil] at counted
      exact counted

/-- An object whose finalization fails, and which gives itself. -/
def Host.failing : Host :=
  ⟨[.new ⟨"A"⟩ (.full "Thing" [] false [("me", .give (.object ⟨"A"⟩))] (some ["me"])
    [(.gc, .fail .instanceIsNull)])], [], []⟩

theorem Variant.isBoxed_failing : (Variant.object ⟨"A"⟩).isBoxed = true := rfl

/-- A box in a global. -/
def World.keeping : World where
  host := .failing
  bridge :=
    let b := Bridge.fresh "main" 1 .restrictive false
    let boxed := (b.heap.newBox ⟨.object ⟨"A"⟩, Variant.isBoxed_failing⟩).2
    { b with heap := boxed.setGlobal "a" (.box 0) }

/-- Nothing is collected unless it is asked for. -/
def Collector.Plan.idle : Plan := fun _ => none

/-- Decides and finalizes in turn. -/
def Collector.Plan.eager : Plan := fun n => if n % 2 = 0 then some (.condemn []) else some .finalize

/-- One object is pushed twice, the second time next to a function that is refused, and the collector
acts wherever it can. -/
theorem boxes_are_finalized_once_failing :
    let a : Variant := .object ⟨"A"⟩
    let w := World.keeping
    let eager := Collector.attending [] .eager
    let doomed := w.withHeap (w.bridge.heap.withDoomed [.box 0])
    let running : Activation :=
      .start ⟨1, false, [], 1, #[⟨none, .newTable⟩]⟩ [] "script" [.box 0] 1 .outermost
    let h := (w.bridge.heap.newFunction (.method 0 "me")).2
    let turns : List (Collector.Plan × Session.Turn) := [
      (.eager, .request "main" (.open .bare false)),
      (.eager, .request "main" (.push "a" a)),
      (.eager, .request "main" (.push "b" (.array [a, .callable (.script ⟨7, 0⟩)])))]
    let closing : List (Collector.Plan × Session.Turn) := [(.eager, .request "main" .close)]
    let s := (Session.ofHost .failing).attended turns
    let past := (Session.ofHost .failing).endings (turns ++ closing)
    let last := (Session.ofHost .failing).attended (turns ++ closing)
    (∃ (host : Host) (result? : _), Collector.finalizeNext doomed =
      .ok () ⟨host.willed ⟨"A"⟩ result?, doomed.taken.bridge⟩) ∧
    ((do Collector.condemn [] []; Collector.finalizeDoomed : Act Unit) w).Ends
      (·.bridge.heap.Lives 0 (some ⟨"A"⟩)) ∧
    (eager.pause (fun _ => ⟨1, [.box 0]⟩) w).Ends
      (·.bridge.heap.Lives 0 (some ⟨"A"⟩)) ∧
    (@step eager (@Reentry.upTo eager 0) running [] w).Ends
      (·.bridge.heap.Lives 0 (some ⟨"A"⟩)) ∧
    h.InUse [.function ⟨1, h.functions.size - 1⟩] (.box 0) ∧
    (s.bridges.length = 1 ∧ ∀ e ∈ s.bridges,
      e.2.heap.contents.count (some (some ⟨"A"⟩)) + e.2.heap.told.countP (·.ends ⟨"A"⟩) =
        e.2.heap.told.count (.made (some ⟨"A"⟩))) ∧
    (past.length = 1 ∧ ∀ x ∈ past, Shelf.IsCleared x.2 ∧ ∀ id, x.2.countP (·.finalizes id) ≤ 1) ∧
    ((s.attended closing).host.object ⟨"A"⟩).finalized + s.opened.ends ⟨"A"⟩ =
      (s.host.object ⟨"A"⟩).finalized + (s.ledger closing).ends ⟨"A"⟩ ∧
    (last.host.object ⟨"A"⟩).finalized = 2 := by
  intro a w eager doomed running h turns closing s past last
  obtain ⟨-, finalized, -, decided, paused, stepped, -, methods, ledger⟩ := boxes_are_finalized_once
  have full : w.bridge.heap.Lives 0 (some ⟨"A"⟩) := ⟨by decide +kernel, by decide +kernel⟩
  have held : Value.box 0 ∈ [running].flatMap Activation.holds := by decide +kernel
  have method : h.functions[h.functions.size - 1]? = some (.method 0 "me") := rfl
  have global : Value.box 0 ∈ w.bridge.heap.holds (.table Heap.globals) := by decide +kernel
  refine ⟨?_, ?_, ?_, (stepped [] .eager 0 running [] w).weaken fun _ kept => kept.2 0 _ held full,
    methods h _ ⟨1, h.functions.size - 1⟩ 0 "me" (.root List.mem_cons_self) method, ?_, ?_, ?_, ?_⟩
  · have comes : (match Collector.finalizeNext doomed with
        | .exhausted => false
        | _ => true) = true := by decide +kernel
    have object : doomed.bridge.heap.content? 0 = some (some ⟨"A"⟩) := by decide +kernel
    rcases (finalized doomed 0 ⟨"A"⟩ [] rfl object).2.2.2 with ends | ⟨result?, host, -, ends⟩
    · rw [ends] at comes
      cases comes
    · exact ⟨host, result?, ends⟩
  · clear_value w
    exact decided [] w 0 _ full (.held (.root (Bridge.globals_mem_roots _ _)) global) []
  · have listed : Value.box 0 ∈
        (w.withHeap (w.bridge.heap.enter ⟨1, [.box 0]⟩)).roots [] := by decide +kernel
    clear_value w
    exact paused [] .eager ⟨1, [.box 0]⟩ w 0 _ full (.root listed)
  · obtain ⟨-, -, -, opened, -⟩ := ledger .failing turns
    exact ⟨by decide +kernel, fun e he => opened e he ⟨"A"⟩⟩
  · obtain ⟨-, once, cleared, -⟩ := ledger .failing (turns ++ closing)
    exact ⟨by decide +kernel, fun x hx => ⟨cleared x hx, (once x (List.mem_append_left _ hx)).1⟩⟩
  · obtain ⟨-, -, -, -, more, -⟩ := ledger .failing turns
    exact more closing ⟨"A"⟩ (by decide +kernel)
  · obtain ⟨-, -, -, -, -, all⟩ := ledger .failing (turns ++ closing)
    have none : last.bridges = [] := List.eq_nil_of_length_eq_zero (by decide +kernel)
    rw [all none ⟨"A"⟩ (by decide +kernel)]
    decide +kernel

/-- A box that a script lets go of may be finalized while the script runs. -/
example : let turns (plan : Collector.Plan) : List (Collector.Plan × Session.Turn) := [
      (.idle, .request "main" (.open .bare false)),
      (.idle, .request "main" (.push "a" (.object ⟨"A"⟩))),
      (plan, .request "main" (.exec [.assign "a" .nil, .assign "b" (.bool true)]))]
    let finalized (plan : Collector.Plan) : Nat :=
      (((Session.ofHost .failing).attended (turns plan)).host.object ⟨"A"⟩).finalized
    finalized .idle = 0 ∧ finalized .eager = 1 := by decide +kernel

/-- The function for the end of a table puts the box in it into a global. The box is finalized all
the same. When an interpreter is closed such a function can make a box that is never finalized. -/
theorem box_in_a_global_is_finalized :
    let making (e : Expr) : Stmt :=
      .assign "t" (.call (.global "setmetatable") [
        .table [] [(.string "x".toUTF8, .global "b")],
        .table [] [(.string "__gc".toUTF8, .function ["t"] [.assign "keep" e])]])
    let box : Expr := .index (.local "t") (.string "x".toUTF8)
    let turns (body : Block) : List (Collector.Plan × Session.Turn) := [
      (.idle, .request "main" (.open .bare false)),
      (.idle, .request "main" (.push "b" (.object ⟨"A"⟩))),
      (.idle, .request "main" (.exec body))]
    let s := (Session.ofHost .failing).attended
      (turns [making box, .assign "b" .nil, .assign "t" .nil])
    let shown (x : Act Unit) (b : Bridge) : Option (List Value × Value × Nat) :=
      match x ⟨s.host, b⟩ with
      | .ok _ w => some (w.bridge.heap.upkeep.doomed,
          w.bridge.heap.get Heap.globals (.ofString "keep"), (w.host.object ⟨"A"⟩).finalized)
      | _ => none
    let closed := (Session.ofHost .failing).endings
      (turns [making (.method box "me" [])] ++ [(.idle, .request "main" .close)])
    s.bridges.map (fun e => shown (Collector.condemn [] []) e.2) =
        [some ([.table 3, .box 0], .nil, 0)] ∧
      s.bridges.map (fun e => shown (do Collector.condemn [] []; Collector.finalizeNext) e.2) =
        [some ([.box 0], .box 0, 0)] ∧
      s.bridges.map (fun e => shown (Collector.cycle []) e.2) = [some ([], .box 0, 1)] ∧
      closed.map (·.2) = [[.made (some ⟨"A"⟩), .closing, .made (some ⟨"A"⟩),
        .finalized 0 (some ⟨"A"⟩)]] := by
  refine ⟨?_, ?_, ?_, ?_⟩ <;> decide +kernel

end ScriptHost
