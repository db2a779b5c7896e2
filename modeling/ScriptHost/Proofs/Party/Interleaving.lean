import ScriptHost.Proofs.Party.Numbering

/-! Runs in which the two sides of a session take turns. What a side is told on the way, and what
becomes of all that is its own, is what it would be without the other side. The number of the next
interpreter is all that they share, and no more than names for functions depends on it. -/

namespace ScriptHost

open Party

variable {p : Party} {name : String} {n : Nat}

/-- The side of a bridge. -/
def Party.side (p : Party) (name : String) : Party := if p.bridge name then p else p.others

/-! ### Dealings -/

/-- What a host does with a bridge: it makes a request, installs a hook with any callback or
removes it, or installs or removes the handlers of printed lines and of errors. -/
inductive Dealing
  | request (request : Step)
  | hook (hook? : Option Hook)
  | handlers (prints reports : Bool)

namespace Dealing

def view (p : Party) : Dealing → Dealing
  | request step => request (step.view p)
  | dealing => dealing

def Owned (p : Party) : Dealing → Prop
  | request step => step.Owned p
  | _ => True

def isOpening : Dealing → Bool
  | request step => step.isOpening
  | _ => false

/-- The number of the next interpreter after the dealing. -/
def following (n : Nat) (dealing : Dealing) : Nat := if dealing.isOpening then n + 1 else n

end Dealing

/-- What a dealing is answered, with the events on the way. -/
abbrev Told := Answer × List Event

def Told.view (p : Party) (r : Told) : Told := (r.1.view p, r.2.map (Event.view p))

namespace Session

variable {s : Session} {dealing : Dealing}

/-- Changes a setting of a bridge. -/
def adjust (s : Session) (name : String) (f : Bridge → Bridge) : Answer × Session :=
  s.within name (do Act.modifyBridge f; return .done)

def respond (s : Session) (name : String) : Dealing → Answer × Session
  | .request step => s.answer name step
  | .hook hook? => s.adjust name fun b => { b with hook? := hook? }
  | .handlers prints reports =>
    s.adjust name fun b => { b with prints := prints, reports := reports }

def perform (s : Session) (name : String) (dealing : Dealing) : Told × Session :=
  let (a, s) := s.respond name dealing
  let (log, host) := s.host.takeLog
  ((a, log), { s with host := host })

/-- Performs dealings of bridges one after the other. -/
def play (s : Session) : List (String × Dealing) → List (String × Told) × Session
  | [] => ([], s)
  | (name, dealing) :: rest =>
    let r := s.perform name dealing
    let later := r.2.play rest
    ((name, r.1) :: later.1, later.2)

/-- The interpreters that a run opens, where `n` is the number of the first: the bridge that each is
for, and its number. -/
def openings (n : Nat) : List (String × Dealing) → List (String × Nat)
  | [] => []
  | (name, dealing) :: rest =>
    if dealing.isOpening then (name, n) :: openings (n + 1) rest else openings n rest

/-- All in the session belongs to one side or the other, and there is nothing left to tell. -/
structure IsDivided (p : Party) (s : Session) : Prop where
  own : s.Owned p
  others : s.Owned p.others
  told : s.host.log = []

theorem IsDivided.swap (hs : s.IsDivided p) : s.IsDivided p.others :=
  ⟨hs.others, p.others_others.symm ▸ hs.own, hs.told⟩

theorem nextId_perform (s : Session) (name : String) (dealing : Dealing) :
    (s.perform name dealing).2.nextId = dealing.following s.nextId := by
  have adjusts (f : Bridge → Bridge) : (s.adjust name f).2.nextId = s.nextId :=
    nextId_within s name _
  cases dealing with
  | request step => exact nextId_answer s name step
  | hook hook? => exact adjusts fun b => { b with hook? := hook? }
  | handlers prints reports =>
    exact adjusts fun b => { b with prints := prints, reports := reports }

/-! ### One dealing -/

theorem shows_respond (hs : s.IsDivided p) (hn : p.bridge name = true) (hm : dealing.Owned p)
    (hopen : dealing.isOpening = true → p.interpreter s.nextId = true ∧ p.number s.nextId = n) :
    Shows p s (dealing.following n) (s.respond name dealing)
      ((s.view p n).respond name (dealing.view p)) := by
  have adjusts (f : Bridge → Bridge) (hview : ∀ b : Bridge, f (b.view p) = (f b).view p)
      (hf : ∀ b, (f b).heap = b.heap ∧ (f b).name = b.name ∧ (f b).id = b.id) :
      Shows p s n (s.adjust name f) ((s.view p n).adjust name f) :=
    shows_within hs.own hs.others hn
      (.done (.modifyBridge hview (fun b hb => (hf b).1 ▸ hb.heap) fun b => (hf b).2)) n
  cases dealing with
  | request step => exact shows_answer hs.own hs.others hn hm hopen
  | hook | handlers => exact adjusts _ (fun _ => rfl) fun _ => ⟨rfl, rfl, rfl⟩

/-- A dealing of the party, and what the party sees of it. -/
theorem perform_view (hs : s.IsDivided p) (hn : p.bridge name = true) (hm : dealing.Owned p)
    (hopen : dealing.isOpening = true → p.interpreter s.nextId = true ∧ p.number s.nextId = n) :
    let r := s.perform name dealing
    r.2.IsDivided p ∧ s.Spares p r.2 ∧ (s.view p n).perform name (dealing.view p) =
      (r.1.view p, r.2.view p (dealing.following n)) := by
  intro r
  obtain ⟨serves, seen⟩ := shows_respond hs hn hm hopen
  refine ⟨⟨⟨⟨serves.owned.host.object, serves.owned.host.native⟩, serves.owned.bridge,
    serves.owned.saved⟩, ⟨⟨serves.others.host.object, serves.others.host.native⟩,
    serves.others.bridge, serves.others.saved⟩, rfl⟩, ⟨⟨serves.spares.host.objects,
    serves.spares.host.natives⟩, serves.spares.bridges, serves.spares.saved⟩, ?_⟩
  unfold perform
  rw [seen]
  have log (t : Session) : (t.host.view p).log.reverse = t.host.log.reverse.map (Event.view p) :=
    List.map_reverse.symm
  exact Prod.ext (Prod.ext rfl (log _)) rfl

/-- A dealing of the other side, of which the party sees nothing. -/
theorem perform_others (hs : s.IsDivided p) (hn : p.bridge name = false)
    (hm : dealing.Owned p.others)
    (hopen : dealing.isOpening = true → p.interpreter s.nextId = false) (n : Nat) :
    let r := s.perform name dealing
    r.2.IsDivided p ∧ r.2.view p n = s.view p n := by
  intro r
  have own : p.others.bridge name = true := congrArg (!·) hn
  obtain ⟨divided, spares, -⟩ := perform_view hs.swap own hm fun ho =>
    ⟨congrArg (!·) (hopen ho), rfl⟩
  have seen := spares.view_others hs.told divided.told n
  have divided := divided.swap
  rw [p.others_others] at seen divided
  exact ⟨divided, seen⟩

/-! ### Whole runs -/

/-- Interpreters that a run opens, from the number `m` on, belong to the sides that they are opened
for. To the party its own ones, `k` of them, have the numbers from `n` on. -/
structure Numbers (p : Party) (m n k : Nat) (dealings : List (String × Dealing)) : Prop where
  sides : ∀ e ∈ openings m dealings, p.interpreter e.2 = p.bridge e.1
  own : (part p.bridge p.number (openings m dealings)).map (·.2) = List.range' n k

namespace Numbers

variable {m k : Nat} {rest : List (String × Dealing)}

/-- What the party opens is the first of its interpreters. -/
theorem next_own (h : Numbers p m n k ((name, dealing) :: rest)) (hn : p.bridge name = true) :
    (dealing.isOpening = true → p.interpreter m = true ∧ p.number m = n) ∧
      ∃ k', dealing.following n + k' = n + k ∧
        Numbers p (dealing.following m) (dealing.following n) k' rest := by
  obtain ⟨sides, own⟩ := h
  rw [openings] at sides own
  unfold Dealing.following
  cases ho : dealing.isOpening with
  | false =>
    rw [ho] at sides own
    exact ⟨nofun, k, rfl, sides, own⟩
  | true =>
    rw [ho, if_pos rfl] at sides own
    rw [part_cons_own hn] at own
    obtain ⟨here, sides⟩ := List.forall_mem_cons.mp sides
    cases k with
    | zero => cases own
    | succ k' =>
      obtain ⟨first, own⟩ := List.cons.inj own
      exact ⟨fun _ => ⟨here.trans hn, first⟩, k', Nat.succ_add_eq_add_succ n k', sides, own⟩

theorem next_other (h : Numbers p m n k ((name, dealing) :: rest)) (hn : p.bridge name = false) :
    (dealing.isOpening = true → p.interpreter m = false) ∧
      Numbers p (dealing.following m) n k rest := by
  obtain ⟨sides, own⟩ := h
  rw [openings] at sides own
  unfold Dealing.following
  cases ho : dealing.isOpening with
  | false =>
    rw [ho] at sides own
    exact ⟨nofun, sides, own⟩
  | true =>
    rw [ho, if_pos rfl] at sides own
    rw [part_cons_other hn] at own
    obtain ⟨here, sides⟩ := List.forall_mem_cons.mp sides
    exact ⟨fun _ => here.trans hn, sides, own⟩

end Numbers

/-- Of a run the party sees what comes of its own dealings alone. -/
theorem play_view {dealings : List (String × Dealing)} {s : Session} {n k : Nat}
    (hs : s.IsDivided p) (hm : ∀ e ∈ dealings, e.2.Owned (p.side e.1))
    (hk : Numbers p s.nextId n k dealings) :
    (s.view p n).play (part p.bridge (Dealing.view p) dealings) =
      (part p.bridge (Told.view p) (s.play dealings).1,
        (s.play dealings).2.view p (n + k)) := by
  induction dealings generalizing s n k with
  | nil =>
    have none : k = 0 := List.range'_eq_nil_iff.mp hk.own.symm
    rw [none]
    rfl
  | cons e rest ih =>
    obtain ⟨name, dealing⟩ := e
    obtain ⟨here, hm⟩ := List.forall_mem_cons.mp hm
    have next := nextId_perform s name dealing
    unfold side at here
    rw [play]
    -- A dealing of the party is seen as it is, one of the others not at all.
    cases hn : p.bridge name with
    | true =>
      rw [if_pos hn] at here
      obtain ⟨opened, k', total, hk⟩ := hk.next_own hn
      obtain ⟨divided, -, seen⟩ := perform_view hs hn here opened
      rw [part_cons_own hn, part_cons_own hn, play]
      dsimp only
      rw [seen, ih divided hm (next ▸ hk), total]
    | false =>
      rw [if_neg (Bool.eq_false_iff.mp hn)] at here
      obtain ⟨opened, hk⟩ := hk.next_other hn
      obtain ⟨divided, seen⟩ := perform_others hs hn here opened n
      rw [part_cons_other hn, part_cons_other hn, ← seen]
      exact ih divided hm (next ▸ hk)

/-! ### Numbers of interpreters -/

theorem openings_rise (m : Nat) (dealings : List (String × Dealing)) :
    ((openings m dealings).map (·.2)).Pairwise (· < ·) ∧
      ∀ e ∈ openings m dealings, m ≤ e.2 := by
  induction dealings generalizing m with
  | nil => exact ⟨List.Pairwise.nil, nofun⟩
  | cons e rest ih =>
    obtain ⟨name, dealing⟩ := e
    rw [openings]
    split
    · obtain ⟨rise, above⟩ := ih (m + 1)
      refine ⟨List.pairwise_cons.mpr ⟨fun x hx => ?_, rise⟩,
        List.forall_mem_cons.mpr ⟨le_rfl, fun e he => Nat.le_of_succ_le (above e he)⟩⟩
      obtain ⟨e, he, rfl⟩ := List.mem_map.mp hx
      exact above e he
    · exact ih m

/-- Alone, a party would number the interpreters that it opens one after the other. -/
theorem exists_numbers {m : Nat} {dealings : List (String × Dealing)}
    (hd : ∀ e ∈ openings m dealings, p.interpreter e.2 = p.bridge e.1) :
    ∃ (g : Equiv.Perm Nat) (k : Nat), (∀ x < m, g x = x) ∧
      Numbers (p.renumbered g) m m k dealings := by
  obtain ⟨rise, above⟩ := openings_rise m dealings
  let own := ((openings m dealings).filter fun e => p.bridge e.1).map (·.2)
  have rising : own.Pairwise (· < ·) := rise.sublist (List.filter_sublist.map _)
  have high : ∀ x ∈ own, m ≤ x := by
    intro x hx
    obtain ⟨e, he, rfl⟩ := List.mem_map.mp hx
    exact above e (List.mem_of_mem_filter he)
  obtain ⟨g, fixed, consecutive⟩ := exists_consecutive rising high
  refine ⟨g, own.length, fixed, hd, ?_⟩
  have mapped : (part p.bridge g (openings m dealings)).map (·.2) = own.map g := by
    simp [part, own, Function.comp_def]
  exact mapped.trans consecutive

end Session

/-! ### Sides that do not interfere -/

open Session

/-- All that the party is told in a run, and all that it is left with, is what it would be if its
own dealings were made alone, with nothing there but what belongs to it. Interpreters that the run
opens may have other numbers then. -/
def Party.RunsAlone (p : Party) (s : Session) (dealings : List (String × Dealing)) : Prop :=
  ∃ (g : Equiv.Perm Nat) (n : Nat), (∀ m < s.nextId, g m = m) ∧
    let q := p.renumbered g
    (s.view q s.nextId).play (part p.bridge (Dealing.view q) dealings) =
      (part p.bridge (Told.view q) (s.play dealings).1, (s.play dealings).2.view q n)

theorem Session.IsDivided.renumbered {s : Session} (hs : s.IsDivided p) (g : Equiv.Perm Nat) :
    s.IsDivided (p.renumbered g) :=
  ⟨hs.own.renumbered, hs.others.renumbered, hs.told⟩

theorem Dealing.Owned.renumbered {dealing : Dealing} (hm : dealing.Owned p) (g : Equiv.Perm Nat) :
    dealing.Owned (p.renumbered g) := by
  cases dealing with
  | request step => exact Step.Owned.renumbered hm
  | _ => trivial

theorem Party.side_renumbered (p : Party) (g : Equiv.Perm Nat) (name : String) :
    (p.renumbered g).side name = (p.side name).renumbered g := by
  unfold side
  rw [apply_ite (Party.renumbered · g)]
  rfl

theorem Party.others_side (p : Party) (name : String) : p.others.side name = p.side name := by
  unfold side
  have other : p.others.bridge name = !p.bridge name := rfl
  rw [other, others_others]
  cases p.bridge name <;> rfl

theorem runsAlone {s : Session} {dealings : List (String × Dealing)} (hs : s.IsDivided p)
    (hm : ∀ e ∈ dealings, e.2.Owned (p.side e.1))
    (hd : ∀ e ∈ openings s.nextId dealings, p.interpreter e.2 = p.bridge e.1) :
    p.RunsAlone s dealings := by
  obtain ⟨g, k, fixed, numbers⟩ := exists_numbers hd
  refine ⟨g, s.nextId + k, fixed, play_view (hs.renumbered g) (fun e he => ?_) numbers⟩
  rw [Party.side_renumbered]
  exact (hm e he).renumbered g

/-- Bridges in one process do not interfere. Whatever the host does with them, and in what order,
each side is told what its own dealings would tell it alone, and is left with what they would leave
it with: globals, modes, hooks, handlers, objects and saved values. -/
theorem bridges_do_not_interfere (p : Party) (s : Session) (dealings : List (String × Dealing))
    (hs : s.IsDivided p) (hm : ∀ e ∈ dealings, e.2.Owned (p.side e.1))
    (hd : ∀ e ∈ openings s.nextId dealings, p.interpreter e.2 = p.bridge e.1) :
    p.RunsAlone s dealings ∧ p.others.RunsAlone s dealings := by
  refine ⟨runsAlone hs hm hd, runsAlone hs.swap (fun e he => ?_) fun e he => ?_⟩
  · rw [Party.others_side]
    exact hm e he
  · exact congrArg (!·) (hd e he)

/-- The side of all names that begin with an `a`. It opens the first interpreter. -/
def Party.lettered : Party where
  bridge name := name.toList.head? == some 'a'
  object o := o.label.toList.head? == some 'a'
  native key := key.toList.head? == some 'a'
  saved name := name.toList.head? == some 'a'
  interpreter n := n == 1
  number := id
  injective := Function.injective_id
  children o n := by
    rw [String.toList_append, String.toList_append]
    cases o.label.toList <;> rfl

theorem two_bridges_do_not_interfere :
    let s := Session.ofHost
      ⟨[.new ⟨"apple"⟩ (.bare "Fruit"), .new ⟨"bean"⟩ (.bare "Pulse")], [], []⟩
    let dealings : List (String × Dealing) :=
      [("anna", .request (.open .bare true)), ("bert", .request (.open .bare true)),
        ("anna", .request (.push "x" (.object ⟨"apple"⟩))),
        ("bert", .request (.push "x" (.object ⟨"bean"⟩))), ("bert", .handlers false true),
        ("anna", .request (.permissive true)), ("bert", .request (.libraries ["math"])),
        ("anna", .hook (some ⟨.empty, 1, none, false, 0, 0, none, false⟩)), ("bert", .request .close),
        ("anna", .request (.pull "x" (some "answer")))]
    s.IsDivided .lettered ∧ (∀ e ∈ dealings, e.2.Owned (Party.lettered.side e.1)) ∧
      (∀ e ∈ openings s.nextId dealings, Party.lettered.interpreter e.2 =
        Party.lettered.bridge e.1) ∧
      Party.lettered.RunsAlone s dealings ∧ Party.lettered.others.RunsAlone s dealings := by
  intro s dealings
  have divided : s.IsDivided .lettered := by
    have owned (q : Party) : s.Owned q := by
      have bare (o : ObjectId) (name : String) : (Instance.new o (.bare name)).Owned q :=
        .new o trivial
      refine ⟨⟨?_, List.forall_mem_nil _⟩, List.forall_mem_nil _, List.forall_mem_nil _⟩
      exact List.forall_mem_cons.mpr ⟨fun _ => bare _ _,
        List.forall_mem_cons.mpr ⟨fun _ => bare _ _, List.forall_mem_nil _⟩⟩
    exact ⟨owned _, owned _, rfl⟩
  have anna : Party.lettered.side "anna" = .lettered := if_pos (by decide)
  have bert : Party.lettered.side "bert" = Party.lettered.others := if_neg (by decide)
  have sides : ∀ e ∈ dealings, e.2.Owned (Party.lettered.side e.1) := by
    simp only [dealings, List.forall_mem_cons, anna, bert]
    have apple : Party.lettered.object ⟨"apple"⟩ = true := by decide
    have bean : Party.lettered.others.object ⟨"bean"⟩ = true := by decide
    have answer : Party.lettered.saved "answer" = true := by decide
    have answers : ∀ name, some "answer" = some name → Party.lettered.saved name = true := by
      intro name hn
      cases hn
      exact answer
    exact ⟨trivial, trivial, apple, bean, trivial, trivial, trivial, trivial, trivial, answers,
      nofun⟩
  have opened : ∀ e ∈ openings s.nextId dealings, Party.lettered.interpreter e.2 =
      Party.lettered.bridge e.1 := by decide
  exact ⟨divided, sides, opened, bridges_do_not_interfere _ s dealings divided sides opened⟩

end ScriptHost
