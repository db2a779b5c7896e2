import ScriptHost.Proofs.Party.Requests

/-! Sessions as one side sees them: its own bridges and saved values, over the host that it sees. A
request of the side comes to the same there, and leaves all that belongs to the others alone. -/

namespace ScriptHost

variable {p : Party}

/-! ### Parts of named lists -/

namespace Party

variable {β : Type} {mine : String → Bool} {seen : β → β} {es : List (String × β)} {name : String}

/-- The entries under names that are one's own, as one sees them. -/
def part (mine : String → Bool) (seen : β → β) (es : List (String × β)) : List (String × β) :=
  (es.filter fun e => mine e.1).map fun e => (e.1, seen e.2)

theorem part_cons_own {e : String × β} (he : mine e.1 = true) (seen : β → β)
    (es : List (String × β)) : part mine seen (e :: es) = (e.1, seen e.2) :: part mine seen es := by
  simp [part, he]

theorem part_cons_other {e : String × β} (he : mine e.1 = false) (seen : β → β)
    (es : List (String × β)) : part mine seen (e :: es) = part mine seen es := by
  simp [part, he]

theorem assoc?_part (hn : mine name = true) (seen : β → β) (es : List (String × β)) :
    assoc? name (part mine seen es) = (assoc? name es).map seen := by
  induction es with
  | nil => rfl
  | cons e rest ih =>
    by_cases he : e.1 = name
    · rw [part_cons_own (he ▸ hn), assoc?, assoc?, if_pos he, if_pos he]
      rfl
    · rw [assoc?, if_neg he]
      cases hm : mine e.1 with
      | true => rw [part_cons_own hm, assoc?, if_neg he, ih]
      | false => rw [part_cons_other hm, ih]

end Party

open Party

namespace Session

variable {name : String} {bridges : List (String × Bridge)} {mine : String → Bool}

theorem part_putIn (hn : mine name = true) (seen : Bridge → Bridge) (b : Bridge)
    (bridges : List (String × Bridge)) :
    part mine seen (putIn name b bridges) = putIn name (seen b) (part mine seen bridges) := by
  induction bridges with
  | nil => simp [part, putIn, hn]
  | cons e rest ih =>
    by_cases he : e.1 = name
    · have own : mine e.1 = true := he ▸ hn
      rw [putIn, if_pos he, part_cons_own hn, part_cons_own own, putIn, if_pos he]
    · rw [putIn, if_neg he]
      cases hm : mine e.1 with
      | true => rw [part_cons_own hm, part_cons_own hm, putIn, if_neg he, ih]
      | false => rw [part_cons_other hm, part_cons_other hm, ih]

theorem filter_putIn (hn : mine name = false) (b : Bridge) (bridges : List (String × Bridge)) :
    (putIn name b bridges).filter (fun e => mine e.1) = bridges.filter fun e => mine e.1 := by
  induction bridges with
  | nil => simp [putIn, hn]
  | cons e rest ih =>
    rw [putIn]
    split
    next he => simp [he, hn]
    next => rw [List.filter_cons, List.filter_cons, ih]

/-- Names that are not one's own do not count. -/
theorem filter_without {β : Type} (hn : mine name = false) (es : List (String × β)) :
    (es.filter fun e => e.1 ≠ name).filter (fun e => mine e.1) = es.filter fun e => mine e.1 := by
  rw [List.filter_filter]
  refine List.filter_congr fun e _ => ?_
  by_cases he : e.1 = name <;> simp [he, hn]

theorem part_without {β : Type} (mine : String → Bool) (seen : β → β) (es : List (String × β)) :
    part mine seen (es.filter fun e => e.1 ≠ name) =
      (part mine seen es).filter fun e => e.1 ≠ name := by
  unfold part
  rw [List.filter_map, List.filter_filter, List.filter_filter]
  congr 2
  funext e
  exact Bool.and_comm _ _

/-! ### Sessions -/

/-- The session as the party sees it, when its next interpreter will have the number `n`. -/
def view (p : Party) (n : Nat) (s : Session) : Session where
  host := s.host.view p
  bridges := part p.bridge (Bridge.view p) s.bridges
  nextId := n
  saved := part p.saved (Variant.view p) s.saved

/-- All that is the party's holds only what belongs to it. -/
structure Owned (p : Party) (s : Session) : Prop where
  host : s.host.Owned p
  bridge : ∀ e ∈ s.bridges, p.bridge e.1 = true → e.2.Owned p
  saved : ∀ e ∈ s.saved, p.saved e.1 = true → e.2.Owned p

/-- What may become of a session on behalf of the party: all that is the others' stays. -/
structure Spares (p : Party) (s t : Session) : Prop where
  host : s.host.Spares p t.host
  bridges : (t.bridges.filter fun e => p.others.bridge e.1) =
    s.bridges.filter fun e => p.others.bridge e.1
  saved : (t.saved.filter fun e => p.others.saved e.1) = s.saved.filter fun e => p.others.saved e.1

variable {s t u : Session} {n : Nat}

namespace Spares

theorem refl (s : Session) : s.Spares p s := ⟨.refl _, rfl, rfl⟩

theorem trans (h₁ : s.Spares p t) (h₂ : t.Spares p u) : s.Spares p u :=
  ⟨h₁.host.trans h₂.host, h₂.bridges.trans h₁.bridges, h₂.saved.trans h₁.saved⟩

/-- To the others nothing has happened, if nothing is left to be told. -/
theorem view_others (h : s.Spares p t) (hs : s.host.log = []) (ht : t.host.log = []) (n : Nat) :
    t.view p.others n = s.view p.others n := by
  have host : t.host.view p.others = s.host.view p.others := by
    unfold Host.view
    rw [h.host.objects, h.host.natives, hs, ht]
  unfold view part
  rw [host, h.bridges, h.saved]

end Spares

theorem Owned.spared (hs : s.Owned p.others) (h : s.Spares p t) : t.Owned p.others where
  host := hs.host.spared h.host
  bridge e he hn :=
    have found := h.bridges ▸ List.mem_filter.mpr ⟨he, hn⟩
    hs.bridge e (List.mem_filter.mp found).1 hn
  saved e he hn :=
    have found := h.saved ▸ List.mem_filter.mpr ⟨he, hn⟩
    hs.saved e (List.mem_filter.mp found).1 hn

/-! ### What is held -/

theorem own_saved (hs : s.Owned p) :
    ∀ e ∈ s.saved, p.saved e.1 = true → ∀ x ∈ e.2.references, x.own p = true :=
  fun e he hn => e.2.owned_references (hs.saved e he hn)

theorem seen_saved (hs : s.Owned p) (ho : s.Owned p.others) (n : Nat) :
    (s.view p n).saved.flatMap (·.2.references) =
      Reference.seen p (s.saved.flatMap (·.2.references)) :=
  (Reference.seen_flatMap (fun e _ _ => e.2.references_view) (own_saved hs)
    fun e he hn => own_saved ho e he (congrArg (!·) hn)).symm

/-- Of some bridges, those of the party hold what it sees. -/
theorem seen_bridges (hs : s.Owned p) (ho : s.Owned p.others) {bridges : List (String × Bridge)}
    (hb : ∀ e ∈ bridges, e ∈ s.bridges) (refs refs' : Bridge → List Reference)
    (same : ∀ b : Bridge, b.Owned p → refs' (b.view p) = (refs b).map (Reference.view p))
    (own : ∀ {q : Party} (b : Bridge), b.Owned q → ∀ x ∈ refs b, x.own q = true) :
    (part p.bridge (Bridge.view p) bridges).flatMap (fun e => refs' e.2) =
      Reference.seen p (bridges.flatMap fun e => refs e.2) :=
  (Reference.seen_flatMap (fun e he hn => same e.2 (hs.bridge e (hb e he) hn))
    (fun e he hn => own e.2 (hs.bridge e (hb e he) hn))
    fun e he hn => own e.2 (ho.bridge e (hb e he) (congrArg (!·) hn))).symm

theorem heldOutside_view (hs : s.Owned p) (ho : s.Owned p.others) (n : Nat) (name : String) :
    (s.view p n).heldOutside name = Reference.seen p (s.heldOutside name) := by
  have others : ∀ e ∈ without name s.bridges, e ∈ s.bridges := fun e he =>
    List.mem_of_mem_filter he
  have boxes := seen_bridges hs ho others Bridge.boxReferences Bridge.boxReferences
    (fun b _ => b.boxReferences_view) fun b hb => Bridge.owned_boxReferences hb
  have left : without name (s.view p n).bridges =
      part p.bridge (Bridge.view p) (without name s.bridges) := (part_without ..).symm
  rw [heldOutside, left, boxes, seen_saved hs ho, heldOutside, Reference.seen_append]

theorem references_view (hs : s.Owned p) (ho : s.Owned p.others) (n : Nat) :
    (s.view p n).references = Reference.seen p s.references := by
  have boxes : (s.view p n).bridges.flatMap (·.2.boxReferences) =
      Reference.seen p (s.bridges.flatMap (·.2.boxReferences)) :=
    seen_bridges hs ho (fun _ he => he) Bridge.boxReferences Bridge.boxReferences
      (fun b _ => b.boxReferences_view) fun b hb => Bridge.owned_boxReferences hb
  have host : (s.view p n).host.references = Reference.seen p s.host.references :=
    Host.references_view hs.host ho.host
  have factories (held : List Reference) :
      (s.view p n).bridges.flatMap (·.2.factories (Reference.seen p held)) =
        Reference.seen p (s.bridges.flatMap (·.2.factories held)) :=
    seen_bridges hs ho (fun _ he => he) (·.factories held) (·.factories (Reference.seen p held))
      (fun b hb => Bridge.factories_view hb held) fun b hb => Bridge.owned_factories hb held
  unfold references
  dsimp only
  rw [seen_saved hs ho, host, boxes, ← Reference.seen_append, ← Reference.seen_append, factories,
    ← Reference.seen_append]

/-- A report tells the party what a report of its own objects does. -/
theorem report_view (hs : s.Owned p) (ho : s.Owned p.others) (n : Nat) :
    (s.view p n).report = s.report.view p := by
  let told (objects : List ObjectId) (x : Instance) : ObjectReport :=
    ⟨x.id, objects.count x.id, x.definition.isBare, x.finalized, x.lastWill⟩
  have reports (objects objects' : List ObjectId)
      (h : ∀ o, p.object o = true → objects'.count o = objects.count o) (xs : List Instance) :
      ((xs.filter fun x => p.object x.id).map (Instance.view p)).map (told objects') =
        ((xs.map (told objects)).filter fun x => p.object x.object).map (ObjectReport.view p) := by
    rw [List.filter_map, List.map_map, List.map_map]
    refine List.map_congr_left fun x hx => ?_
    have own : p.object x.id = true := (List.mem_filter.mp hx).2
    simp [told, Instance.view, ObjectReport.view, h x.id own]
  show Answer.report _ = Answer.report _
  rw [references_view hs ho]
  exact congrArg Answer.report
    (reports _ _ (fun o hp => Reference.count_seen hp s.references) s.host.objects)

/-! ### Answers to requests -/

/-- What the party sees of an answer and of the session after it. -/
def seenBy (p : Party) (n : Nat) (r : Answer × Session) : Answer × Session :=
  (r.1.view p, r.2.view p n)

/-- What may come of a request of the party. -/
structure Serves (p : Party) (s : Session) (r : Answer × Session) : Prop where
  answer : r.1.Owned p
  owned : r.2.Owned p
  others : r.2.Owned p.others
  spares : s.Spares p r.2

/-- What comes of a request is the party's, and it comes to the same in what the party sees. -/
structure Shows (p : Party) (s : Session) (n : Nat) (r r' : Answer × Session) : Prop where
  serves : Serves p s r
  seen : r' = seenBy p n r

theorem shows_within (hs : s.Owned p) (ho : s.Owned p.others) (hn : p.bridge name = true)
    {x y : Act Answer} (hx : x.Mirrors p y) (n : Nat) :
    Shows p s n (s.within name x) ((s.view p n).within name y) := by
  -- Whatever the action comes to, its bridge is put in the place of the old one.
  have changed (answer : Answer) (ha : answer.Owned p) (b : Bridge) {w : World}
      (hw : World.Serves p ⟨s.host, b⟩ w) : Shows p s n
        (answer, { s with host := w.host, bridges := putIn name w.bridge s.bridges })
        (answer.view p, { s.view p n with
          host := w.host.view p
          bridges := putIn name (w.bridge.view p) (s.view p n).bridges }) := by
    have spares : s.Spares p
        { s with host := w.host, bridges := putIn name w.bridge s.bridges } :=
      ⟨hw.spares, filter_putIn (congrArg (!·) hn) _ _, rfl⟩
    refine ⟨⟨ha, ⟨hw.owned.host, fun e he hm => ?_, hs.saved⟩, ho.spared spares, spares⟩, ?_⟩
    · rcases mem_putIn he with rfl | he
      · exact hw.owned.bridge
      · exact hs.bridge e he hm
    · unfold seenBy view
      rw [part_putIn hn]
  unfold within
  have found : assoc? name (s.view p n).bridges = (assoc? name s.bridges).map (Bridge.view p) :=
    assoc?_part hn _ _
  rw [found]
  cases hb : assoc? name s.bridges with
  | none => exact ⟨⟨trivial, hs, ho, .refl s⟩, rfl⟩
  | some b =>
    have mirrored := hx ⟨s.host, b⟩ ⟨hs.host, ho.host, hs.bridge _ (mem_of_assoc? hb) hn⟩
    have world : (⟨(s.view p n).host, b.view p⟩ : World) = World.view p ⟨s.host, b⟩ := rfl
    dsimp only [Option.map]
    rw [world]
    generalize x ⟨s.host, b⟩ = r, y (World.view p ⟨s.host, b⟩) = r' at mirrored
    cases mirrored with
    | ok ha hw => exact changed _ ha b hw
    | @raised e w hw =>
      dsimp only
      have error : Reentry.plainError (w.view p).bridge.heap (e.view p) =
          Reentry.plainError w.bridge.heap e := Reentry.Mirrors.plainError_view _ _
      rw [error]
      exact changed (.failed _) trivial b hw
    | exhausted => exact ⟨⟨trivial, hs, ho, .refl s⟩, rfl⟩

theorem view_save (hn : p.saved name = true) (v : Variant) (n : Nat) :
    (s.save name v).view p n = (s.view p n).save name (v.view p) := by
  unfold save view
  dsimp only
  rw [part_cons_own hn, part_without]

theorem Owned.save (hs : s.Owned p) {v : Variant} (hv : v.Owned p) : (s.save name v).Owned p where
  host := hs.host
  bridge := hs.bridge
  saved e he hn := by
    rcases List.mem_cons.mp he with rfl | he
    · exact hv
    · exact hs.saved e (List.mem_of_mem_filter he) hn

theorem Spares.save (hn : p.saved name = true) (v : Variant) : s.Spares p (s.save name v) := by
  have other : p.others.saved name = false := congrArg (!·) hn
  have skipped : ((s.save name v).saved.filter fun e => p.others.saved e.1) =
      (s.saved.filter fun e => e.1 ≠ name).filter fun e => p.others.saved e.1 := by
    simp [Session.save, other]
  exact ⟨.refl _, rfl, skipped.trans (filter_without other s.saved)⟩

theorem Shows.keep {r r' : Answer × Session} (hr : Shows p s n r r') {save : Option String}
    (hn : ∀ name, save = some name → p.saved name = true) :
    Shows p s n (keep save r) (Session.keep save r') := by
  obtain ⟨answer, t⟩ := r
  obtain ⟨serves, rfl⟩ := hr
  cases answer with
  | value v =>
    cases save with
    | none => exact ⟨serves, rfl⟩
    | some name =>
      have own := hn name rfl
      have kept : t.Spares p (t.save name v) := .save own v
      exact ⟨⟨serves.answer, serves.owned.save serves.answer, serves.others.spared kept,
          serves.spares.trans kept⟩, Prod.ext rfl (view_save own v n).symm⟩
  | _ => exact ⟨serves, rfl⟩

/-- What is reported when a request is done. -/
theorem Serves.report {r : Answer × Session} (hr : Serves p s r) :
    Serves p s (r.2.report, r.2) := ⟨trivial, hr.owned, hr.others, hr.spares⟩

theorem shows_close {t : Session} (ht : Serves p s (.done, t)) (hn : p.bridge name = true) :
    let left := { t with bridges := without name t.bridges }
    let seen := { t.view p n with bridges := without name (t.view p n).bridges }
    Shows p s n (left.report, left) (seen.report, seen) := by
  intro left seen
  have other : p.others.bridge name = false := congrArg (!·) hn
  have spares : t.Spares p left := ⟨.refl _, filter_without other t.bridges, rfl⟩
  have owned : left.Owned p :=
    ⟨ht.owned.host, fun e he => ht.owned.bridge e (List.mem_of_mem_filter he), ht.owned.saved⟩
  have others : left.Owned p.others := ht.others.spared spares
  have same : seen = left.view p n := by
    show Session.mk _ _ _ _ = Session.mk _ _ _ _
    exact congrArg (Session.mk _ · _ _) (part_without _ _ _).symm
  refine ⟨⟨trivial, owned, others, ht.spares.trans spares⟩, ?_⟩
  rw [same, report_view owned others]
  rfl

theorem Shows.finish {r r' : Answer × Session} (hr : Shows p s n r r') (hn : p.bridge name = true)
    {request : Step} (hq : request.Owned p) :
    Shows p s n (request.finish name r) ((request.view p).finish name r') := by
  cases request with
  | pull | eval => exact hr.keep hq
  | call => exact hr.keep hq.2
  | close =>
    obtain ⟨answer, t⟩ := r
    obtain ⟨serves, rfl⟩ := hr
    cases answer with
    | done => exact shows_close serves hn
    | _ => exact ⟨serves, rfl⟩
  | collect =>
    obtain ⟨answer, t⟩ := r
    obtain ⟨serves, rfl⟩ := hr
    cases answer with
    | done => exact ⟨serves.report, Prod.ext (report_view serves.owned serves.others n) rfl⟩
    | _ => exact ⟨serves, rfl⟩
  | _ => exact hr

/-! ### Openings -/

/-- The number of the next interpreter after a request. -/
def following (n : Nat) (request : Step) : Nat := if request.isOpening then n + 1 else n

theorem nextId_finish (request : Step) (name : String) (r : Answer × Session) :
    (request.finish name r).2.nextId = r.2.nextId := by
  obtain ⟨answer, s⟩ := r
  have keep (save : Option String) : (Session.keep save (answer, s)).2.nextId = s.nextId := by
    cases answer <;> cases save <;> rfl
  cases request with
  | pull _ save | eval _ save | call _ _ save => exact keep save
  | close | collect => cases answer <;> rfl
  | _ => rfl

theorem nextId_replaced (name : String) (b : Bridge) (r : Answer × Session) :
    (replaced name b r).2.nextId = r.2.nextId + 1 := by
  obtain ⟨answer, s⟩ := r
  cases answer <;> rfl

theorem nextId_answer (s : Session) (name : String) (request : Step) :
    (s.answer name request).2.nextId = following s.nextId request := by
  cases ho : request.isOpening with
  | false =>
    rw [answer_eq s name ho, nextId_finish, nextId_within, following, ho]
    rfl
  | true =>
    cases request with
    | «open» settings observed =>
      show (s.openBridge name settings observed).2.nextId = s.nextId + 1
      cases hb : Bridge.openWith name s.nextId settings observed with
      | error refusal => rw [openBridge, hb]
      | ok b => rw [openBridge_of_ok hb, nextId_replaced, nextId_within]
    | _ => cases ho

theorem Shows.draw {r r' : Answer × Session} (hr : Shows p s n r r') :
    Shows p s (n + 1) (r.1, { r.2 with nextId := r.2.nextId + 1 })
      (r'.1, { r'.2 with nextId := n + 1 }) := by
  obtain ⟨⟨answer, owned, others, spares⟩, rfl⟩ := hr
  exact ⟨⟨answer, ⟨owned.host, owned.bridge, owned.saved⟩,
    ⟨others.host, others.bridge, others.saved⟩, ⟨spares.host, spares.bridges, spares.saved⟩⟩, rfl⟩

theorem Shows.replaced {r r' : Answer × Session} (hr : Shows p s n r r')
    (hn : p.bridge name = true) {b : Bridge} (hb : b.Owned p) :
    Shows p s (n + 1) (replaced name b r) (Session.replaced name (b.view p) r') := by
  obtain ⟨answer, t⟩ := r
  obtain ⟨serves, rfl⟩ := hr
  have spares : t.Spares p (t.adding name b) :=
    ⟨.refl _, filter_putIn (congrArg (!·) hn) b t.bridges, rfl⟩
  have owned : (t.adding name b).Owned p := by
    refine ⟨serves.owned.host, fun e he hm => ?_, serves.owned.saved⟩
    rcases mem_putIn he with rfl | he
    · exact hb
    · exact serves.owned.bridge e he hm
  have seen : (t.view p n).adding name (b.view p) = (t.adding name b).view p (n + 1) := by
    unfold adding view
    rw [part_putIn hn]
  have added : Shows p s (n + 1) (.done, t.adding name b)
      (.done, (t.view p n).adding name (b.view p)) :=
    ⟨⟨trivial, owned, serves.others.spared spares, serves.spares.trans spares⟩, Prod.ext rfl seen⟩
  cases answer with
  | exhausted => exact Shows.draw ⟨serves, rfl⟩
  | _ => exact added

/-- An interpreter of the party opens under the number that it has alone. -/
theorem shows_openBridge (hs : s.Owned p) (ho : s.Owned p.others) (hn : p.bridge name = true)
    (own : p.interpreter s.nextId = true) (settings : Settings) (observed : Bool) :
    Shows p s (p.number s.nextId + 1) (s.openBridge name settings observed)
      ((s.view p (p.number s.nextId)).openBridge name settings observed) := by
  have opens : Bridge.openWith name (s.view p (p.number s.nextId)).nextId settings observed =
      (Bridge.openWith name s.nextId settings observed).map (Bridge.view p) :=
    Bridge.openWith_view ..
  cases hb : Bridge.openWith name s.nextId settings observed with
  | error refusal =>
    rw [hb] at opens
    unfold openBridge
    rw [hb, opens]
    exact Shows.draw (r := (.failed refusal.error, s)) ⟨⟨trivial, hs, ho, .refl s⟩, rfl⟩
  | ok b =>
    rw [hb] at opens
    rw [openBridge_of_ok hb, openBridge_of_ok opens, heldOutside_view hs ho]
    have closing : Step.close.Owned p := trivial
    have closes := Step.mirrors_act (s.heldOutside name) closing
    exact (shows_within hs ho hn closes _).replaced hn (Bridge.owned_of_openWith own hb)

/-! ### Requests -/

/-- A request of the party comes to the same in what the party sees, where its interpreter, if it
opens one, has the number that it has alone. -/
theorem shows_answer (hs : s.Owned p) (ho : s.Owned p.others) (hn : p.bridge name = true)
    {request : Step} (hq : request.Owned p)
    (hopen : request.isOpening = true → p.interpreter s.nextId = true ∧ p.number s.nextId = n) :
    Shows p s (following n request) (s.answer name request)
      ((s.view p n).answer name (request.view p)) := by
  cases opening : request.isOpening with
  | false =>
    have held := heldOutside_view hs ho n name
    rw [answer_eq s name opening, answer_eq _ name ((Step.isOpening_view request).trans opening),
      held, following, opening]
    exact (shows_within hs ho hn (request.mirrors_act _ hq) n).finish hn hq
  | true =>
    obtain ⟨own, rfl⟩ := hopen opening
    cases request with
    | «open» settings observed => exact shows_openBridge hs ho hn own settings observed
    | _ => cases opening

end Session

end ScriptHost
