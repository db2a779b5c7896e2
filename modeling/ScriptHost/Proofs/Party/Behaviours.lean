import ScriptHost.Proofs.Party.Calls

/-! What host calls do, as one side of a session sees it. -/

namespace ScriptHost

open Act (Mirrors)

variable {p : Party} {r : Reentry} {args : List Variant} {o : ObjectId}

namespace Variant

theorem head?_view (args : List Variant) :
    ofOption (args.map (view p)).head? = (ofOption args.head?).view p := by
  rw [List.head?_map, view_ofOption]

theorem owned_head? (ha : ∀ v ∈ args, v.Owned p) : (ofOption args.head?).Owned p :=
  owned_ofOption fun v hv => ha v (List.mem_of_head? hv)

end Variant

namespace Behaviour

/-! ### Arguments -/

theorem total_view (args : List Variant) : total (args.map (Variant.view p)) = total args := by
  unfold total
  rw [List.filterMap_map]
  congr 2
  funext v
  exact Variant.number?_view v

theorem connection_view (args : List Variant) : connection (args.map (Variant.view p)) =
    (connection args).map fun e => (e.1, e.2.view p) := by
  unfold connection
  rw [List.length_map]
  cases CallError.checkArity args.length 2 2 with
  | error e => rfl
  | ok _ =>
    rcases args with _ | ⟨a, _ | ⟨b, _ | ⟨c, rest⟩⟩⟩
    · rfl
    · cases a <;> rfl
    · cases a <;> cases b <;> rfl
    · cases a with
      | string => cases b <;> rfl
      | _ => rfl

theorem owned_of_connection {name : String} {c : Callable} (ha : ∀ v ∈ args, v.Owned p)
    (h : connection args = .ok (name, c)) : c.Owned p := by
  unfold connection at h
  cases hc : CallError.checkArity args.length 2 2 with
  | error e =>
    rw [hc] at h
    cases h
  | ok _ =>
    simp only [hc, bind, Except.bind] at h
    split at h
    · cases h
      exact Variant.owned_callable.mp (ha _ (List.mem_cons_of_mem _ List.mem_cons_self))
    · cases h

theorem isConnection_view (name : String) (c : Callable) (e : String × Callable) :
    isConnection name (c.view p) (e.1, e.2.view p) = isConnection name c e := by
  rw [isConnection, isConnection, Callable.same_view]

theorem any_connection_view (name : String) (c : Callable) (es : List (String × Callable)) :
    (es.map fun e => (e.1, e.2.view p)).any (isConnection name (c.view p)) =
      es.any (isConnection name c) := by
  rw [List.any_map]
  congr 1
  funext e
  exact isConnection_view name c e

/-! ### Connections of an object -/

/-- The connections of an object that the party sees. -/
theorem connections_view {h : Host} (ho : p.object o = true) : ((h.view p).object o).connections =
    (h.object o).connections.map fun e => (e.1, e.2.view p) := by
  rw [Host.object_view ho]
  rfl

/-- One more connection. -/
theorem connects (name : String) {c : Callable} (hc : c.Owned p) :
    Host.Change p (fun x => { x with connections := x.connections ++ [(name, c)] })
      (fun x => { x with connections := x.connections ++ [(name, c.view p)] }) where
  id _ := rfl
  view x := by simp [Instance.view]
  owned x hx := ⟨hx.definition, hx.properties,
    List.forall_mem_append.mpr ⟨hx.connections, List.forall_mem_singleton.mpr hc⟩, hx.lastWill⟩

/-- One connection less. -/
theorem disconnects (name : String) (c : Callable) :
    Host.Change p (fun x => { x with connections := x.connections.eraseP (isConnection name c) })
      (fun x => { x with connections := x.connections.eraseP (isConnection name (c.view p)) }) where
  id _ := rfl
  view x := by
    have erased : (x.connections.map fun e => (e.1, e.2.view p)).eraseP
        (isConnection name (c.view p)) =
        (x.connections.eraseP (isConnection name c)).map fun e => (e.1, e.2.view p) := by
      rw [List.eraseP_map]
      congr 2
      funext e
      exact isConnection_view name c e
    show ({ x.view p with connections := _ } : Instance) = _
    rw [Instance.view, erased]
    rfl
  owned x hx := ⟨hx.definition, hx.properties,
    fun e he => hx.connections e (List.eraseP_subset he), hx.lastWill⟩

theorem counts (n : Nat) :
    Host.Change p (fun x => { x with created := n }) (fun x => { x with created := n }) :=
  ⟨fun _ => rfl, fun _ => rfl, fun _ hx => ⟨hx.definition, hx.properties, hx.connections, hx.lastWill⟩⟩

/-! ### What behaviours do -/

theorem mirrors_callEach (hr : r.Mirrors p) (ctx : Context) (ha : ∀ v ∈ args, v.Owned p)
    {cs : List Callable} (hc : ∀ c ∈ cs, c.Owned p) :
    Mirrors p (callEach r ctx args cs)
      (callEach r ctx (args.map (Variant.view p)) (cs.map (Callable.view p))) := by
  induction cs with
  | nil => exact .pure trivial
  | cons c rest ih =>
    rw [List.forall_mem_cons] at hc
    refine .bind (Callable.mirrors_invoke hr ctx c hc.1 ha) fun result _ => ?_
    cases result with
    | ok v => exact ih hc.2
    | error e => exact .pure trivial

/-- What is done with a connection, if the arguments make one. -/
theorem mirrors_connection (ha : ∀ v ∈ args, v.Owned p)
    {f g : String → Callable → Act (Except CallError Variant)}
    (hf : ∀ (name : String) (c : Callable), c.Owned p → Mirrors p (f name c) (g name (c.view p))) :
    Mirrors p
      (match connection args with
      | .error e => return .error e
      | .ok (name, c) => f name c)
      (match connection (args.map (Variant.view p)) with
      | .error e => return .error e
      | .ok (name, c) => g name c) := by
  rw [connection_view]
  cases hc : connection args with
  | error e => exact .pure trivial
  | ok e => exact hf e.1 e.2 (owned_of_connection ha hc)

theorem mirrors_performOn (hr : r.Mirrors p) (ctx : Context) (ho : p.object o = true)
    {b : Behaviour} (hb : b.Owned p) (ha : ∀ v ∈ args, v.Owned p) :
    Mirrors p (performOn r ctx o b args)
      (performOn r ctx o (b.view p) (args.map (Variant.view p))) := by
  cases b with
  | setProperty name =>
    have written := Act.Mirrors.write ho name (Variant.owned_head? ha)
    rw [← Variant.head?_view] at written
    exact .bind written fun _ _ => .pure trivial
  | property name =>
    refine .bind .host fun h hh => .pureOf ?_ ?_
    · exact Variant.owned_ofOption fun _ hv => hh.property? ho hv
    · show Except.ok _ = Except.ok _
      dsimp only [Sided.view]
      rw [Host.property?_view ho, ← Variant.view_ofOption]
  | create definition =>
    rw [Behaviour.Owned] at hb
    refine .bind .host fun h _ => ?_
    have created : ((h.view p).object o).created = (h.object o).created := by
      rw [Host.object_view ho]
      rfl
    dsimp only [Sided.view]
    rw [created]
    have child : p.object ⟨o.label ++ "." ++ toString ((h.object o).created + 1)⟩ = true :=
      (p.children o _).trans ho
    refine .bind (.modifyHost (fun h => ?_) fun h hh => ?_) fun _ _ =>
      .pure (Variant.owned_object.mpr child)
    · rw [Host.view_add child, Host.view_update (counts _), Instance.view_new]
    · exact ⟨(hh.update (counts _) o).add (.new _ hb),
        (Host.Spares.update (counts (p := p) _).id h ho).trans (.add _ child)⟩
  | connect =>
    refine mirrors_connection ha fun name c hc => .bind .host fun h _ => ?_
    refine .test ?_ (.pure trivial) (.bind (.update ho (connects name hc)) fun _ _ => .pure trivial)
    exact (congrArg (List.any · _) (connections_view ho)).trans (any_connection_view name c _)
  | disconnect =>
    refine mirrors_connection ha fun name c hc => .bind .host fun h _ => ?_
    refine .test ?_ (.bind (.update ho (disconnects name c)) fun _ _ => .pure trivial) (.pure trivial)
    exact (congrArg (List.any · _) (connections_view ho)).trans (any_connection_view name c _)
  | isConnected =>
    refine mirrors_connection ha fun name c hc => .bind .host fun h _ => .pureOf trivial ?_
    exact congrArg (fun b => Except.ok (Variant.bool b))
      ((congrArg (List.any · _) (connections_view ho)).trans (any_connection_view name c _))
  | emit =>
    have named : ((args.map (Variant.view p)).head?.bind Variant.string?).getD "" =
        (args.head?.bind Variant.string?).getD "" := by
      rw [List.head?_map]
      cases args.head? with
      | none => rfl
      | some v => exact congrArg (Option.getD · "") (Variant.string?_view v)
    refine .bind .host fun h hh => ?_
    dsimp only [Sided.view]
    rw [named, connections_view ho]
    generalize (args.head?.bind Variant.string?).getD "" = name
    let targets := ((h.object o).connections.filter (·.1 == name)).map (·.2)
    have seen : ((((h.object o).connections.map fun e => (e.1, e.2.view p)).filter
        (·.1 == name)).map (·.2)) = targets.map (Callable.view p) := by
      rw [List.filter_map, List.map_map, List.map_map]
      rfl
    have owned : ∀ c ∈ targets, c.Owned p := by
      intro c hc
      obtain ⟨e, he, rfl⟩ := List.mem_map.mp hc
      exact (hh.instance ho).connections e (List.mem_of_mem_filter he)
    rw [seen, ← List.map_tail]
    refine .bind (mirrors_callEach hr ctx (fun v hv => ha v (List.mem_of_mem_tail hv)) owned)
      fun result _ => ?_
    cases result with
    | ok _ =>
      exact .pureOf trivial
        (congrArg (fun n => Except.ok (Variant.int (Int64.ofNat n))) (List.length_map _))
    | error e => exact .pure trivial
  | _ => exact .pure trivial

/-- What is done with an object needs one. -/
theorem mirrors_onObject (hr : r.Mirrors p) (ctx : Context) {b : Behaviour} (hb : b.Owned p)
    (ha : ∀ v ∈ args, v.Owned p) (self : Option ObjectId) :
    (∀ o, self = some o → p.object o = true) → Mirrors p
      (match self with
      | some o => performOn r ctx o b args
      | none => return .error (.failed "no object"))
      (match self with
      | some o => performOn r ctx o (b.view p) (args.map (Variant.view p))
      | none => return .error (.failed "no object")) := by
  intro hs
  cases self with
  | none => exact .pure trivial
  | some o => exact mirrors_performOn hr ctx (hs o rfl) hb ha

theorem mirrors_run (hr : r.Mirrors p) (ctx : Context) {self : Option ObjectId}
    (hs : ∀ o, self = some o → p.object o = true) {b : Behaviour} (hb : b.Owned p)
    (ha : ∀ v ∈ args, v.Owned p) : Mirrors p (run r ctx self b args)
      (run r ctx self (b.view p) (args.map (Variant.view p))) := by
  have performed := mirrors_onObject hr ctx hb ha self hs
  cases b with
  | give v => exact .pure (a := Except.ok v) hb
  | echo =>
    exact .pureOf (Variant.owned_array.mpr ha) (congrArg Except.ok (Variant.view_array args).symm)
  | first =>
    exact .pureOf (Variant.owned_head? ha) (congrArg Except.ok (Variant.head?_view args))
  | count => exact .pureOf trivial (by rw [List.length_map]; rfl)
  | sum => exact .pureOf trivial (congrArg (fun x => Except.ok (Variant.float x)) (total_view args))
  | display =>
    refine .bind .host fun h _ => .pureOf trivial ?_
    have texts : (args.map (Variant.view p)).map (h.view p).text = args.map h.text := by
      rw [List.map_map]
      exact List.map_congr_left fun v hv => Host.text_view (ha v hv)
    exact congrArg (fun ts => Except.ok (Variant.string ("|".intercalate ts))) texts
  | fail e => exact .pure trivial
  | arity low high =>
    refine .pureOf ?_ ?_
    · cases CallError.checkArity args.length low high <;> trivial
    · rw [List.length_map]
      cases CallError.checkArity args.length low high <;> rfl
  | callGlobal name => exact .scriptFault (hr.callGlobal ctx name ha)
  | callFirst =>
    cases args with
    | nil => exact .pure trivial
    | cons v rest =>
      rw [List.forall_mem_cons] at ha
      cases v with
      | callable c =>
        exact Callable.mirrors_invoke hr ctx c (Variant.owned_callable.mp ha.1) ha.2
      | _ => exact .pure trivial
  | push name =>
    have pushed := hr.pushGlobal ctx name (Variant.owned_head? ha)
    rw [← Variant.head?_view] at pushed
    refine .bind pushed fun result _ => ?_
    cases result with
    | ok _ => exact .pure trivial
    | error e => exact .pure trivial
  | pull name => exact .scriptFault (hr.pullGlobal ctx name)
  | hasFunction name => exact .bind (hr.functionExists ctx name) fun _ _ => .pure trivial
  | mode => exact .bind (Reentry.Mirrors.accessMode ctx) fun _ _ => .pure trivial
  | _ => exact performed

end Behaviour

end ScriptHost
