import ScriptHost.Host.Call
import ScriptHost.Proofs.Box.Simulation
import ScriptHost.Proofs.Variant.Equality

/-! Writes by key. A dictionary holds under each key what was stored there last, and its keys stand
in the order in which they first came; an element of an array is replaced where there is one; a
property takes what is of its kind. A write that is refused changes nothing. -/

namespace ScriptHost.Variant

variable {es ws : List (Variant × Variant)} {key value k : Variant}

/-! ### One entry -/

/-- The keys of a dictionary are different, and so are those of dictionaries in them. -/
structure Distinct (es : List (Variant × Variant)) : Prop where
  keyed : ∀ e ∈ es, e.1.Keyed
  differ : (es.map (·.1)).Pairwise Differs

/-- Equal keys are equal to the same keys. -/
theorem same_congr_left {k l m : Variant} (hk : k.Keyed) (hl : l.Keyed)
    (h : k.same l = true) : k.same m = l.same m := by
  have back : l.same k = true := (same_comm hk hl).symm.trans h
  exact Bool.eq_iff_iff.mpr ⟨l.regular.trans k m back, k.regular.trans l m h⟩

theorem lookup_cons (e : Variant × Variant) (rest : List (Variant × Variant)) (k : Variant) :
    lookup (e :: rest) k = if e.1.same k then some e.2 else lookup rest k := by
  cases h : e.1.same k <;> simp [lookup, h]

theorem lookup_insertEntry (hes : ∀ e ∈ es, e.1.Keyed) (hkey : key.Keyed) (hk : k.Keyed)
    (value : Variant) : lookup (insertEntry key value es) k =
      if key.same k then some value else lookup es k := by
  induction es with
  | nil => rw [insertEntry, lookup_cons]
  | cons e rest ih =>
    rw [List.forall_mem_cons] at hes
    rw [insertEntry]
    split
    next known =>
      rw [lookup_cons, lookup_cons, same_congr_left hes.1 hkey known]
      split <;> rfl
    next new =>
      rw [lookup_cons, lookup_cons, ih hes.2]
      by_cases here : e.1.same k = true
      · -- a key that is equal to this one would have been known
        have apart : key.same k = false := by
          by_contra reached
          rw [Bool.not_eq_false, same_comm hkey hk] at reached
          exact new (e.1.regular.trans k key here reached)
        rw [if_pos here, apart, if_pos here]
        rfl
      · rw [if_neg here, if_neg here]

theorem keys_insertEntry (key value : Variant) (es : List (Variant × Variant)) :
    (insertEntry key value es).map (·.1) =
      if es.any (·.1.same key) then es.map (·.1) else es.map (·.1) ++ [key] := by
  split
  next known => exact insertEntry_of_known (List.any_eq_true.mp known)
  next new =>
    have others : ∀ e ∈ es, e.1.same key = false := by simpa using new
    rw [insertEntry_of_new others, List.map_append, List.map_singleton]

theorem Distinct.insertEntry (h : Distinct es) (hkey : key.Keyed) (value : Variant) :
    Distinct (insertEntry key value es) := by
  refine ⟨fun e he => ?_, pairwise_insertEntry h.keyed h.differ hkey⟩
  rcases mem_insertEntry he with ⟨-, new | ⟨x, hx, old⟩⟩ | he
  · exact new ▸ hkey
  · exact old ▸ h.keyed x hx
  · exact h.keyed e he

/-! ### Many entries -/

/-- The entries after some writes. -/
def insertAll (es ws : List (Variant × Variant)) : List (Variant × Variant) :=
  ws.foldl (fun es w => insertEntry w.1 w.2 es) es

/-- What was stored last under a key equal to `k`. -/
def lastStored? (k : Variant) (es : List (Variant × Variant)) : Option Variant :=
  lookup es.reverse k

theorem lastStored?_cons (k : Variant) (e : Variant × Variant)
    (rest : List (Variant × Variant)) : lastStored? k (e :: rest) =
      (lastStored? k rest).or (if e.1.same k then some e.2 else none) := by
  rw [lastStored?, lastStored?, lookup, List.reverse_cons, List.find?_append, Option.map_or]
  cases h : e.1.same k <;> simp [lookup, h]

theorem isSome_lookup (es : List (Variant × Variant)) (k : Variant) :
    (lookup es k).isSome = es.any (·.1.same k) := by
  rw [lookup, Option.isSome_map, List.isSome_find?]

theorem isSome_lastStored? (k : Variant) (es : List (Variant × Variant)) :
    (lastStored? k es).isSome = es.any (·.1.same k) := by
  rw [lastStored?, isSome_lookup, List.any_reverse]

/-- Of different keys at most one is equal to `k`. -/
theorem Distinct.lookup_eq (h : Distinct es) (hk : k.Keyed) : lookup es k = lastStored? k es := by
  induction es with
  | nil => rfl
  | cons e rest ih =>
    obtain ⟨⟨he, hrest⟩, differ⟩ := And.intro (List.forall_mem_cons.mp h.keyed) h.differ
    rw [List.map_cons, List.pairwise_cons] at differ
    rw [lookup_cons, lastStored?_cons, ih ⟨hrest, differ.2⟩]
    split
    next here =>
      have absent : lastStored? k rest = none := by
        rw [← Option.isNone_iff_eq_none, ← Option.not_isSome, Bool.not_eq_true',
          isSome_lastStored?, List.any_eq_false]
        intro f hf there
        rw [same_comm (hrest f hf) hk] at there
        have equal := e.1.regular.trans k f.1 here there
        rw [(differ.1 f.1 (List.mem_map_of_mem hf)).1] at equal
        cases equal
      rw [absent, Option.none_or]
    next => rw [Option.or_none]

theorem lookup_insertAll (hes : Distinct es) (hws : ∀ w ∈ ws, w.1.Keyed) (hk : k.Keyed) :
    lookup (insertAll es ws) k = (lastStored? k ws).or (lastStored? k es) := by
  induction ws generalizing es with
  | nil => exact hes.lookup_eq hk
  | cons w rest ih =>
    rw [List.forall_mem_cons] at hws
    have step := hes.insertEntry hws.1 w.2
    rw [insertAll, List.foldl_cons, ← insertAll, ih step hws.2, ← step.lookup_eq hk,
      lookup_insertEntry hes.keyed hws.1 hk, hes.lookup_eq hk, lastStored?_cons, Option.or_assoc]
    split <;> rfl

theorem Distinct.insertAll (hes : Distinct es) (hws : ∀ w ∈ ws, w.1.Keyed) :
    Distinct (insertAll es ws) := by
  induction ws generalizing es with
  | nil => exact hes
  | cons w rest ih =>
    rw [List.forall_mem_cons] at hws
    exact ih (hes.insertEntry hws.1 w.2) hws.2

/-- The keys in `ls` that are not among `ks`, each once, in the order in which they first come. -/
def newKeys (ks ls : List Variant) : List Variant :=
  (ls.filter fun l => !ks.any (·.same l)).eraseDups

theorem newKeys_cons_of_known {ks : List Variant} {l : Variant} (h : ks.any (·.same l) = true)
    (ls : List Variant) : newKeys ks (l :: ls) = newKeys ks ls := by
  rw [newKeys, List.filter_cons_of_neg (by simp [h]), newKeys]

theorem newKeys_cons_of_new {ks ls : List Variant} {l : Variant} (h : ks.any (·.same l) = false)
    (hl : l.Keyed) (hls : ∀ m ∈ ls, m.Keyed) :
    newKeys ks (l :: ls) = l :: newKeys (ks ++ [l]) ls := by
  rw [newKeys, List.filter_cons_of_pos (by simp [h]), List.eraseDups_cons, List.filter_filter,
    newKeys]
  congr 2
  refine List.filter_congr fun m hm => ?_
  have swap : (m == l) = l.same m := same_comm (hls m hm) hl
  simp [swap, List.any_append, Bool.and_comm]

theorem keys_insertAll (hws : ∀ w ∈ ws, w.1.Keyed) :
    (insertAll es ws).map (·.1) = es.map (·.1) ++ newKeys (es.map (·.1)) (ws.map (·.1)) := by
  induction ws generalizing es with
  | nil => simp [insertAll, newKeys]
  | cons w rest ih =>
    rw [List.forall_mem_cons] at hws
    have held : (es.map (·.1)).any (·.same w.1) = es.any (·.1.same w.1) := List.any_map
    rw [insertAll, List.foldl_cons, ← insertAll, ih hws.2, keys_insertEntry, List.map_cons]
    cases known : es.any (·.1.same w.1) with
    | true => rw [if_pos rfl, newKeys_cons_of_known (held.trans known)]
    | false =>
      have later : ∀ k ∈ rest.map (·.1), k.Keyed := by simpa using hws.2
      rw [if_neg Bool.false_ne_true, newKeys_cons_of_new (held.trans known) hws.1 later,
        List.append_assoc, List.singleton_append]

/-! ### Slots -/

/-- Whether `value` can replace what a property holds: it is of the same kind, or an integer in
place of a float. -/
def Admits (old value : Variant) : Prop :=
  value.kind = old.kind ∨ value.kind = .int ∧ old.kind = .float

/-- The key names a slot of the value, and the slot takes what is to be stored. -/
inductive Takes : Variant → Variant → Variant → Prop
  | element {items : List Variant} {i : Int64} (value : Variant) :
    0 ≤ i.toInt → i.toInt < items.length → Takes (array items) (int i) value
  | entry (es : List (Variant × Variant)) (key value : Variant) : Takes (dictionary es) key value
  | property {v old value : Variant} {name : String} :
    v.property? name = some old → old.Admits value → Takes v (string name) value

variable {v old : Variant} {name : String}

theorem kind_of_property? (h : v.property? name = some old) :
    old.kind = .float ∨ old.kind = .vector2 ∨ old.kind = .vector3 := by
  unfold property? at h
  split at h <;> cases h <;> simp [kind]

theorem isSome_withComponent? {n : Float} : (v.withComponent? name n).isSome = true ↔
    ∃ old, v.property? name = some old ∧ old.kind = .float := by
  constructor
  · intro h
    unfold withComponent? at h
    split at h <;> first | exact ⟨_, rfl, rfl⟩ | cases h
  · rintro ⟨old, h, hf⟩
    unfold property? at h
    split at h <;> cases h <;> first | rfl | cases hf

theorem isSome_withVector? (hn : value.kind ≠ .float) :
    (v.withVector? name value).isSome = true ↔
      ∃ old, v.property? name = some old ∧ value.kind = old.kind := by
  constructor
  · intro h
    unfold withVector? at h
    split at h <;> first | exact ⟨_, rfl, rfl⟩ | cases h
  · rintro ⟨old, h, hk⟩
    unfold property? at h
    split at h <;> cases h <;> cases value <;> first | rfl | exact absurd rfl hn | cases hk

theorem kind_of_number? {n : Float} (h : value.number? = some n) :
    value.kind = .int ∨ value.kind = .float := by
  cases value with
  | int => exact .inl rfl
  | float => exact .inr rfl
  | _ => cases h

theorem kind_of_no_number (h : value.number? = none) :
    value.kind ≠ .int ∧ value.kind ≠ .float := by
  cases value with
  | int | float => cases h
  | _ => simp [kind]

theorem isSome_withProperty? : (v.withProperty? name value).isSome = true ↔
    ∃ old, v.property? name = some old ∧ old.Admits value := by
  unfold withProperty?
  cases hv : value.number? with
  | some n =>
    refine isSome_withComponent?.trans (exists_congr fun old => and_congr_right fun hp => ?_)
    rcases kind_of_number? hv with hk | hk <;> rcases kind_of_property? hp with ho | ho | ho <;>
      simp [Admits, hk, ho]
  | none =>
    obtain ⟨noInteger, noFloat⟩ := kind_of_no_number hv
    refine (isSome_withVector? noFloat).trans (exists_congr fun old => and_congr_right fun _ => ?_)
    simp [Admits, noInteger]

theorem isSome_slot? {n : Nat} {i : Int64} :
    (slot? n i).isSome = true ↔ 0 ≤ i.toInt ∧ i.toInt < n := by
  unfold slot?
  split <;> simp_all

/-- A write is taken if the key names a slot that takes it, and only then. -/
theorem isSome_set? (v key value : Variant) :
    (v.set? key value).isSome = true ↔ v.Takes key value := by
  constructor
  · intro h
    unfold set? at h
    split at h
    · rw [Option.isSome_map, isSome_slot?] at h
      exact .element value h.1 h.2
    · exact .entry _ _ _
    · obtain ⟨old, hp, admits⟩ := isSome_withProperty?.mp h
      exact .property hp admits
    · cases h
  · intro h
    cases h with
    | element _ low high =>
      rw [set?, Option.isSome_map, isSome_slot?]
      exact ⟨low, high⟩
    | entry => rfl
    | property hp admits =>
      have taken := isSome_withProperty?.mpr ⟨_, hp, admits⟩
      cases v <;> first | exact taken | cases hp

/-! ### All writes -/

/-- The value after some writes. -/
def written (v : Variant) (ws : List (Variant × Variant)) : Variant :=
  ws.foldl (fun v w => v.after (.write w.1 w.2)) v

theorem written_dictionary (es ws : List (Variant × Variant)) :
    (dictionary es).written ws = dictionary (insertAll es ws) := by
  induction ws generalizing es with
  | nil => rfl
  | cons w rest ih => exact ih _

/-- An element is replaced, and the others stay. -/
theorem set?_array {items : List Variant} {i : Int64} {w : Variant}
    (h : (array items).set? (int i) value = some w) :
    ∃ xs, w = array xs ∧ xs.length = items.length ∧
      ∀ n : Nat, xs[n]? = if (n : Int) = i.toInt then some value else items[n]? := by
  obtain ⟨place, hp, rfl⟩ := Option.map_eq_some_iff.mp h
  unfold slot? at hp
  split at hp
  next within =>
    cases hp
    refine ⟨_, rfl, List.length_set, fun n => ?_⟩
    have here : i.toInt.toNat = n ↔ (n : Int) = i.toInt := by omega
    have inside : i.toInt.toNat < items.length := by omega
    rw [List.getElem?_set, if_pos inside]
    simp only [here]
  next => cases hp

end ScriptHost.Variant

namespace ScriptHost

open Variant

theorem Heap.writeBox_of_refused {h : Heap} {b : Nat} {v key value : Variant}
    (hb : h.boxed? b = some v) (hr : v.set? key value = none) : h.writeBox b key value = h := by
  obtain ⟨x, hx, rfl⟩ := Option.map_eq_some_iff.mp hb
  rw [← value_set?, Option.map_eq_none_iff] at hr
  rw [writeBox, hx, Option.bind_some, hr]

theorem Host.set_of_no_object {v : Variant} (hv : v.object? = none) (h : Host)
    (key value : Variant) : h.set v key value = (v.set? key value, h) := by
  cases v <;> first | rfl | cases hv

/-- Writes by key. After any writes to a dictionary with different keys, a key reaches what was
stored last under an equal one, or else what was there; the keys are those there were and then the
new ones, each once and in the order in which they first came, and they are what `has` and `size`
tell of. It is enough for this that no dictionary inside a key has equal keys; a key in which a NaN
occurs is equal to none and reaches nothing. A write to an array under an integer replaces one
element if there is one. Any value takes a write if the key names a slot for it, and else it stays
as it was, wherever it is kept. -/
theorem writes_follow_their_keys :
    (∀ es ws : List (Variant × Variant), (∀ e ∈ es ++ ws, e.1.Keyed) →
      (es.map (·.1)).Pairwise Differs → ∃ fs,
        (dictionary es).written ws = dictionary fs ∧
        fs.map (·.1) = es.map (·.1) ++ newKeys (es.map (·.1)) (ws.map (·.1)) ∧
        (fs.map (·.1)).Pairwise Differs ∧
        ∀ (r : Reentry) (ctx : Context),
          (dictionary fs).invoke r ctx "size" [] = pure (.ok (.int (.ofNat fs.length))) ∧
          ∀ k : Variant, k.Keyed →
            (dictionary fs).get k = ofOption ((lastStored? k ws).or (lastStored? k es)) ∧
            (dictionary fs).invoke r ctx "has" [k] =
              pure (.ok (.bool ((es ++ ws).any (·.1.same k))))) ∧
    (∀ (items : List Variant) (i : Int64) (value : Variant),
      (((array items).set? (int i) value).isSome = true ↔
        0 ≤ i.toInt ∧ i.toInt < items.length) ∧
      ∀ w, (array items).set? (int i) value = some w → ∃ xs, w = array xs ∧
        xs.length = items.length ∧
        ∀ n : Nat, xs[n]? = if (n : Int) = i.toInt then some value else items[n]?) ∧
    ∀ v key value : Variant, v.object? = none →
      ((v.set? key value).isSome = true ↔ v.Takes key value) ∧
      (v.set? key value = none → v.after (.write key value) = v ∧
        (∀ h : Host, h.set v key value = (none, h)) ∧
        ∀ (h : Heap) (b : Nat), h.boxed? b = some v → h.writeBox b key value = h) := by
  refine ⟨fun es ws keyed differ => ?_, fun items i value => ⟨?_, fun w => set?_array⟩,
    fun v key value hv => ⟨isSome_set? v key value, fun refused => ⟨?_, fun h => ?_, ?_⟩⟩⟩
  · rw [List.forall_mem_append] at keyed
    have before : Distinct es := ⟨keyed.1, differ⟩
    have after : Distinct (insertAll es ws) := before.insertAll keyed.2
    refine ⟨insertAll es ws, written_dictionary es ws, keys_insertAll keyed.2, after.differ,
      fun r ctx => ⟨rfl, fun k hk => ?_⟩⟩
    have reached := lookup_insertAll before keyed.2 hk
    refine ⟨congrArg ofOption reached, ?_⟩
    have known : (insertAll es ws).any (·.1.same k) = (es ++ ws).any (·.1.same k) := by
      rw [← isSome_lookup, reached, Option.isSome_or, isSome_lastStored?, isSome_lastStored?,
        List.any_append, Bool.or_comm]
    rw [← known]
    rfl
  · rw [set?, Option.isSome_map, isSome_slot?]
  · rw [after, refused, Option.getD_none]
  · rw [h.set_of_no_object hv, refused]
  · exact fun h b hb => Heap.writeBox_of_refused hb refused

/-- Three writes to a dictionary of two keys, one write to an array, and one that a vector in a box
does not take. -/
theorem writes_follow_their_keys_of_two :
    let es : List (Variant × Variant) := [(int 1, string "a"), (array [string "k"], nil)]
    let ws : List (Variant × Variant) := [(bool true, int 4), (int 1, int 5), (bool true, int 6)]
    (∀ e ∈ es ++ ws, e.1.Keyed) ∧ (es.map (·.1)).Pairwise Differs ∧ (bool true).Keyed ∧
      (∃ fs, (dictionary es).written ws = dictionary fs ∧
        fs.map (·.1) = [int 1, array [string "k"], bool true] ∧
        (dictionary fs).get (bool true) = int 6) ∧
      (∃ w xs, (array [nil]).set? (int 0) (int 7) = some w ∧ w = array xs ∧
        xs[0]? = some (int 7)) ∧
      (vector2 ⟨1, 2⟩).object? = none ∧
      (vector2 ⟨1, 2⟩).set? (string "x") (bool true) = none ∧
      World.vector.bridge.heap.boxed? 0 = some (vector2 ⟨1, 2⟩) ∧
      World.vector.bridge.heap.writeBox 0 (string "x") (bool true) = World.vector.bridge.heap := by
  intro es ws
  obtain ⟨dictionaries, arrays, slots⟩ := writes_follow_their_keys
  have keyed : ∀ e ∈ es ++ ws, e.1.Keyed := by
    simp only [es, ws, List.cons_append, List.nil_append, List.forall_mem_cons]
    exact ⟨trivial, keyed_array.mpr (List.forall_mem_singleton.mpr trivial), trivial, trivial,
      trivial, List.forall_mem_nil _⟩
  have differ : (es.map (·.1)).Pairwise Differs := List.pairwise_pair.mpr (by decide)
  obtain ⟨fs, hw, keys, -, members⟩ := dictionaries es ws keyed differ
  obtain ⟨-, reached⟩ := members (Reentry.upTo 0 .outermost) .detached
  obtain ⟨get, -⟩ := reached (bool true) trivial
  have stored : (array [nil]).set? (int 0) (int 7) = some (array [int 7]) := rfl
  obtain ⟨xs, hx, -, elements⟩ := (arrays [nil] 0 (int 7)).2 _ stored
  have refused : (vector2 ⟨1, 2⟩).set? (string "x") (bool true) = none := rfl
  have boxed : World.vector.bridge.heap.boxed? 0 = some (vector2 ⟨1, 2⟩) := rfl
  obtain ⟨-, -, kept⟩ := (slots (vector2 ⟨1, 2⟩) (string "x") (bool true) rfl).2 refused
  exact ⟨keyed, differ, trivial, ⟨fs, hw, keys, get⟩, ⟨_, xs, stored, hx, elements 0⟩, rfl, refused,
    boxed, kept _ 0 boxed⟩

end ScriptHost
