import Mathlib
import ScriptHost.Variant.Property

/-! Equality of host values is transitive, and symmetric among values whose dictionaries have no two
equal keys: it is not in general, since the entries of one dictionary are looked up in the other.
Each entry of such a dictionary is found by its key, and a write keeps the keys distinct. -/

namespace ScriptHost

/-! ### Components -/

section Components

variable {α β : Type} [BEq α] [BEq β]

instance partialEquivBEqPair [PartialEquivBEq α] [PartialEquivBEq β] :
    PartialEquivBEq (α × β) where
  symm h :=
    have h := Bool.and_eq_true_iff.mp h
    Bool.and_eq_true_iff.mpr ⟨BEq.symm h.1, BEq.symm h.2⟩
  trans h k :=
    have h := Bool.and_eq_true_iff.mp h
    have k := Bool.and_eq_true_iff.mp k
    Bool.and_eq_true_iff.mpr ⟨BEq.trans h.1 k.1, BEq.trans h.2 k.2⟩

theorem partialEquivBEq_of_map [PartialEquivBEq β] (f : α → β)
    (hf : ∀ x y, (x == y) = (f x == f y)) : PartialEquivBEq α where
  symm h := by
    rw [hf] at h ⊢
    exact BEq.symm h
  trans h k := by
    rw [hf] at h k ⊢
    exact BEq.trans h k

end Components

instance : PartialEquivBEq Vector2 := partialEquivBEq_of_map (fun v => (v.x, v.y)) fun _ _ => rfl

instance : PartialEquivBEq Vector3 :=
  partialEquivBEq_of_map (fun v => ((v.x, v.y), v.z)) fun _ _ => rfl

instance : PartialEquivBEq Color :=
  partialEquivBEq_of_map (fun c => (((c.r, c.g), c.b), c.a)) fun _ _ => rfl

instance : PartialEquivBEq Rect2 :=
  partialEquivBEq_of_map (fun r => (r.position, r.size)) fun _ _ => rfl

instance : PartialEquivBEq Plane :=
  partialEquivBEq_of_map (fun p => (p.normal, p.d)) fun _ _ => rfl

/-! ### Parts -/

namespace Variant

theorem sameItems_iff {xs ys : List Variant} :
    sameItems xs ys = true ↔ List.Forall₂ (fun x y => x.same y = true) xs ys := by
  induction xs generalizing ys with
  | nil => cases ys <;> simp [sameItems]
  | cons x xs ih => cases ys <;> simp [sameItems, ih]

/-- Both the keys and the values are equal. -/
def SameEntry (e f : Variant × Variant) : Prop := e.1.same f.1 = true ∧ e.2.same f.2 = true

theorem eachIn_iff {xs ys : List (Variant × Variant)} :
    eachIn xs ys = true ↔ ∀ e ∈ xs, ∃ f ∈ ys, SameEntry e f := by
  induction xs with
  | nil => simp [eachIn]
  | cons e rest ih =>
    obtain ⟨k, v⟩ := e
    simp [eachIn, sameEntry, SameEntry, ih]

theorem same_dictionary_iff {es fs : List (Variant × Variant)} :
    (dictionary es).same (dictionary fs) = true ↔
      es.length = fs.length ∧ ∀ e ∈ es, ∃ f ∈ fs, SameEntry e f := by
  rw [same, Bool.and_eq_true, beq_iff_eq, eachIn_iff]

/-- Neither of the values is equal to the other. -/
def Differs (k l : Variant) : Prop := k.same l = false ∧ l.same k = false

instance (k l : Variant) : Decidable (Differs k l) := inferInstanceAs (Decidable (_ ∧ _))

end Variant

mutual

/-- No dictionary in the value has two entries with equal keys, nor has one among the arguments
that a bound callable keeps. -/
def Variant.Keyed (v : Variant) : Prop :=
  match v with
  | .array items => Variant.ListKeyed items
  | .dictionary entries => Variant.EntriesKeyed entries ∧ (entries.map (·.1)).Pairwise Variant.Differs
  | .callable c => Callable.Keyed c
  | _ => True
termination_by structural v

def Variant.ListKeyed (vs : List Variant) : Prop :=
  match vs with
  | [] => True
  | v :: rest => Variant.Keyed v ∧ Variant.ListKeyed rest
termination_by structural vs

def Variant.EntriesKeyed (es : List (Variant × Variant)) : Prop :=
  match es with
  | [] => True
  | e :: rest => Variant.EntryKeyed e ∧ Variant.EntriesKeyed rest
termination_by structural es

def Variant.EntryKeyed (e : Variant × Variant) : Prop :=
  match e with
  | (k, v) => Variant.Keyed k ∧ Variant.Keyed v
termination_by structural e

def Callable.Keyed (c : Callable) : Prop :=
  match c with
  | .bound target extra _ => Callable.Keyed target ∧ Variant.ListKeyed extra
  | _ => True
termination_by structural c

end

namespace Variant

theorem listKeyed_iff {vs : List Variant} : ListKeyed vs ↔ ∀ v ∈ vs, v.Keyed := by
  induction vs with
  | nil => simp [ListKeyed]
  | cons v rest ih => rw [ListKeyed, ih, List.forall_mem_cons]

theorem entriesKeyed_iff {es : List (Variant × Variant)} :
    EntriesKeyed es ↔ ∀ e ∈ es, e.1.Keyed ∧ e.2.Keyed := by
  induction es with
  | nil => simp [EntriesKeyed]
  | cons e rest ih =>
    obtain ⟨k, v⟩ := e
    rw [EntriesKeyed, EntryKeyed, ih, List.forall_mem_cons]

@[simp] theorem keyed_array {items : List Variant} : (array items).Keyed ↔ ∀ v ∈ items, v.Keyed :=
  listKeyed_iff

@[simp] theorem keyed_dictionary {es : List (Variant × Variant)} : (dictionary es).Keyed ↔
    (∀ e ∈ es, e.1.Keyed ∧ e.2.Keyed) ∧ (es.map (·.1)).Pairwise Differs :=
  and_congr_left' entriesKeyed_iff

@[simp] theorem keyed_bound {target : Callable} {extra : List Variant} {placement : Placement} :
    (Callable.bound target extra placement).Keyed ↔ target.Keyed ∧ ∀ v ∈ extra, v.Keyed :=
  and_congr_right' listKeyed_iff

/-- Values that hold no others. -/
def isAtom : Variant → Bool
  | array _ | dictionary _ | callable _ => false
  | _ => true

/-- Induction over host values and the callables in them. -/
theorem wholeInduction {motive : Variant → Prop} {motive_2 : Callable → Prop}
    (atom : ∀ v, v.isAtom = true → motive v)
    (array : ∀ items, (∀ v ∈ items, motive v) → motive (.array items))
    (dictionary : ∀ es, (∀ e ∈ es, motive e.1 ∧ motive e.2) → motive (.dictionary es))
    (ofCallable : ∀ c, motive_2 c → motive (.callable c))
    (method : ∀ o name, motive_2 (.method o name)) (native : ∀ f, motive_2 (.native f))
    (script : ∀ f, motive_2 (.script f))
    (bound : ∀ target extra placement, motive_2 target → (∀ v ∈ extra, motive v) →
      motive_2 (.bound target extra placement)) (v : Variant) : motive v :=
  Variant.rec (motive_1 := motive) (motive_2 := motive_2)
    (motive_3 := fun vs => ∀ v ∈ vs, motive v)
    (motive_4 := fun es => ∀ e ∈ es, motive e.1 ∧ motive e.2)
    (motive_5 := fun e => motive e.1 ∧ motive e.2)
    (atom _ rfl) (fun _ => atom _ rfl) (fun _ => atom _ rfl) (fun _ => atom _ rfl)
    (fun _ => atom _ rfl) (fun _ => atom _ rfl) (fun _ => atom _ rfl) (fun _ => atom _ rfl)
    (fun _ => atom _ rfl) (fun _ => atom _ rfl) array dictionary
    (fun _ => atom _ rfl) (fun _ => atom _ rfl)
    ofCallable method native script bound
    (by simp) (fun _ _ hv hs => List.forall_mem_cons.mpr ⟨hv, hs⟩)
    (by simp) (fun _ _ he hs => List.forall_mem_cons.mpr ⟨he, hs⟩)
    (fun _ _ hk hv => ⟨hk, hv⟩) v

/-! ### Symmetry and transitivity -/

/-- Different elements of one list have different partners in another one, which is no longer: so
all of that one are partners. -/
theorem exists_partner {α β : Type} {R : α → β → Prop} {xs : List α} {ys : List β}
    (hl : ys.length ≤ xs.length) (hx : ∀ x ∈ xs, ∃ y ∈ ys, R x y)
    (hd : xs.Pairwise fun a b => ∀ y, R a y → ¬ R b y) : ∀ y ∈ ys, ∃ x ∈ xs, R x y := by
  induction xs generalizing ys with
  | nil =>
    obtain rfl := List.eq_nil_of_length_eq_zero (Nat.le_zero.mp hl)
    exact List.forall_mem_nil _
  | cons x rest ih =>
    rw [List.forall_mem_cons] at hx
    rw [List.pairwise_cons] at hd
    obtain ⟨⟨y₀, hy₀, hr⟩, hx⟩ := hx
    obtain ⟨front, back, rfl⟩ := List.append_of_mem hy₀
    -- The others have their partners elsewhere.
    have others : ∀ a ∈ rest, ∃ y ∈ front ++ back, R a y := fun a ha => by
      obtain ⟨y, hy, hra⟩ := hx a ha
      have ne : y ≠ y₀ := by
        rintro rfl
        exact hd.1 a ha y hr hra
      refine ⟨y, ?_, hra⟩
      simpa [ne] using hy
    have length : (front ++ back).length ≤ rest.length := by
      simp only [List.length_append, List.length_cons] at hl ⊢
      omega
    have found := ih length others hd.2
    intro y hy
    by_cases he : y = y₀
    · exact ⟨x, List.mem_cons_self, he ▸ hr⟩
    · obtain ⟨a, ha, hra⟩ := found y (by simpa [he] using hy)
      exact ⟨a, List.mem_cons_of_mem _ ha, hra⟩

/-- Equality is transitive from the value on, and symmetric where keys are distinct. -/
structure Regular (x : Variant) : Prop where
  symm : ∀ y, x.Keyed → y.Keyed → x.same y = true → y.same x = true
  trans : ∀ y z, x.same y = true → y.same z = true → x.same z = true

end Variant

structure Callable.Regular (c : Callable) : Prop where
  symm : ∀ d, c.Keyed → d.Keyed → c.same d = true → d.same c = true
  trans : ∀ d e, c.same d = true → d.same e = true → c.same e = true

namespace Variant

/-- Values of one kind that are equal where their contents are. -/
theorem regular_of_beq {α : Type} [BEq α] [PartialEquivBEq α] {f : α → Variant}
    (hf : ∀ a y, (f a).same y = true ↔ ∃ b, f b = y ∧ (a == b) = true) (a : α) :
    (f a).Regular := by
  constructor
  · intro y _ _ h
    obtain ⟨b, rfl, hb⟩ := (hf a y).mp h
    exact (hf b _).mpr ⟨a, rfl, BEq.symm hb⟩
  · intro y z h k
    obtain ⟨b, rfl, hb⟩ := (hf a y).mp h
    obtain ⟨c, rfl, hc⟩ := (hf b z).mp k
    exact (hf a _).mpr ⟨c, rfl, BEq.trans hb hc⟩

theorem regular_atom {v : Variant} (hv : v.isAtom = true) : v.Regular := by
  cases v with
  | nil => exact regular_of_beq (f := fun _ : Unit => nil) (fun _ y => by cases y <;> simp [same]) ()
  | array | dictionary | callable => cases hv
  | bool b => exact regular_of_beq (fun _ y => by cases y <;> simp [same]) b
  | int n => exact regular_of_beq (fun _ y => by cases y <;> simp [same]) n
  | float x => exact regular_of_beq (fun _ y => by cases y <;> simp [same]) x
  | string s => exact regular_of_beq (fun _ y => by cases y <;> simp [same]) s
  | vector2 v => exact regular_of_beq (fun _ y => by cases y <;> simp [same]) v
  | vector3 v => exact regular_of_beq (fun _ y => by cases y <;> simp [same]) v
  | color c => exact regular_of_beq (fun _ y => by cases y <;> simp [same]) c
  | rect2 r => exact regular_of_beq (fun _ y => by cases y <;> simp [same]) r
  | plane p => exact regular_of_beq (fun _ y => by cases y <;> simp [same]) p
  | object o => exact regular_of_beq (fun _ y => by cases y <;> simp [same]) o
  | signal s => exact regular_of_beq (fun _ y => by cases y <;> simp [same]) s

/-- Lists of which one is known to be regular. -/
theorem symm_items {xs ys : List Variant} (hr : ∀ x ∈ xs, x.Regular) (hx : ∀ x ∈ xs, x.Keyed)
    (hy : ∀ y ∈ ys, y.Keyed) (h : List.Forall₂ (fun x y => x.same y = true) xs ys) :
    List.Forall₂ (fun y x => y.same x = true) ys xs := by
  induction h with
  | nil => exact .nil
  | cons h _ ih =>
    rw [List.forall_mem_cons] at hr hx hy
    exact .cons (hr.1.symm _ hx.1 hy.1 h) (ih hr.2 hx.2 hy.2)

theorem trans_items {xs ys zs : List Variant} (hr : ∀ x ∈ xs, x.Regular)
    (h : List.Forall₂ (fun x y => x.same y = true) xs ys)
    (k : List.Forall₂ (fun y z => y.same z = true) ys zs) :
    List.Forall₂ (fun x z => x.same z = true) xs zs := by
  induction h generalizing zs with
  | nil =>
    cases k
    exact .nil
  | cons h _ ih =>
    cases k with
    | cons k ks =>
      rw [List.forall_mem_cons] at hr
      exact .cons (hr.1.trans _ _ h k) (ih hr.2 ks)

theorem regular_array {items : List Variant} (hr : ∀ v ∈ items, v.Regular) :
    (array items).Regular := by
  constructor
  · intro y hx hy h
    cases y with
    | array ys =>
      rw [keyed_array] at hx hy
      exact sameItems_iff.mpr (symm_items hr hx hy (sameItems_iff.mp h))
    | _ => cases h
  · intro y z h k
    cases y with
    | array ys =>
      cases z with
      | array zs =>
        exact sameItems_iff.mpr (trans_items hr (sameItems_iff.mp h) (sameItems_iff.mp k))
      | _ => cases k
    | _ => cases h

/-- Keys that are equal to a third are equal to each other, so that two entries of a dictionary
have different partners. -/
theorem partners_differ {e e' f : Variant × Variant} (hr : e.1.Regular) (hr' : e'.1.Regular)
    (he' : e'.1.Keyed) (hf : f.1.Keyed) (hd : e.1.Differs e'.1) (h : SameEntry e f) :
    ¬ SameEntry e' f := fun h' => by
  have same := hr.trans _ _ h.1 (hr'.symm _ he' hf h'.1)
  rw [hd.1] at same
  cases same

theorem regular_dictionary {es : List (Variant × Variant)}
    (hr : ∀ e ∈ es, e.1.Regular ∧ e.2.Regular) : (dictionary es).Regular := by
  constructor
  · intro y hx hy h
    cases y with
    | dictionary fs =>
      rw [keyed_dictionary] at hx hy
      obtain ⟨length, within⟩ := same_dictionary_iff.mp h
      -- Keys that differ have different partners, so no entry of the other dictionary is left over.
      have distinct : es.Pairwise fun e e' => ∀ f, f ∈ fs ∧ SameEntry e f →
          ¬ (f ∈ fs ∧ SameEntry e' f) := by
        refine (List.pairwise_map.mp hx.2).imp_of_mem fun he he' hd f hf hf' => ?_
        exact partners_differ (hr _ he).1 (hr _ he').1 (hx.1 _ he').1 (hy.1 f hf.1).1 hd
          hf.2 hf'.2
      have partners := exists_partner (Nat.le_of_eq length.symm)
        (fun e he => (within e he).imp fun f hf => ⟨hf.1, hf⟩) distinct
      refine same_dictionary_iff.mpr ⟨length.symm, fun f hf => ?_⟩
      obtain ⟨e, he, -, hs⟩ := partners f hf
      exact ⟨e, he, (hr e he).1.symm _ (hx.1 e he).1 (hy.1 f hf).1 hs.1,
        (hr e he).2.symm _ (hx.1 e he).2 (hy.1 f hf).2 hs.2⟩
    | _ => cases h
  · intro y z h k
    cases y with
    | dictionary fs =>
      cases z with
      | dictionary gs =>
        obtain ⟨length, within⟩ := same_dictionary_iff.mp h
        obtain ⟨length', within'⟩ := same_dictionary_iff.mp k
        refine same_dictionary_iff.mpr ⟨length.trans length', fun e he => ?_⟩
        obtain ⟨f, hf, hs⟩ := within e he
        obtain ⟨g, hg, hs'⟩ := within' f hf
        exact ⟨g, hg, (hr e he).1.trans _ _ hs.1 hs'.1, (hr e he).2.trans _ _ hs.2 hs'.2⟩
      | _ => cases k
    | _ => cases h

end Variant

namespace Callable

theorem regular_bound {target : Callable} {extra : List Variant} {placement : Placement}
    (ht : target.Regular) (he : ∀ v ∈ extra, v.Regular) :
    (bound target extra placement).Regular := by
  constructor
  · intro d hc hd h
    cases d with
    | bound target' extra' placement' =>
      rw [Variant.keyed_bound] at hc hd
      simp only [same, Bool.and_eq_true, Variant.sameItems_iff, beq_iff_eq] at h ⊢
      obtain ⟨⟨h₁, h₂⟩, rfl⟩ := h
      exact ⟨⟨ht.symm _ hc.1 hd.1 h₁, Variant.symm_items he hc.2 hd.2 h₂⟩, rfl⟩
    | _ => cases h
  · intro d e h k
    cases d with
    | bound target' extra' placement' =>
      cases e with
      | bound target'' extra'' placement'' =>
        simp only [same, Bool.and_eq_true, Variant.sameItems_iff, beq_iff_eq] at h k ⊢
        obtain ⟨⟨h₁, h₂⟩, rfl⟩ := h
        obtain ⟨⟨k₁, k₂⟩, rfl⟩ := k
        exact ⟨⟨ht.trans _ _ h₁ k₁, Variant.trans_items he h₂ k₂⟩, rfl⟩
      | _ => cases k
    | _ => cases h

/-- It is enough that a callable equals the same ones as those it is equal to. -/
theorem regular_of_alike {c : Callable} (h : ∀ d, c.same d = true →
    d.same c = true ∧ ∀ e, d.same e = c.same e) : c.Regular :=
  ⟨fun d _ _ hd => (h d hd).1, fun d e hd he => (h d hd).2 e ▸ he⟩

theorem regular_method (o : ObjectId) (name : String) : (method o name).Regular := by
  refine regular_of_alike fun d h => ?_
  cases d with
  | method o' name' =>
    simp only [same, Bool.and_eq_true, beq_iff_eq] at h
    obtain ⟨rfl, rfl⟩ := h
    exact ⟨by simp [same], fun _ => rfl⟩
  | _ => cases h

theorem regular_native (f : Native) : (native f).Regular := by
  refine regular_of_alike fun d h => ?_
  cases d with
  | native g =>
    have key : f.key = g.key := by simpa [same] using h
    refine ⟨by simp [same, key], fun e => ?_⟩
    cases e with
    | native g' => simp [same, key]
    | _ => rfl
  | _ => cases h

theorem regular_script (f : ScriptFunction) : (script f).Regular := by
  refine regular_of_alike fun d h => ?_
  cases d with
  | script g =>
    obtain rfl : f = g := by simpa [same] using h
    exact ⟨by simp [same], fun _ => rfl⟩
  | _ => cases h

end Callable

namespace Variant

theorem regular_callable {c : Callable} (hc : c.Regular) : (callable c).Regular := by
  constructor
  · intro y hx hy h
    cases y with
    | callable d => exact hc.symm d hx hy h
    | _ => cases h
  · intro y z h k
    cases y with
    | callable d =>
      cases z with
      | callable e => exact hc.trans d e h k
      | _ => cases k
    | _ => cases h

theorem regular (v : Variant) : v.Regular := by
  induction v using wholeInduction (motive_2 := Callable.Regular) with
  | atom v hv => exact regular_atom hv
  | array items ih => exact regular_array ih
  | dictionary es ih => exact regular_dictionary ih
  | ofCallable c ih => exact regular_callable ih
  | method o name => exact Callable.regular_method o name
  | native f => exact Callable.regular_native f
  | script f => exact Callable.regular_script f
  | bound target extra placement ht he => exact Callable.regular_bound ht he

theorem same_comm {x y : Variant} (hx : x.Keyed) (hy : y.Keyed) : x.same y = y.same x :=
  Bool.eq_iff_iff.mpr ⟨x.regular.symm y hx hy, y.regular.symm x hy hx⟩

/-! ### Reading and writing by key -/

variable {es : List (Variant × Variant)} {key value : Variant}

theorem lookup_of_mem (hd : (es.map (·.1)).Pairwise Differs) {e : Variant × Variant}
    (he : e ∈ es) (hs : e.1.same e.1 = true) : lookup es e.1 = some e.2 := by
  induction es with
  | nil => cases he
  | cons x rest ih =>
    rw [List.map_cons, List.pairwise_cons] at hd
    rcases List.mem_cons.mp he with rfl | he
    · simp only [lookup, List.find?_cons, hs, Option.map_some]
    · have differs := hd.1 e.1 (List.mem_map_of_mem he)
      simp only [lookup, List.find?_cons, differs.1]
      exact ih hd.2 he

theorem insertEntry_of_known (h : ∃ e ∈ es, e.1.same key = true) :
    (insertEntry key value es).map (·.1) = es.map (·.1) := by
  induction es with
  | nil => simp at h
  | cons x rest ih =>
    rw [insertEntry]
    split
    · rfl
    next hx =>
      rw [List.map_cons, ih ((List.exists_mem_cons_iff ..).mp h |>.resolve_left hx), List.map_cons]

theorem insertEntry_of_new (h : ∀ e ∈ es, e.1.same key = false) :
    insertEntry key value es = es ++ [(key, value)] := by
  induction es with
  | nil => rfl
  | cons x rest ih =>
    rw [List.forall_mem_cons] at h
    rw [insertEntry, if_neg (Bool.eq_false_iff.mp h.1), ih h.2, List.cons_append]

theorem mem_insertEntry {e : Variant × Variant} (he : e ∈ insertEntry key value es) :
    e.2 = value ∧ (e.1 = key ∨ ∃ x ∈ es, e.1 = x.1) ∨ e ∈ es := by
  induction es with
  | nil =>
    obtain rfl := List.mem_singleton.mp he
    exact .inl ⟨rfl, .inl rfl⟩
  | cons x rest ih =>
    rw [insertEntry] at he
    split at he
    · rcases List.mem_cons.mp he with rfl | he
      · exact .inl ⟨rfl, .inr ⟨x, List.mem_cons_self, rfl⟩⟩
      · exact .inr (List.mem_cons_of_mem _ he)
    · rcases List.mem_cons.mp he with rfl | he
      · exact .inr List.mem_cons_self
      · rcases ih he with ⟨hv, hk | ⟨x, hx, hk⟩⟩ | he
        · exact .inl ⟨hv, .inl hk⟩
        · exact .inl ⟨hv, .inr ⟨x, List.mem_cons_of_mem _ hx, hk⟩⟩
        · exact .inr (List.mem_cons_of_mem _ he)

/-- A new key differs from all that are there, and a known one adds none. -/
theorem pairwise_insertEntry (hes : ∀ e ∈ es, e.1.Keyed)
    (differ : (es.map (·.1)).Pairwise Differs) (key_keyed : key.Keyed) :
    ((insertEntry key value es).map (·.1)).Pairwise Differs := by
  by_cases known : ∃ e ∈ es, e.1.same key = true
  · rw [insertEntry_of_known known]
    exact differ
  · have new : ∀ e ∈ es, e.1.same key = false := by simpa using known
    rw [insertEntry_of_new new, List.map_append, List.pairwise_append]
    refine ⟨differ, List.pairwise_singleton _ _, fun k hm l hl => ?_⟩
    obtain ⟨e, he, rfl⟩ := List.mem_map.mp hm
    obtain rfl := List.mem_singleton.mp hl
    exact ⟨new e he, same_comm key_keyed (hes e he) ▸ new e he⟩

theorem differs_insertEntry (hk : (dictionary es).Keyed) (key_keyed : key.Keyed) :
    ((insertEntry key value es).map (·.1)).Pairwise Differs :=
  have ⟨keyed, differ⟩ := keyed_dictionary.mp hk
  pairwise_insertEntry (fun e he => (keyed e he).1) differ key_keyed

theorem keyed_insertEntry (hk : (dictionary es).Keyed) (key_keyed : key.Keyed)
    (value_keyed : value.Keyed) : (dictionary (insertEntry key value es)).Keyed := by
  refine keyed_dictionary.mpr ⟨fun e he => ?_, differs_insertEntry hk key_keyed⟩
  rw [keyed_dictionary] at hk
  rcases mem_insertEntry he with ⟨hv, hkey | ⟨x, hx, hkey⟩⟩ | he
  · exact ⟨hkey ▸ key_keyed, hv ▸ value_keyed⟩
  · exact ⟨hkey ▸ (hk.1 x hx).1, hv ▸ value_keyed⟩
  · exact hk.1 e he

end Variant

end ScriptHost
