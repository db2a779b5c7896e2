import ScriptHost.Proofs.Codec.Stability
import ScriptHost.Proofs.Machine.Ownership
import ScriptHost.Proofs.Variant.Equality

/-! Keys of tables as keys of dictionaries. Keys of a table are different from each other, but two
boxes, two tables or two strings may be read as equal values, and the dictionary then has an entry
for each. Where none do so its keys are distinct, at every depth. -/

namespace ScriptHost

/-! ### Equal scalars -/

/-- Both zeros are equal to an integer. -/
theorem Number.Uneven.eq_of_beq {x y : Float} (hx : Number.Uneven x) (h : (x == y) = true) :
    x = y := by
  obtain ⟨-, -, rfl | ⟨rfl, -⟩ | ⟨rfl, -⟩⟩ := Float.beq_iff_ne_nan_and_eq.mp h
  · rfl
  · exact absurd hx.2 (by decide +kernel)
  · exact absurd hx.2 (by decide +kernel)

namespace Variant

variable {v w : Variant}

/-- Values that are equal become script values of one sort. -/
theorem sort_of_same (h : v.same w = true) :
    v.isScalar = w.isScalar ∧ v.isBoxed = w.isBoxed := by
  cases v with
  | callable c => cases w with
    | callable d => cases c <;> cases d <;> first | exact ⟨rfl, rfl⟩ | cases h
    | _ => cases h
  | _ => cases w <;> first | exact ⟨rfl, rfl⟩ | cases h

theorem eq_of_same (hv : v.isScalar = true) (hf : ∀ x, v = float x → Number.Uneven x)
    (h : v.same w = true) : v = w := by
  cases v with
  | nil => cases w <;> first | rfl | cases h
  | bool b => cases w <;> first | exact congrArg bool (eq_of_beq h) | cases h
  | int n => cases w <;> first | exact congrArg int (eq_of_beq h) | cases h
  | string s => cases w <;> first | exact congrArg string (eq_of_beq h) | cases h
  | float x => cases w with
    | float y => exact congrArg float ((hf x rfl).eq_of_beq h)
    | _ => cases h
  | callable c => cases w with
    | callable d => cases c with
      | script f => cases d with
        | script g => exact congrArg (fun f => callable (.script f)) (eq_of_beq h)
        | _ => cases h
      | _ => cases hv
    | _ => cases h
  | _ => cases hv

end Variant

/-! ### Keys that read alike -/

/-- Two keys that may be read as equal values: boxes, tables, or strings of which one is no
text. -/
inductive Key.Confusable : Key → Key → Prop
  | boxes (i j : Nat) : Confusable (.box i) (.box j)
  | tables (i j : Nat) : Confusable (.table i) (.table j)
  | strings {b c : ByteArray} : ¬ ((∃ s : String, b = s.toUTF8) ∧ ∃ s : String, c = s.toUTF8) →
    Confusable (.string b) (.string c)

namespace Heap

variable {owner : Nat} {h : Heap} {depth id : Nat} {k l : Key} {v w : Variant}

/-- What is no scalar comes out of a box or a table. -/
theorem exists_box_or_table {x : Value} (hv : decodeTo true owner h depth x = .ok v)
    (hs : v.isScalar = false) :
    (v.isBoxed = true ∧ ∃ i, x = .box i ∧ h.boxed? i = some v) ∨
      (v.isBoxed = false ∧ ∃ i, x = .table i) := by
  cases x with
  | table i =>
    refine .inr ⟨?_, i, rfl⟩
    cases depth with
    | zero => cases hv
    | succ depth =>
      rcases decodeTo_table_eq_ok.mp hv with ⟨_, _, -, rfl, -⟩ | ⟨_, -, rfl, -⟩ <;> rfl
  | box i =>
    rw [decodeTo] at hv
    cases hb : h.boxed? i with
    | none =>
      rw [hb] at hv
      cases hv
    | some w =>
      rw [hb] at hv
      obtain rfl := Except.ok.inj hv
      exact .inl ⟨isBoxed_of_boxed? hb, i, rfl, hb⟩
  | thread | stream | fault =>
    simp only [decodeTo, unsupported, if_true] at hv
    cases hv
  | _ =>
    rw [decodeTo] at hv
    cases hv
    cases hs

theorem isString_of_not_legible (hk : k.toValue.OwnedBy owner) (hl : ¬ k.toValue.Legible owner) :
    ∃ b : ByteArray, k = .string b ∧ ¬ ∃ s : String, b = s.toUTF8 := by
  cases k with
  | string b => exact ⟨b, rfl, hl⟩
  | function f => exact absurd hk hl
  | _ => exact absurd trivial hl

theorem exists_string {s : String} (hk : k.toValue.OwnedBy owner)
    (hv : decodeTo true owner h depth k.toValue = .ok (.string s)) : ∃ b, k = .string b := by
  by_cases hl : k.toValue.Legible owner
  · have plain := eq_plain_of_strict hv rfl hl
    cases k with
    | string b => exact ⟨b, rfl⟩
    | _ => cases plain
  · obtain ⟨b, rfl, -⟩ := isString_of_not_legible hk hl
    exact ⟨b, rfl⟩

/-- A string is read as a string only, whether or not it is text. -/
theorem exists_strings (hk : k.toValue.OwnedBy owner) (hl : l.toValue.OwnedBy owner)
    (hn : ¬ (k.toValue.Legible owner ∧ l.toValue.Legible owner))
    (hv : decodeTo true owner h depth k.toValue = .ok v)
    (hw : decodeTo true owner h depth l.toValue = .ok w) (hs : v.same w = true) :
    (∃ b, k = .string b) ∧ ∃ c, l = .string c := by
  rcases Classical.not_and_iff_not_or_not.mp hn with hn | hn
  · obtain ⟨b, rfl, -⟩ := isString_of_not_legible hk hn
    rw [Key.toValue, decodeTo] at hv
    cases hv
    cases w with
    | string s => exact ⟨⟨b, rfl⟩, exists_string hl hw⟩
    | _ => cases hs
  · obtain ⟨c, rfl, -⟩ := isString_of_not_legible hl hn
    rw [Key.toValue, decodeTo] at hw
    cases hw
    cases v with
    | string s => exact ⟨exists_string hk hv, ⟨c, rfl⟩⟩
    | _ => cases hs

/-- Nothing else than boxes, tables and strings is read alike. -/
theorem confusable_of_same (hk : k.toValue.OwnedBy owner) (hl : l.toValue.OwnedBy owner)
    (hn : k ≠ l) (hv : decodeTo true owner h depth k.toValue = .ok v)
    (hw : decodeTo true owner h depth l.toValue = .ok w) (hs : v.same w = true) :
    k.Confusable l := by
  by_cases scalar : v.isScalar = true
  · by_cases legible : k.toValue.Legible owner ∧ l.toValue.Legible owner
    · obtain rfl := Variant.eq_of_same scalar (isKey_of_strict hv legible.1).2 hs
      exact absurd (key_eq_of_strict legible.1 legible.2 scalar hv hw) hn
    · obtain ⟨⟨b, rfl⟩, c, rfl⟩ := exists_strings hk hl legible hv hw hs
      exact .strings legible
  · have sort := (Variant.sort_of_same hs).2
    rw [Bool.not_eq_true] at scalar
    rcases exists_box_or_table hv scalar with ⟨hb, i, hi, -⟩ | ⟨hb, i, hi⟩ <;>
      rcases exists_box_or_table hw ((Variant.sort_of_same hs).1 ▸ scalar) with
        ⟨hc, j, hj, -⟩ | ⟨hc, j, hj⟩
    · obtain rfl : k = .box i := Key.toValue_inj hi
      obtain rfl : l = .box j := Key.toValue_inj hj
      exact .boxes i j
    · rw [hb, hc] at sort
      cases sort
    · rw [hb, hc] at sort
      cases sort
    · obtain rfl : k = .table i := Key.toValue_inj hi
      obtain rfl : l = .table j := Key.toValue_inj hj
      exact .tables i j

/-! ### Distinct keys -/

theorem decodeTo_of_not_table {x : Value} (hx : ∀ id, x ≠ .table id) (m n : Nat) :
    decodeTo true owner h m x = decodeTo true owner h n x := by
  cases x with
  | table id => exact absurd rfl (hx id)
  | _ => simp only [decodeTo]

/-- What can be read with few levels is read as the same with more. -/
theorem decodeTo_of_le {x : Value} {n : Nat} (hw : decodeTo true owner h depth x = .ok w)
    (hn : depth ≤ n) : decodeTo true owner h n x = .ok w := by
  induction depth generalizing x w n with
  | zero =>
    have ht : ∀ id, x ≠ .table id := by
      rintro id rfl
      cases hw
    rwa [decodeTo_of_not_table ht n 0]
  | succ depth ih =>
    by_cases ht : ∃ id, x = .table id
    · obtain ⟨id, rfl⟩ := ht
      cases n with
      | zero => cases hn
      | succ n =>
        have hn := Nat.le_of_succ_le_succ hn
        rw [decodeTo_table_eq_ok] at hw ⊢
        rcases hw with ⟨items, ws, hs, rfl, hws⟩ | ⟨ws, hs, rfl, hws⟩
        · exact .inl ⟨items, ws, hs, rfl, hws.imp fun _ _ hx => ih hx hn⟩
        · exact .inr ⟨ws, hs, rfl, hws.imp fun _ _ hx => ⟨ih hx.1 hn, ih hx.2 hn⟩⟩
    · rwa [decodeTo_of_not_table (fun id hi => ht ⟨id, hi⟩) n (depth + 1)]

/-- Different keys of the table are read as different values. -/
def TellsKeys (owner : Nat) (h : Heap) (id : Nat) : Prop :=
  ∀ k ∈ (h.table id).entries.map (·.1), ∀ l ∈ (h.table id).entries.map (·.1), k ≠ l →
    k.Confusable l → ∀ v w, h.decodeStrict owner k.toValue = .ok v →
      h.decodeStrict owner l.toValue = .ok w → v.same w = false

/-- The tables in the value tell their keys, and so do the dictionaries in its boxes. -/
structure Discerned (owner : Nat) (h : Heap) (x : Value) : Prop where
  tables : ∀ n id, h.Visits n x (.table id) → h.TellsKeys owner id
  boxes : ∀ n id v, h.Visits n x (.box id) → h.boxed? id = some v → v.Keyed

theorem Discerned.part {x : Value} (hd : h.Discerned owner (.table id)) (hx : x ∈ h.parts id) :
    h.Discerned owner x where
  tables _ _ hv := hd.tables _ _ (.part hx hv)
  boxes _ _ _ hv := hd.boxes _ _ _ (.part hx hv)

theorem mem_parts {e : Key × Value} (hs : (h.table id).slots? = none)
    (he : e ∈ (h.table id).entries) : e.1.toValue ∈ h.parts id ∧ e.2 ∈ h.parts id := by
  rw [parts, hs]
  constructor <;> exact List.mem_flatMap.mpr ⟨e, he, by simp⟩

theorem keyed_of_isScalar (hv : v.isScalar = true) : v.Keyed := by
  cases v with
  | callable c =>
    cases c with
    | script f => trivial
    | _ => cases hv
  | array | dictionary => cases hv
  | _ => trivial

theorem differs_of_tellsKeys (ho : (h.table id).OwnedBy owner) (ht : h.TellsKeys owner id)
    {e f : Key × Value} (he : e ∈ (h.table id).entries) (hf : f ∈ (h.table id).entries)
    (hn : e.1 ≠ f.1) (hd : depth ≤ depthLimit)
    (hv : decodeTo true owner h depth e.1.toValue = .ok v)
    (hw : decodeTo true owner h depth f.1.toValue = .ok w) : v.same w = false := by
  by_contra hs
  rw [Bool.not_eq_false] at hs
  have confusable := confusable_of_same (ho e he).1 (ho f hf).1 hn hv hw hs
  have apart := ht _ (List.mem_map_of_mem he) _ (List.mem_map_of_mem hf) hn confusable v w
    (decodeTo_of_le hv hd) (decodeTo_of_le hw hd)
  rw [apart] at hs
  cases hs

theorem keyed_of_strict (ho : h.OwnedBy owner) {x : Value} (hd : depth ≤ depthLimit)
    (hx : h.Discerned owner x) (hw : decodeTo true owner h depth x = .ok w) : w.Keyed := by
  induction depth, x using readingInduction generalizing w with
  | shallow depth x ht =>
    by_cases hs : w.isScalar = true
    · exact keyed_of_isScalar hs
    · rw [Bool.not_eq_true] at hs
      rcases exists_box_or_table hw hs with ⟨-, i, rfl, hb⟩ | ⟨-, i, rfl⟩
      · exact hx.boxes 0 i w (.here _) hb
      · obtain rfl := ht i rfl
        cases hw
  | table depth id ih =>
    have hd' := Nat.le_of_succ_le hd
    rcases decodeTo_table_eq_ok.mp hw with ⟨items, ws, hs, rfl, hws⟩ | ⟨ws, hs, rfl, hws⟩
    · refine Variant.keyed_array.mpr fun v hv => ?_
      obtain ⟨x, hm, hxv⟩ := exists_of_mem_left hws.flip hv
      exact ih x hd' (hx.part (by rwa [parts, hs])) hxv
    · refine Variant.keyed_dictionary.mpr ⟨fun f hf => ?_, ?_⟩
      · obtain ⟨e, hm, hk, hv⟩ := exists_of_mem_left hws.flip hf
        have parts := mem_parts hs hm
        exact ⟨ih _ hd' (hx.part parts.1) hk, ih _ hd' (hx.part parts.2) hv⟩
      · have tells := hx.tables 0 id (.here _)
        have owned := ho.table id
        -- Each of two keys is a key of the table.
        have keys := List.Pairwise.and_mem.mp (List.pairwise_map.mp (h.table id).proper.distinct)
        refine List.pairwise_map.mpr (pairwise_of_forall₂ hws keys fun he hf hk => ?_)
        obtain ⟨hm, hm', hn⟩ := hk
        exact ⟨differs_of_tellsKeys owned tells hm hm' hn hd' he.1 hf.1,
          differs_of_tellsKeys owned tells hm' hm hn.symm hd' hf.1 he.1⟩

/-- A table that is read as a dictionary makes one entry of each of its own. Only boxes, tables and
strings of which one is no text can be read as equal keys of it. Where those in a value are not, no
two keys of a dictionary in it are equal. A dictionary without equal keys has each entry reached by
its key, if that equals itself, and a write to it leaves its keys distinct. -/
theorem keys_stay_unique {owner : Nat} {h : Heap} (ho : h.OwnedBy owner) :
    (∀ strict depth id es, decodeTo strict owner h (depth + 1) (.table id) = .ok (.dictionary es) →
      List.Forall₂ (fun e f => decodeTo strict owner h depth e.1.toValue = .ok f.1 ∧
        decodeTo strict owner h depth e.2 = .ok f.2) (h.table id).entries es) ∧
    (∀ id, ∀ e ∈ (h.table id).entries, ∀ f ∈ (h.table id).entries, e.1 ≠ f.1 → ∀ v w : Variant,
      h.decodeStrict owner e.1.toValue = .ok v → h.decodeStrict owner f.1.toValue = .ok w →
        v.same w = true → e.1.Confusable f.1) ∧
    (∀ x v, h.decodeStrict owner x = .ok v → h.Discerned owner x → v.Keyed) ∧
    ∀ es, (Variant.dictionary es).Keyed →
      (∀ e ∈ es, e.1.same e.1 = true → (Variant.dictionary es).get e.1 = e.2) ∧
      ∀ key value : Variant, key.Keyed → ∃ fs,
        (Variant.dictionary es).set? key value = some (.dictionary fs) ∧
          (fs.map (·.1)).Pairwise Variant.Differs ∧
          (value.Keyed → (Variant.dictionary fs).Keyed) := by
  refine ⟨fun strict depth id es hd => ?_, fun id e he f hf hn v w hv hw hs => ?_,
    fun x v hv hx => ?_, fun es hk => ⟨?_, ?_⟩⟩
  · rcases decodeTo_table_eq_ok.mp hd with ⟨_, _, -, hw, -⟩ | ⟨ws, -, hw, hws⟩
    · cases hw
    · cases hw
      exact hws
  · have owned := ho.table id
    exact confusable_of_same (owned e he).1 (owned f hf).1 hn hv hw hs
  · exact keyed_of_strict ho (Nat.le_refl _) hx hv
  · intro e he hs
    have found := Variant.lookup_of_mem (Variant.keyed_dictionary.mp hk).2 he hs
    rw [Variant.get, found, Variant.ofOption, Option.getD_some]
  · intro key value key_keyed
    exact ⟨_, rfl, Variant.differs_insertEntry hk key_keyed,
      Variant.keyed_insertEntry hk key_keyed⟩

/-- A table with two boxes for keys. -/
def boxKeys (b c : Boxed) : Heap :=
  let t := (Table.empty.set (.box 0) (.int 1)).set (.box 1) (.int 2)
  (((initial.newBox b).2.newBox c).2.newTable t).2

variable {b c : Boxed}

theorem decodeStrict_boxKeys : (boxKeys b c).decodeStrict 0 (.table 3) =
    .ok (.dictionary [(b.value, .int 1), (c.value, .int 2)]) := rfl

theorem ownedBy_boxKeys : (boxKeys b c).OwnedBy 0 := by
  refine ((OwnedBy.initial.newBox b).newBox c).newTable (.set (.set .empty ?_ ?_) ?_ ?_) <;>
    trivial

theorem visits_boxKeys {n : Nat} {x : Value} (hx : (boxKeys b c).Visits n (.table 3) x) :
    x = .table 3 ∨ x = .box 0 ∨ x = .int 1 ∨ x = .box 1 ∨ x = .int 2 := by
  cases hx with
  | here => exact .inl rfl
  | part hp hx =>
    have parts : (boxKeys b c).parts 3 = [.box 0, .int 1, .box 1, .int 2] := rfl
    rw [parts] at hp
    simp only [List.mem_cons, List.not_mem_nil, or_false] at hp
    rcases hp with rfl | rfl | rfl | rfl <;> cases hx <;> simp

/-- Boxes with different values are told apart. -/
theorem discerned_boxKeys (hd : b.value.Differs c.value) (hb : b.value.Keyed) (hc : c.value.Keyed) :
    (boxKeys b c).Discerned 0 (.table 3) where
  tables n id hx := by
    obtain rfl : id = 3 := by simpa using visits_boxKeys hx
    have keys : ((boxKeys b c).table 3).entries.map (·.1) = [.box 0, .box 1] := rfl
    intro k hk l hl hn _ v w hv hw
    rw [keys] at hk hl
    simp only [List.mem_cons, List.not_mem_nil, or_false] at hk hl
    rcases hk with rfl | rfl <;> rcases hl with rfl | rfl
    · exact absurd rfl hn
    · cases hv
      cases hw
      exact hd.1
    · cases hv
      cases hw
      exact hd.2
    · exact absurd rfl hn
  boxes n id v hx hv := by
    obtain rfl | rfl : id = 0 ∨ id = 1 := by simpa using visits_boxKeys hx
    · cases hv
      exact hb
    · cases hv
      exact hc

/-- Boxes of two vectors: both values are reached, and a third can be added. -/
theorem keys_stay_unique_vectors :
    ((boxKeys ⟨.vector2 ⟨1, 2⟩, rfl⟩ ⟨.vector2 ⟨3, 4⟩, rfl⟩).OwnedBy 0 ∧
      (boxKeys ⟨.vector2 ⟨1, 2⟩, rfl⟩ ⟨.vector2 ⟨3, 4⟩, rfl⟩).Discerned 0 (.table 3)) ∧
    let h := boxKeys ⟨.vector2 ⟨1, 2⟩, rfl⟩ ⟨.vector2 ⟨3, 4⟩, rfl⟩
    let es : List (Variant × Variant) := [(.vector2 ⟨1, 2⟩, .int 1), (.vector2 ⟨3, 4⟩, .int 2)]
    (h.table 3).entries.length = es.length ∧ (Variant.dictionary es).Keyed ∧
      (Variant.dictionary es).get (.vector2 ⟨3, 4⟩) = .int 2 ∧
      ∃ fs, (Variant.dictionary es).set? (.vector2 ⟨5, 6⟩) (.int 3) = some (.dictionary fs) ∧
        (Variant.dictionary fs).Keyed := by
  have owned := ownedBy_boxKeys (b := ⟨.vector2 ⟨1, 2⟩, rfl⟩) (c := ⟨.vector2 ⟨3, 4⟩, rfl⟩)
  have discerned := discerned_boxKeys (b := ⟨.vector2 ⟨1, 2⟩, rfl⟩)
    (c := ⟨.vector2 ⟨3, 4⟩, rfl⟩) (by decide) trivial trivial
  obtain ⟨each, -, keyed, reached⟩ := keys_stay_unique owned
  have length := (each true 127 3 _ decodeStrict_boxKeys).length_eq
  have dictionary_keyed := keyed _ _ decodeStrict_boxKeys discerned
  obtain ⟨get, set⟩ := reached _ dictionary_keyed
  obtain ⟨fs, hs, -, hk⟩ := set (.vector2 ⟨5, 6⟩) (.int 3) trivial
  exact ⟨⟨owned, discerned⟩, length, dictionary_keyed,
    get (.vector2 ⟨3, 4⟩, .int 2) (by simp) (by decide), fs, hs, hk trivial⟩

/-- Two boxes of one vector are different keys of a table. Read from there, they make two entries
with equal keys, of which the second is out of reach. -/
theorem equal_boxes_make_equal_keys :
    ∃ es, (boxKeys ⟨.vector2 ⟨1, 2⟩, rfl⟩ ⟨.vector2 ⟨1, 2⟩, rfl⟩).decodeStrict 0 (.table 3) =
        .ok (.dictionary es) ∧
      (es.map (·.1)).Pairwise (fun k l => k.same l = true) ∧ es.length = 2 ∧
      (.vector2 ⟨1, 2⟩, .int 2) ∈ es ∧
      (Variant.dictionary es).get (.vector2 ⟨1, 2⟩) = .int 1 := by
  refine ⟨_, decodeStrict_boxKeys, ?_, rfl, List.mem_cons_of_mem _ List.mem_cons_self, by rfl⟩
  exact List.pairwise_pair.mpr (by decide)

end Heap

end ScriptHost
