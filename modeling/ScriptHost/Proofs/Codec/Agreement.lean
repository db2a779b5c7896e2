import Mathlib.Logic.Relation
import ScriptHost.Proofs.Codec.Reading
import ScriptHost.Proofs.Variant.Containers

/-! The strict and the lenient way to read a value. Where the strict one succeeds they
agree; it fails exactly if one of the values on the way, keys among them, is replaced by
nil in the lenient one. A cycle of tables leads beyond every depth, so that it is always
refused. -/

namespace ScriptHost.Heap

variable {strict : Bool} {owner : Nat} {h : Heap} {depth : Nat}

/-- What has no host counterpart where tables are read for `depth` more levels. -/
def Unreadable (h : Heap) (depth : Nat) : Value → Prop
  | .thread _ | .stream _ | .fault _ _ => True
  | .box id => h.boxed? id = none
  | .table _ => depth = 0
  | _ => False

theorem isBoxed_of_boxed? {id : Nat} {v : Variant} (hv : h.boxed? id = some v) :
    v.isBoxed = true := by
  obtain ⟨b, -, rfl⟩ := Option.map_eq_some_iff.mp hv
  exact b.isBoxed

/-- What is read without looking into a table. -/
theorem decodeTo_shallow (owner : Nat) {v : Value} (hv : ∀ id, v = .table id → depth = 0) :
    (h.Unreadable depth v ∧
      ∃ what, ∀ strict, decodeTo strict owner h depth v = unsupported strict what) ∨
    (¬ h.Unreadable depth v ∧ ∃ w : Variant, w.isLeaf = true ∧ (w = .nil ↔ v = .nil) ∧
      ∀ strict, decodeTo strict owner h depth v = .ok w) := by
  cases v with
  | thread | stream | fault => exact .inl ⟨trivial, _, fun _ => decodeTo.eq_def ..⟩
  | table id =>
    obtain rfl := hv id rfl
    exact .inl ⟨rfl, _, fun _ => decodeTo.eq_def ..⟩
  | box id =>
    cases hb : h.boxed? id with
    | none => exact .inl ⟨hb, "userdata", fun _ => by rw [decodeTo, hb]⟩
    | some w =>
      have hw := isBoxed_of_boxed? hb
      refine .inr ⟨by simp [Unreadable, hb], w, Variant.isLeaf_of_isBoxed hw, ?_, fun _ => by
        rw [decodeTo, hb]⟩
      constructor
      · rintro rfl
        cases hw
      · rintro ⟨⟩
  | _ =>
    refine .inr ⟨id, _, ?_, ?_, fun _ => decodeTo.eq_def ..⟩
    · rfl
    · simp

/-- Reading looks at a value alone, or at the parts of a table with one level less. -/
theorem readingInduction {motive : Nat → Value → Prop}
    (shallow : ∀ depth v, (∀ id, v = .table id → depth = 0) → motive depth v)
    (table : ∀ depth id, (∀ x, motive depth x) → motive (depth + 1) (.table id))
    (depth : Nat) (v : Value) : motive depth v := by
  induction depth generalizing v with
  | zero => exact shallow 0 v fun _ _ => rfl
  | succ depth ih =>
    cases v with
    | table id => exact table depth id ih
    | _ => exact shallow _ _ fun _ hv => nomatch hv

/-! ### Both modes -/

theorem exists_decodeTo_false (owner : Nat) (h : Heap) (depth : Nat) (v : Value) :
    ∃ w, decodeTo false owner h depth v = .ok w := by
  induction depth, v using readingInduction with
  | shallow depth v hv =>
    rcases decodeTo_shallow owner (h := h) hv with ⟨-, _, hd⟩ | ⟨-, w, -, -, hd⟩
    · exact ⟨.nil, hd false⟩
    · exact ⟨w, hd false⟩
  | table depth id ih =>
    cases ht : decodeTo false owner h (depth + 1) (.table id) with
    | ok w => exact ⟨w, rfl⟩
    | error r =>
      obtain ⟨x, -, hx⟩ := decodeTo_table_eq_error ht
      obtain ⟨w, hw⟩ := ih x
      rw [hw] at hx
      cases hx

/-- The lenient reading never fails. -/
theorem decodeTo_false (owner : Nat) (h : Heap) (v : Value) :
    decodeTo false owner h depthLimit v = .ok (h.decode owner v) := by
  obtain ⟨w, hw⟩ := exists_decodeTo_false owner h depthLimit v
  rw [hw, decode, hw]

/-- What the strict reading gives, the lenient one gives, too. -/
theorem decodeTo_false_of_true {v : Value} {w : Variant}
    (hw : decodeTo true owner h depth v = .ok w) : decodeTo false owner h depth v = .ok w := by
  induction depth, v using readingInduction generalizing w with
  | shallow depth v hv =>
    rcases decodeTo_shallow owner (h := h) hv with ⟨-, _, hd⟩ | ⟨-, _, -, -, hd⟩
    · rw [hd] at hw
      cases hw
    · rwa [hd] at hw ⊢
  | table depth id ih =>
    rw [decodeTo_table_eq_ok] at hw ⊢
    rcases hw with ⟨items, ws, hs, rfl, hws⟩ | ⟨ws, hs, rfl, hws⟩
    · exact .inl ⟨items, ws, hs, rfl, hws.imp fun _ _ hx => ih _ hx⟩
    · exact .inr ⟨ws, hs, rfl, hws.imp fun _ _ hx => ⟨ih _ hx.1, ih _ hx.2⟩⟩

theorem decode_eq_of_strict {v : Value} {w : Variant} (hw : h.decodeStrict owner v = .ok w) :
    h.decode owner v = w := by
  have hl := decodeTo_false owner h v
  rw [decodeTo_false_of_true hw] at hl
  exact (Except.ok.inj hl).symm

/-- What is read nests no deeper than it was looked into. -/
theorem levels_le_of_decodeTo {v : Value} {w : Variant}
    (hw : decodeTo strict owner h depth v = .ok w) : w.levels ≤ depth := by
  induction depth, v using readingInduction generalizing w with
  | shallow depth v hv =>
    have hl : w.isLeaf = true := by
      rcases decodeTo_shallow owner (h := h) hv with ⟨-, _, hd⟩ | ⟨-, _, hl, -, hd⟩
      · rw [hd, unsupported] at hw
        split at hw <;> cases hw
        rfl
      · rw [hd] at hw
        exact Except.ok.inj hw ▸ hl
    rw [Variant.levels_leaf hl]
    exact Nat.zero_le _
  | table depth id ih =>
    rcases decodeTo_table_eq_ok.mp hw with ⟨items, ws, -, rfl, hws⟩ | ⟨ws, -, rfl, hws⟩
    · refine Variant.levels_array_le.mpr fun y hy => ?_
      obtain ⟨x, -, hx⟩ := exists_of_mem_left hws.flip hy
      exact ih x hx
    · refine Variant.levels_dictionary_le.mpr fun f hf => ?_
      obtain ⟨e, -, hk, hv⟩ := exists_of_mem_left hws.flip hf
      exact ⟨ih _ hk, ih _ hv⟩

theorem kind_of_decodeTo {v : Value} {r : Refusal}
    (hr : decodeTo strict owner h depth v = .error r) : r.kind = .conversion := by
  induction depth, v using readingInduction with
  | shallow depth v hv =>
    rcases decodeTo_shallow owner (h := h) hv with ⟨-, what, hd⟩ | ⟨-, w, -, -, hd⟩
    · rw [hd, unsupported] at hr
      split at hr <;> cases hr
      rfl
    · rw [hd] at hr
      cases hr
  | table depth id ih =>
    obtain ⟨x, -, hx⟩ := decodeTo_table_eq_error hr
    exact ih x hx

/-! ### What is refused -/

/-- `y` is read `n` tables inside of the value. -/
inductive Visits (h : Heap) : Nat → Value → Value → Prop
  | here (v : Value) : h.Visits 0 v v
  | part {n id : Nat} {x y : Value} :
    x ∈ h.parts id → h.Visits n x y → h.Visits (n + 1) (.table id) y

/-- What has no counterpart is what the lenient reading replaces by nil. -/
theorem unreadable_iff (owner : Nat) {x : Value} :
    h.Unreadable depth x ↔ x ≠ .nil ∧ decodeTo false owner h depth x = .ok .nil := by
  by_cases hx : ∀ id, x = .table id → depth = 0
  · rcases decodeTo_shallow owner (h := h) hx with ⟨hu, what, hd⟩ | ⟨hu, w, -, hw, hd⟩
    · refine iff_of_true hu ⟨?_, hd false⟩
      rintro rfl
      exact hu
    · refine iff_of_false hu ?_
      rintro ⟨hn, hn'⟩
      rw [hd] at hn'
      exact hn (hw.mp (Except.ok.inj hn'))
  · obtain ⟨id, rfl, hd⟩ : ∃ id, x = .table id ∧ depth ≠ 0 := by simpa using hx
    obtain ⟨depth, rfl⟩ := Nat.exists_eq_succ_of_ne_zero hd
    refine iff_of_false hd ?_
    rintro ⟨-, hn⟩
    rcases decodeTo_table_eq_ok.mp hn with ⟨_, _, _, h, _⟩ | ⟨_, _, h, _⟩ <;> cases h

/-- The strict reading fails exactly at what has no counterpart. -/
theorem exists_error_iff {v : Value} :
    (∃ r, decodeTo true owner h depth v = .error r) ↔
      ∃ n x, n ≤ depth ∧ h.Visits n v x ∧ h.Unreadable (depth - n) x := by
  induction depth, v using readingInduction with
  | shallow depth v hv =>
    have only {n : Nat} {x : Value} (hn : n ≤ depth) (hx : h.Visits n v x) : n = 0 ∧ v = x := by
      cases hx with
      | here => exact ⟨rfl, rfl⟩
      | part => have := hv _ rfl; omega
    rcases decodeTo_shallow owner (h := h) hv with ⟨hu, what, hd⟩ | ⟨hu, w, -, -, hd⟩
    · exact iff_of_true ⟨_, hd true⟩ ⟨0, v, Nat.zero_le _, .here v, hu⟩
    · refine iff_of_false ?_ ?_
      · rintro ⟨r, hr⟩
        rw [hd] at hr
        cases hr
      · rintro ⟨n, x, hn, hx, hux⟩
        obtain ⟨rfl, rfl⟩ := only hn hx
        exact hu hux
  -- The way to what cannot be read starts at a part, which is read one level less deep.
  | table depth id ih =>
    constructor
    · rintro ⟨r, hr⟩
      obtain ⟨x, hx, hd⟩ := decodeTo_table_eq_error hr
      obtain ⟨n, y, hn, hy, hu⟩ := (ih x).mp ⟨r, hd⟩
      refine ⟨n + 1, y, Nat.succ_le_succ hn, .part hx hy, ?_⟩
      rwa [Nat.add_sub_add_right]
    · rintro ⟨_, y, hn, hy, hu⟩
      cases hy with
      | here => cases hu
      | @part n _ x _ hx hy =>
        rw [Nat.add_sub_add_right] at hu
        obtain ⟨r, hr⟩ := (ih x).mpr ⟨n, y, Nat.le_of_succ_le_succ hn, hy, hu⟩
        exact exists_decodeTo_table_eq_error hx hr

/-! ### Cycles -/

/-- One table leads to another that is read as a part of it. -/
def Leads (h : Heap) (id next : Nat) : Prop := .table next ∈ h.parts id

open Relation

/-- From a table that leads into a cycle there are walks of every length. -/
theorem exists_visits_of_cycle {id loop : Nat} (hl : ReflTransGen h.Leads id loop)
    (hc : TransGen h.Leads loop loop) (n : Nat) : ∃ last, h.Visits n (.table id) (.table last) := by
  induction n generalizing id with
  | zero => exact ⟨id, .here _⟩
  | succ n ih =>
    obtain ⟨next, hn, hr⟩ : ∃ next, h.Leads id next ∧ ReflTransGen h.Leads next loop := by
      rcases hl.cases_head with rfl | hl
      · exact TransGen.head'_iff.mp hc
      · exact hl
    obtain ⟨last, hv⟩ := ih hr
    exact ⟨last, .part hn hv⟩

theorem error_of_cycle {id loop : Nat} (hl : ReflTransGen h.Leads id loop)
    (hc : TransGen h.Leads loop loop) : ∃ r, h.decodeStrict owner (.table id) = .error r := by
  obtain ⟨last, hv⟩ := exists_visits_of_cycle hl hc depthLimit
  exact exists_error_iff.mpr ⟨depthLimit, _, Nat.le_refl _, hv, Nat.sub_self _⟩

/-! ### Agreement -/

theorem strict_and_lenient_agree (owner : Nat) (h : Heap) (v : Value) :
    decodeTo false owner h depthLimit v = .ok (h.decode owner v) ∧
    (h.decode owner v).levels ≤ depthLimit ∧
    (h.decodeStrict owner v = .ok (h.decode owner v) ∨
      ∃ r, h.decodeStrict owner v = .error r ∧ r.kind = .conversion) ∧
    ((∃ r, h.decodeStrict owner v = .error r) ↔
      ∃ n x, n ≤ depthLimit ∧ h.Visits n v x ∧ h.Unreadable (depthLimit - n) x) ∧
    (∀ depth x, h.Unreadable depth x ↔ x ≠ .nil ∧ decodeTo false owner h depth x = .ok .nil) ∧
    (∀ id loop, v = .table id → ReflTransGen h.Leads id loop → TransGen h.Leads loop loop →
      ∃ r, h.decodeStrict owner v = .error r) := by
  refine ⟨decodeTo_false owner h v, levels_le_of_decodeTo (decodeTo_false owner h v), ?_,
    exists_error_iff, fun _ _ => unreadable_iff owner, ?_⟩
  · cases hd : h.decodeStrict owner v with
    | ok w => exact .inl (congrArg _ (decode_eq_of_strict hd).symm)
    | error r => exact .inr ⟨r, rfl, kind_of_decodeTo hd⟩
  · rintro id loop rfl hl hc
    exact error_of_cycle hl hc

end ScriptHost.Heap
