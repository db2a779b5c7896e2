import ScriptHost.Proofs.Codec.RoundTrip

/-! What the strict reading gives can be stored and is then read as the same value. A
reader keeps to its own limits: its holes, its depth and the kinds of its keys are those
of values that are stored without loss. Keys stay distinct because texts and functions
are read one to one. -/

namespace ScriptHost

/-- What is read one to one by interpreter `owner`: its own functions, and strings that are
text. -/
def Value.Legible (owner : Nat) : Value → Prop
  | .string bytes => ∃ s : String, bytes = s.toUTF8
  | .function f => f.owner = owner
  | _ => True

namespace Heap

variable {owner above : Nat} {h : Heap} {depth : Nat} {x y : Value} {w : Variant}

/-- Everything on the way is legible. -/
def Legible (owner : Nat) (h : Heap) (depth : Nat) (x : Value) : Prop :=
  ∀ n ≤ depth, ∀ y, h.Visits n x y → y.Legible owner

theorem Legible.part {id : Nat} (hl : h.Legible owner (depth + 1) (.table id))
    (hx : x ∈ h.parts id) : h.Legible owner depth x :=
  fun n hn y hy => hl (n + 1) (Nat.succ_le_succ hn) y (.part hx hy)

theorem Legible.self (hl : h.Legible owner depth x) : x.Legible owner :=
  hl 0 (Nat.zero_le _) x (.here x)

theorem eq_nil_iff_of_strict (hw : decodeTo true owner h depth x = .ok w) :
    w = .nil ↔ x = .nil := by
  constructor
  · rintro rfl
    by_contra hx
    have hu := (unreadable_iff owner).mpr ⟨hx, decodeTo_false_of_true hw⟩
    obtain ⟨r, hr⟩ := exists_error_iff.mpr ⟨0, x, Nat.zero_le _, .here x, hu⟩
    rw [hw] at hr
    cases hr
  · rintro rfl
    rw [decodeTo] at hw
    exact (Except.ok.inj hw).symm

/-- A scalar is read from its own form only. -/
theorem eq_plain_of_strict (hw : decodeTo true owner h depth x = .ok w) (hs : w.isScalar = true)
    (hx : x.Legible owner) : x = w.plain := by
  cases x with
  | string bytes =>
    obtain ⟨s, rfl⟩ := hx
    rw [decodeTo, Text.ofBytes_toUTF8] at hw
    cases hw
    rfl
  | function f =>
    rw [decodeTo] at hw
    cases hw
    obtain rfl : f.owner = owner := hx
    rfl
  | box id =>
    rw [decodeTo] at hw
    cases hb : h.boxed? id with
    | none => rw [hb] at hw; cases hw
    | some v =>
      rw [hb] at hw
      cases hw
      rw [Variant.isScalar_of_isBoxed (isBoxed_of_boxed? hb)] at hs
      cases hs
  | table id =>
    cases depth with
    | zero => rw [decodeTo] at hw; cases hw
    | succ depth =>
      rcases decodeTo_table_eq_ok.mp hw with ⟨_, _, -, rfl, -⟩ | ⟨_, -, rfl, -⟩ <;> cases hs
  | thread | stream | fault =>
    simp only [decodeTo, unsupported, if_true] at hw
    cases hw
  | _ =>
    rw [decodeTo] at hw
    cases hw
    rfl

theorem isKey_of_strict {k : Key} (hw : decodeTo true owner h depth k.toValue = .ok w)
    (hk : k.toValue.Legible owner) : w.IsKey := by
  constructor
  · rintro rfl
    have hn := (eq_nil_iff_of_strict hw).mp rfl
    cases k <;> cases hn
  · rintro y rfl
    have hf := eq_plain_of_strict hw rfl hk
    cases k with
    | float y hy => cases hf; exact hy
    | _ => cases hf

/-- Different keys are not read as one scalar. -/
theorem key_eq_of_strict {k l : Key} {v : Variant} (hk : k.toValue.Legible owner)
    (hl : l.toValue.Legible owner) (hs : v.isScalar = true)
    (hkv : decodeTo true owner h depth k.toValue = .ok v)
    (hlv : decodeTo true owner h depth l.toValue = .ok v) : k = l :=
  Key.toValue_inj ((eq_plain_of_strict hkv hs hk).trans (eq_plain_of_strict hlv hs hl).symm)

theorem pairwise_of_forall₂ {α β : Type} {R : α → β → Prop} {P : α → α → Prop} {Q : β → β → Prop}
    {xs : List α} {ys : List β} (hR : List.Forall₂ R xs ys) (hP : xs.Pairwise P)
    (h : ∀ {x x' y y'}, R x y → R x' y' → P x x' → Q y y') : ys.Pairwise Q := by
  induction hR with
  | nil => exact .nil
  | cons hxy hrest ih =>
    rw [List.pairwise_cons] at hP
    refine .cons (fun y' hy' => ?_) (ih hP.2)
    obtain ⟨x', hx', hxy'⟩ := exists_of_mem_left hrest.flip hy'
    exact h hxy hxy' (hP.1 x' hx')

theorem countP_isNil_of_strict {xs : List Value} {ws : List Variant}
    (hw : List.Forall₂ (fun x w => decodeTo true owner h depth x = .ok w) xs ws) :
    ws.countP Variant.isNil = xs.countP Value.isNil := by
  induction hw with
  | nil => rfl
  | @cons x w _ _ hxw _ ih =>
    have same : w.isNil = x.isNil := by
      have hn := eq_nil_iff_of_strict hxw
      cases x <;> cases w <;> simp_all [Variant.isNil, Value.isNil]
    rw [List.countP_cons, List.countP_cons, ih, same]

theorem storable_array_of_strict {t : Table} {items : List Value} {ws : List Variant}
    (hs : t.slots? = some items)
    (hws : List.Forall₂ (fun x w => decodeTo true owner h depth x = .ok w) items ws)
    (ih : ∀ x ∈ items, ∀ w, decodeTo true owner h depth x = .ok w →
      w.Storable owner (holeLimit + 1)) :
    (Variant.array ws).Storable owner (holeLimit + 1) := by
  refine .array (fun v hv => ?_) ?_ ?_
  · obtain ⟨x, hx, hxv⟩ := exists_of_mem_left hws.flip hv
    exact ih x hx v hxv
  · rw [countP_isNil_of_strict hws]
    exact Table.countP_isNil_of_slots hs
  · rw [← hws.length_eq]
    exact Table.length_le_of_slots hs

theorem storable_dictionary_of_strict {t : Table} {ws : List (Variant × Variant)}
    (hws : List.Forall₂ (fun (e : Key × Value) (w : Variant × Variant) =>
      decodeTo true owner h depth e.1.toValue = .ok w.1 ∧
        decodeTo true owner h depth e.2 = .ok w.2) t.entries ws)
    (hl : ∀ e ∈ t.entries, h.Legible owner depth e.1.toValue ∧ h.Legible owner depth e.2)
    (ih : ∀ x, h.Legible owner depth x → ∀ w, decodeTo true owner h depth x = .ok w →
      w.Storable owner (holeLimit + 1)) :
    (Variant.dictionary ws).Storable owner (holeLimit + 1) := by
  refine .dictionary ?_ ?_ ?_ ?_ ?_
  · intro f hf
    obtain ⟨e, he, hk, -⟩ := exists_of_mem_left hws.flip hf
    exact ih _ (hl e he).1 _ hk
  · intro f hf
    obtain ⟨e, he, -, hv⟩ := exists_of_mem_left hws.flip hf
    exact ih _ (hl e he).2 _ hv
  · intro f hf
    obtain ⟨e, he, hk, -⟩ := exists_of_mem_left hws.flip hf
    exact isKey_of_strict hk (hl e he).1.self
  · intro f hf hn
    obtain ⟨e, he, -, hv⟩ := exists_of_mem_left hws.flip hf
    rw [hn] at hv
    exact t.proper.filled e he ((eq_nil_iff_of_strict hv).mp rfl)
  · -- A scalar tells from which key it was read, so different keys give different scalars.
    have rows := (List.forall₂_and_left _ _).mpr ⟨hl, hws⟩
    refine pairwise_of_forall₂ rows (List.pairwise_map.mp t.proper.distinct) ?_
    rintro e e' f f' ⟨⟨hek, -⟩, hk, -⟩ ⟨⟨hek', -⟩, hk', -⟩ hne hs heq
    exact hne (key_eq_of_strict hek.self hek'.self hs hk (heq ▸ hk'))

/-- What is read strictly can be stored. -/
theorem storable_of_strict (hw : decodeTo true owner h depth x = .ok w)
    (hl : h.Legible owner depth x) : w.Storable owner (holeLimit + 1) := by
  induction depth, x using readingInduction generalizing w with
  | shallow depth x hx =>
    rcases decodeTo_shallow owner (h := h) hx with ⟨-, _, hd⟩ | ⟨-, _, hleaf, -, hd⟩
    · rw [hd] at hw
      cases hw
    · rw [hd] at hw
      cases hw
      refine .leaf hleaf ?_
      rintro f rfl
      have hx := hl.self
      rw [eq_plain_of_strict (hd true) rfl hx] at hx
      exact hx
  | table depth id ih =>
    rcases decodeTo_table_eq_ok.mp hw with ⟨items, ws, hs, rfl, hws⟩ | ⟨ws, hs, rfl, hws⟩
    · refine storable_array_of_strict hs hws fun x hx w hw => ih x hw (hl.part ?_)
      rwa [parts, hs]
    · refine storable_dictionary_of_strict hws (fun e he => ?_) fun x hx w hw => ih x hw hx
      constructor <;> refine hl.part ?_ <;> rw [parts, hs] <;>
        exact List.mem_flatMap.mpr ⟨e, he, by simp⟩

/-- What was read strictly is the same again when it is stored and read once more. -/
theorem strict_encode_strict (hw : h.decodeStrict owner x = .ok w)
    (hl : h.Legible owner depthLimit x) :
    ∃ x' h', encode owner w h = (.ok x', h') ∧ h.Kept 0 h' ∧ ∀ g, h'.Kept h.tables.size g →
      ∃ w', g.decodeStrict owner x' = .ok w' ∧ w.Rearranged w' := by
  exact exists_encode_of_storable (levels_le_of_decodeTo hw) (storable_of_strict hw hl) h

end Heap

end ScriptHost
