import ScriptHost.Proofs.Codec.Storable
import ScriptHost.Proofs.Machine.Ownership

/-! Functions on their way into an interpreter. Storing a value fails exactly if it comes
by a function of another interpreter, and what is stored belongs to the interpreter, even
where a later part is refused. -/

namespace ScriptHost

namespace Variant

/-- Whether a table can have the value as a key. -/
def isKey : Variant → Bool
  | nil => false
  | float x => !x.isNaN
  | _ => true

/-- Storing the value comes by `f`: not in bound arguments, and not in the value of an
entry whose key is none. -/
inductive Meets (f : ScriptFunction) : Variant → Prop
  | here : Meets f (.callable (.script f))
  | item {items : List Variant} {v : Variant} : v ∈ items → Meets f v → Meets f (.array items)
  | key {entries : List (Variant × Variant)} {e : Variant × Variant} :
    e ∈ entries → Meets f e.1 → Meets f (.dictionary entries)
  | value {entries : List (Variant × Variant)} {e : Variant × Variant} :
    e ∈ entries → e.1.isKey = true → Meets f e.2 → Meets f (.dictionary entries)

end Variant

namespace Heap

variable {owner : Nat} {h : Heap}

theorem ownedBy_arrayTable {values : List Value} (hv : ∀ v ∈ values, v.OwnedBy owner) :
    (arrayTable values).OwnedBy owner := by
  have items (n : Nat) : ∀ e ∈ itemEntries n values,
      e.1.toValue.OwnedBy owner ∧ e.2.OwnedBy owner := by
    induction values generalizing n with
    | nil => simp [itemEntries]
    | cons v rest ih =>
      rw [List.forall_mem_cons] at hv
      intro e he
      rw [itemEntries] at he
      split at he
      · cases he
      split at he
      · exact ih hv.2 _ e he
      · rcases List.mem_cons.mp he with rfl | he
        · exact ⟨trivial, hv.1⟩
        · exact ih hv.2 _ e he
  unfold arrayTable
  split
  · exact Table.OwnedBy.set (items 1) (show lengthKey.toValue.OwnedBy owner from trivial) trivial
  · exact items 1

/-- What storing a value comes to. -/
inductive Crossing (owner : Nat) (v : Variant) (h : Heap) : Except Refusal Value × Heap → Prop
  | refused {f : ScriptFunction} {h' : Heap} : v.Meets f → f.owner ≠ owner →
    (h.OwnedBy owner → h'.OwnedBy owner) → Crossing owner v h (.error .foreignFunctionPassed, h')
  | stored {x : Value} {h' : Heap} : (∀ f, v.Meets f → f.owner = owner) →
    (Key.ofValue x).toBool = v.isKey →
    (h.OwnedBy owner → h'.OwnedBy owner ∧ x.OwnedBy owner) → Crossing owner v h (.ok x, h')

theorem toBool_ofValue_plain {v : Variant} (hv : v.isScalar = true) :
    (Key.ofValue v.plain).toBool = v.isKey := by
  unfold Variant.isScalar at hv
  split at hv
  any_goals cases hv
  case h_4 x =>
    dsimp only [Variant.plain, Key.ofValue, Variant.isKey]
    split
    next hx => exact (congrArg Bool.not hx).symm
    next hx _ => exact (congrArg Bool.not hx).symm
    next hx _ => exact (congrArg Bool.not hx).symm
  all_goals rfl

theorem crossing_leaf {v : Variant} (hv : v.isLeaf = true) (h : Heap) :
    Crossing owner v h (encode owner v h) := by
  by_cases hs : v.isScalar = true
  · by_cases ho : ∀ f, v = .callable (.script f) → f.owner = owner
    · rw [encode_scalar hs ho]
      refine .stored (fun f hf => ?_) (toBool_ofValue_plain hs) fun hh => ⟨hh, ?_⟩
      · cases hf with
        | here => exact ho f rfl
        | item | key | value => cases hv
      · unfold Variant.plain
        split <;> first | exact ho _ rfl | trivial
    · obtain ⟨f, rfl, hf⟩ : ∃ f, v = .callable (.script f) ∧ f.owner ≠ owner := by simpa using ho
      rw [encode, if_neg hf]
      exact .refused .here hf id
  · have hb := (Variant.isScalar_or_isBoxed hv).resolve_left hs
    rw [encode_boxed hb]
    refine .stored (fun f hf => ?_) ?_ fun hh => ⟨hh.newBox _, trivial⟩
    · cases hf with
      | here => cases hb
      | item | key | value => cases hv
    · cases v <;> first | rfl | cases hb

theorem crossing_items {vs : List Variant}
    (ih : ∀ v ∈ vs, ∀ h, Crossing owner v h (encode owner v h)) (h : Heap) :
    (∃ v ∈ vs, ∃ f h', v.Meets f ∧ f.owner ≠ owner ∧ (h.OwnedBy owner → h'.OwnedBy owner) ∧
      encodeItems owner vs h = (.error .foreignFunctionPassed, h')) ∨
    ((∀ v ∈ vs, ∀ f, v.Meets f → f.owner = owner) ∧ ∃ xs h',
      (h.OwnedBy owner → h'.OwnedBy owner ∧ ∀ x ∈ xs, x.OwnedBy owner) ∧
      encodeItems owner vs h = (.ok xs, h')) := by
  induction vs generalizing h with
  | nil => exact .inr ⟨nofun, [], h, fun hh => ⟨hh, nofun⟩, by rw [encodeItems]⟩
  | cons v rest ihr =>
    rw [encodeItems]
    generalize he : encode owner v h = r
    have first := ih v List.mem_cons_self h
    rw [he] at first
    cases first with
    | @refused f h₁ hm hf hh => exact .inl ⟨v, List.mem_cons_self, f, h₁, hm, hf, hh, rfl⟩
    | @stored x h₁ hm _ hh =>
      -- What was stored in front stays when an item behind it is refused.
      rcases ihr (fun w hw => ih w (List.mem_cons_of_mem _ hw)) h₁ with
        ⟨w, hw, f, h₂, hmw, hf, hh₂, hes⟩ | ⟨hms, xs, h₂, hh₂, hes⟩
      · refine .inl ⟨w, List.mem_cons_of_mem _ hw, f, h₂, hmw, hf, fun ho => hh₂ (hh ho).1, ?_⟩
        simp only [hes]
      · refine .inr ⟨List.forall_mem_cons.mpr ⟨hm, hms⟩, x :: xs, h₂, fun ho => ?_, ?_⟩
        · have h₁ := hh ho
          have h₂ := hh₂ h₁.1
          exact ⟨h₂.1, List.forall_mem_cons.mpr ⟨h₁.2, h₂.2⟩⟩
        · simp only [hes]

/-- A key that is none ends the entry. -/
theorem crossing_entry {e : Variant × Variant} {t : Table}
    (ihk : ∀ h, Crossing owner e.1 h (encode owner e.1 h))
    (ihv : ∀ h, Crossing owner e.2 h (encode owner e.2 h)) (h : Heap) :
    (∃ f h', (e.1.Meets f ∨ e.1.isKey = true ∧ e.2.Meets f) ∧ f.owner ≠ owner ∧
      (h.OwnedBy owner → h'.OwnedBy owner) ∧
      encodeEntry owner e t h = (.error .foreignFunctionPassed, h')) ∨
    ((∀ f, e.1.Meets f → f.owner = owner) ∧
      (e.1.isKey = true → ∀ f, e.2.Meets f → f.owner = owner) ∧ ∃ t' h',
      (h.OwnedBy owner → t.OwnedBy owner → h'.OwnedBy owner ∧ t'.OwnedBy owner) ∧
      encodeEntry owner e t h = (.ok t', h')) := by
  rw [encodeEntry]
  generalize hk : encode owner e.1 h = rk
  have key := ihk h
  rw [hk] at key
  cases key with
  | @refused f h₁ hm hf hh => exact .inl ⟨f, h₁, .inl hm, hf, hh, rfl⟩
  | @stored x h₁ hm hx hh =>
    cases hkey : Key.ofValue x with
    | error fault =>
      rw [hkey] at hx
      refine .inr ⟨hm, fun hi => ?_, t, h₁, fun ho ht => ⟨(hh ho).1, ht⟩, by simp only [hkey]⟩
      rw [← hx] at hi
      cases hi
    | ok k =>
      rw [hkey] at hx
      generalize hv : encode owner e.2 h₁ = rv
      have value := ihv h₁
      rw [hv] at value
      cases value with
      | @refused f h₂ hm₂ hf hh₂ =>
        exact .inl ⟨f, h₂, .inr ⟨hx.symm, hm₂⟩, hf, fun ho => hh₂ (hh ho).1, by
          simp only [hkey, hv]⟩
      | @stored y h₂ hm₂ _ hh₂ =>
        refine .inr ⟨hm, fun _ => hm₂, t.set k y, h₂, fun ho ht => ?_, by simp only [hkey, hv]⟩
        have h₁ := hh ho
        have h₂ := hh₂ h₁.1
        exact ⟨h₂.1, ht.set (Key.ownedBy_ofValue hkey h₁.2) h₂.2⟩

theorem crossing_entries {es : List (Variant × Variant)} {t : Table}
    (ih : ∀ e ∈ es, (∀ h, Crossing owner e.1 h (encode owner e.1 h)) ∧
      ∀ h, Crossing owner e.2 h (encode owner e.2 h)) (h : Heap) :
    (∃ e ∈ es, ∃ f h', (e.1.Meets f ∨ e.1.isKey = true ∧ e.2.Meets f) ∧ f.owner ≠ owner ∧
      (h.OwnedBy owner → t.OwnedBy owner → h'.OwnedBy owner) ∧
      encodeEntries owner es t h = (.error .foreignFunctionPassed, h')) ∨
    ((∀ e ∈ es, (∀ f, e.1.Meets f → f.owner = owner) ∧
      (e.1.isKey = true → ∀ f, e.2.Meets f → f.owner = owner)) ∧ ∃ t' h',
      (h.OwnedBy owner → t.OwnedBy owner → h'.OwnedBy owner ∧ t'.OwnedBy owner) ∧
      encodeEntries owner es t h = (.ok t', h')) := by
  induction es generalizing t h with
  | nil => exact .inr ⟨nofun, t, h, fun ho ht => ⟨ho, ht⟩, by rw [encodeEntries]⟩
  | cons e rest ihr =>
    rw [encodeEntries]
    obtain ⟨ihk, ihv⟩ := ih e List.mem_cons_self
    rcases crossing_entry (t := t) ihk ihv h with
      ⟨f, h₁, hm, hf, hh, he⟩ | ⟨hmk, hmv, t₁, h₁, hh, he⟩
    · exact .inl ⟨e, List.mem_cons_self, f, h₁, hm, hf, fun ho _ => hh ho, by rw [he]⟩
    · rcases ihr (t := t₁) (fun e he => ih e (List.mem_cons_of_mem _ he)) h₁ with
        ⟨w, hw, f, h₂, hmw, hf, hh₂, hes⟩ | ⟨hms, t₂, h₂, hh₂, hes⟩
      · refine .inl ⟨w, List.mem_cons_of_mem _ hw, f, h₂, hmw, hf, fun ho ht => ?_, by
          rw [he]; exact hes⟩
        exact hh₂ (hh ho ht).1 (hh ho ht).2
      · refine .inr ⟨List.forall_mem_cons.mpr ⟨⟨hmk, hmv⟩, hms⟩, t₂, h₂, fun ho ht => ?_, by
          rw [he]; exact hes⟩
        exact hh₂ (hh ho ht).1 (hh ho ht).2

theorem crossing_encode (owner : Nat) (v : Variant) (h : Heap) :
    Crossing owner v h (encode owner v h) := by
  induction v using Variant.containerInduction generalizing h with
  | leaf v hv => exact crossing_leaf hv h
  | array items ih =>
    rw [encode]
    rcases crossing_items ih h with ⟨v, hv, f, h₁, hm, hf, hh, he⟩ | ⟨hm, xs, h₁, hh, he⟩
    · rw [he]
      exact .refused (.item hv hm) hf hh
    · rw [he]
      refine .stored (fun f hf => ?_) rfl fun ho => ⟨(hh ho).1.newTable ?_, trivial⟩
      · cases hf with
        | item hv hf => exact hm _ hv f hf
      · exact ownedBy_arrayTable (hh ho).2
  | dictionary es ih =>
    rw [encode]
    rcases crossing_entries (t := .empty) ih h with
      ⟨e, he, f, h₁, hm, hf, hh, hes⟩ | ⟨hm, t, h₁, hh, hes⟩
    · rw [hes]
      refine .refused ?_ hf fun ho => hh ho .empty
      rcases hm with hm | ⟨hk, hm⟩
      · exact .key he hm
      · exact .value he hk hm
    · rw [hes]
      refine .stored (fun f hf => ?_) rfl fun ho => ⟨(hh ho .empty).1.newTable ?_, trivial⟩
      · cases hf with
        | key he hf => exact (hm _ he).1 f hf
        | value he hk hf => exact (hm _ he).2 hk f hf
      · exact (hh ho .empty).2

/-- Storing fails exactly at a function of another interpreter. -/
theorem encode_eq_error_iff {v : Variant} :
    (∃ r h', encode owner v h = (.error r, h')) ↔ ∃ f, v.Meets f ∧ f.owner ≠ owner := by
  generalize he : encode owner v h = r
  have crossing := crossing_encode owner v h
  rw [he] at crossing
  cases crossing with
  | @refused f h₁ hm hf _ => exact iff_of_true ⟨_, _, rfl⟩ ⟨f, hm, hf⟩
  | @stored x h₁ hm _ _ =>
    refine iff_of_false (fun ⟨r, h', h⟩ => ?_) fun ⟨f, hf, hn⟩ => hn (hm f hf)
    cases h

theorem eq_of_encode_eq_error {v : Variant} {r : Refusal} {h' : Heap}
    (he : encode owner v h = (.error r, h')) : r = .foreignFunctionPassed := by
  have crossing := crossing_encode owner v h
  rw [he] at crossing
  cases crossing
  rfl

theorem OwnedBy.encode (hh : h.OwnedBy owner) (v : Variant) :
    (h.encode owner v).2.OwnedBy owner ∧
      ∀ x, (h.encode owner v).1 = .ok x → x.OwnedBy owner := by
  have crossing := crossing_encode owner v h
  generalize h.encode owner v = r at crossing ⊢
  cases crossing with
  | refused _ _ ho => exact ⟨ho hh, nofun⟩
  | stored _ _ ho =>
    refine ⟨(ho hh).1, fun x hx => ?_⟩
    cases hx
    exact (ho hh).2

theorem OwnedBy.encodeAll (hh : h.OwnedBy owner) (vs : List Variant) :
    (h.encodeAll owner vs).2.OwnedBy owner ∧
      ∀ xs, (h.encodeAll owner vs).1 = .ok xs → ∀ x ∈ xs, x.OwnedBy owner := by
  rw [Heap.encodeAll]
  rcases crossing_items (fun v (_ : v ∈ vs) h => crossing_encode owner v h) h with
    ⟨v, hv, f, h₁, -, -, ho, he⟩ | ⟨-, xs, h₁, ho, he⟩
  · rw [he]
    exact ⟨ho hh, nofun⟩
  · rw [he]
    refine ⟨(ho hh).1, fun ys hy => ?_⟩
    cases hy
    exact (ho hh).2

end Heap

end ScriptHost
