import Mathlib.Data.List.Perm.Basic
import ScriptHost.Proofs.Codec.Agreement
import ScriptHost.Proofs.Codec.Arrays
import ScriptHost.Proofs.Codec.Storable

/-! A host value that an interpreter stores is read as it was, now and in every later
heap that keeps it. The table of a dictionary gets one row for each entry: the key of a
new entry is new, because scalars of distinct keys differ and everything else lies in a
cell that was made for it. -/

namespace ScriptHost.Heap

theorem exists_of_forall₂ {α β γ : Type} {P : β → γ → Prop} {Q : α → γ → Prop} {xs : List α}
    {ys : List β} (h : List.Forall₂ (fun x y => ∃ z, P y z ∧ Q x z) xs ys) :
    ∃ zs, List.Forall₂ P ys zs ∧ List.Forall₂ Q xs zs := by
  induction h with
  | nil => exact ⟨[], .nil, .nil⟩
  | cons hz _ ih =>
    obtain ⟨z, hp, hq⟩ := hz
    obtain ⟨zs, hps, hqs⟩ := ih
    exact ⟨z :: zs, .cons hp hps, .cons hq hqs⟩

variable {owner above : Nat} {h g : Heap} {depth : Nat}

/-- In every heap that keeps `h`, reading `x` gives `v` up to the order of entries. -/
def ReadsAs (owner above : Nat) (h : Heap) (depth : Nat) (v : Variant) (x : Value) : Prop :=
  ∀ g, h.Kept above g → ∃ w, decodeTo true owner g depth x = .ok w ∧ v.Rearranged w

theorem ReadsAs.kept {v : Variant} {x : Value} (hx : ReadsAs owner above h depth v x)
    (hg : h.Kept above g) : ReadsAs owner above g depth v x :=
  fun k hk => hx k (hg.trans hk)

/-- A cell that `h` holds. -/
def IsCell (h : Heap) : Value → Prop
  | .table id => id < h.tables.size
  | .box id => id < h.boxes.size
  | _ => False

theorem IsCell.kept {x : Value} (hx : h.IsCell x) (hg : h.Kept above g) : g.IsCell x := by
  cases x with
  | table => exact lt_of_lt_of_le hx hg.tables
  | box => exact lt_of_lt_of_le hx hg.boxes
  | _ => exact hx

/-- A scalar becomes itself, and anything else a new cell. -/
def MadeFor (h h' : Heap) (v : Variant) (x : Value) : Prop :=
  (v.isScalar = true ∧ x = v.plain) ∨ (v.isScalar = false ∧ ¬ h.IsCell x ∧ h'.IsCell x)

theorem not_isCell_plain (h : Heap) (v : Variant) : ¬ h.IsCell v.plain := by
  unfold Variant.plain
  split <;> exact id

/-! ### Leaves -/

theorem decodeTo_plain {strict : Bool} {v : Variant} (hv : v.isScalar = true)
    (ho : ∀ f, v = .callable (.script f) → f.owner = owner) :
    decodeTo strict owner h depth v.plain = .ok v := by
  unfold Variant.isScalar at hv
  split at hv
  any_goals cases hv
  case h_5 s => rw [Variant.plain, Value.ofString, decodeTo, Text.ofBytes_toUTF8]
  case h_6 f => rw [Variant.plain, decodeTo, ← ho f rfl]
  all_goals exact decodeTo.eq_def ..

/-- Stored in any heap, the value is read as it was. -/
def Stores (owner above depth : Nat) (v : Variant) : Prop :=
  ∀ h : Heap, above ≤ h.tables.size → ∃ x h', encode owner v h = (.ok x, h') ∧
    h.Kept above h' ∧ h.MadeFor h' v x ∧ ReadsAs owner above h' depth v x

theorem stores_leaf {v : Variant} (hv : v.isLeaf = true)
    (ho : ∀ f, v = .callable (.script f) → f.owner = owner) : Stores owner above depth v := by
  intro h _
  by_cases hs : v.isScalar = true
  · refine ⟨v.plain, h, encode_scalar hs ho h, .refl h, .inl ⟨hs, rfl⟩, fun g _ => ?_⟩
    exact ⟨v, decodeTo_plain hs ho, .refl v⟩
  · have hb := (Variant.isScalar_or_isBoxed hv).resolve_left hs
    have kept : h.Kept above _ := .newBox h ⟨v, hb⟩
    have cell : (h.newBox ⟨v, hb⟩).2.IsCell (.box h.boxes.size) := by simp [IsCell, newBox]
    refine ⟨_, _, encode_boxed hb h, kept, .inr ⟨by simpa using hs, Nat.lt_irrefl _, cell⟩, ?_⟩
    intro g hg
    refine ⟨v, ?_, .refl v⟩
    rw [decodeTo, hg.boxed? _ cell, boxed?_newBox]

/-! ### Arrays -/

theorem isNil_of_madeFor {h' : Heap} {v : Variant} {x : Value} (hx : h.MadeFor h' v x) :
    x.isNil = v.isNil := by
  rcases hx with ⟨hs, rfl⟩ | ⟨hs, -, hc⟩
  · unfold Variant.isScalar at hs
    split at hs
    any_goals cases hs
    all_goals rfl
  · cases x <;> cases v <;> first | rfl | cases hc | cases hs

theorem encodeItems_reads {vs : List Variant} (ih : ∀ v ∈ vs, Stores owner above depth v)
    (h : Heap) (ha : above ≤ h.tables.size) :
    ∃ xs h', encodeItems owner vs h = (.ok xs, h') ∧ h.Kept above h' ∧
      xs.countP Value.isNil = vs.countP Variant.isNil ∧
      List.Forall₂ (ReadsAs owner above h' depth) vs xs := by
  induction vs generalizing h with
  | nil => exact ⟨[], h, by rw [encodeItems], .refl h, rfl, .nil⟩
  | cons v rest ihr =>
    obtain ⟨x, h₁, he, hk, hm, hr⟩ := ih v List.mem_cons_self h ha
    obtain ⟨xs, h₂, hes, hks, hn, hrs⟩ :=
      ihr (fun w hw => ih w (List.mem_cons_of_mem _ hw)) h₁ (ha.trans hk.tables)
    refine ⟨x :: xs, h₂, ?_, hk.trans hks, ?_, .cons (hr.kept hks) hrs⟩
    · rw [encodeItems, he]
      simp only [hes]
    · rw [List.countP_cons, List.countP_cons, hn, isNil_of_madeFor hm]

theorem stores_array {items : List Variant} (ih : ∀ v ∈ items, Stores owner above depth v)
    (hh : items.countP Variant.isNil ≤ holeLimit + 1) (hl : items.length ≤ lastItem) :
    Stores owner above (depth + 1) (.array items) := by
  intro h ha
  obtain ⟨xs, h₁, he, hk, hn, hxs⟩ := encodeItems_reads ih h ha
  have kept : h₁.Kept above _ := .newTable h₁ (arrayTable xs)
  have cell : h₁.tables.size < (h₁.newTable (arrayTable xs)).2.tables.size := by simp [newTable]
  refine ⟨.table h₁.tables.size, (h₁.newTable (arrayTable xs)).2, ?_, hk.trans kept, ?_, ?_⟩
  · rw [encode, he]
    rfl
  · exact .inr ⟨rfl, not_lt.mpr hk.tables, cell⟩
  · intro g hg
    have slots : (g.table h₁.tables.size).slots? = some xs := by
      have hp := hg.entries _ (ha.trans hk.tables) cell
      have hm := hg.meta? _ (ha.trans hk.tables) cell
      rw [table_newTable] at hp hm
      exact Table.slots_of_perm hp (hm.trans (meta_arrayTable xs)) (hxs.length_eq ▸ hl) (hn ▸ hh)
    obtain ⟨ws, hd, hr⟩ := exists_of_forall₂ (hxs.imp fun v x hx => hx g (kept.trans hg))
    exact ⟨.array ws, decodeTo_table_eq_ok.mpr (.inl ⟨xs, ws, slots, rfl, hd⟩), .array hr⟩

/-! ### Dictionaries -/

/-- Every key of the table is a cell or comes from a scalar among the keys of `es`. -/
def KeysFrom (h : Heap) (es : List (Variant × Variant)) (t : Table) : Prop :=
  ∀ k ∈ t.entries.map (·.1),
    h.IsCell k.toValue ∨ ∃ e ∈ es, e.1.isScalar = true ∧ k.toValue = e.1.plain

/-- The key of an entry is not that of an earlier one. -/
theorem fresh_of_madeFor {h' : Heap} {es : List (Variant × Variant)} {t : Table} {v : Variant}
    {k : Key} (ht : h.KeysFrom es t) (hk : h.MadeFor h' v k.toValue)
    (hd : ∀ e ∈ es, e.1.isScalar = true → e.1 ≠ v) : k ∉ t.entries.map (·.1) := by
  intro hm
  rcases hk with ⟨hs, hp⟩ | ⟨-, hn, hc⟩
  · rcases ht k hm with hc | ⟨e, he, hes, hep⟩
    · rw [hp] at hc
      exact not_isCell_plain h v hc
    · exact hd e he hes (Variant.plain_inj hes hs (hep.symm.trans hp))
  · rcases ht k hm with hc' | ⟨e, -, -, hep⟩
    · exact hn hc'
    · rw [hep] at hc
      exact not_isCell_plain h' e.1 hc

theorem ofValue_of_madeFor {h' : Heap} {v : Variant} {x : Value} (hx : h.MadeFor h' v x)
    (hv : v.IsKey) : ∃ k, Key.ofValue x = .ok k ∧ k.toValue = x := by
  refine Key.exists_ofValue ?_ ?_
  · rintro rfl
    have hn := isNil_of_madeFor hx
    cases v <;> first | exact hv.1 rfl | cases hn
  · rintro y rfl
    rcases hx with ⟨hs, hp⟩ | ⟨-, -, hc⟩
    · exact hv.2 y (Variant.plain_inj hs rfl hp.symm)
    · cases hc

theorem KeysFrom.set {h' : Heap} {es : List (Variant × Variant)} {e : Variant × Variant} {t : Table}
    {k : Key} {y : Value} (ht : h.KeysFrom es t) (hh : h.Kept above h')
    (hk : h.MadeFor h' e.1 k.toValue)
    (he : (t.set k y).entries = t.entries ++ [(k, y)]) : h'.KeysFrom (es ++ [e]) (t.set k y) := by
  intro l hl
  rw [he, List.map_append, List.mem_append, List.map_singleton, List.mem_singleton] at hl
  rcases hl with hl | rfl
  · rcases ht l hl with hc | ⟨f, hf, hs, hp⟩
    · exact .inl (hc.kept hh)
    · exact .inr ⟨f, List.mem_append_left _ hf, hs, hp⟩
  · rcases hk with ⟨hs, hp⟩ | ⟨-, -, hc⟩
    · exact .inr ⟨e, List.mem_append_right _ List.mem_cons_self, hs, hp⟩
    · exact .inl hc

/-- Each entry adds a row of its own behind those before it. -/
theorem encodeEntry_reads {done : List (Variant × Variant)} {e : Variant × Variant} {t : Table}
    (ihk : Stores owner above depth e.1) (ihv : Stores owner above depth e.2) (hk : e.1.IsKey)
    (hv : e.2 ≠ .nil) (hd : ∀ f ∈ done, f.1.isScalar = true → f.1 ≠ e.1) (h : Heap)
    (ha : above ≤ h.tables.size) (ht : h.KeysFrom done t) :
    ∃ t' h' row, encodeEntry owner e t h = (.ok t', h') ∧ h.Kept above h' ∧ t'.meta? = t.meta? ∧
      t'.entries = t.entries ++ [row] ∧ h'.KeysFrom (done ++ [e]) t' ∧
      ReadsAs owner above h' depth e.1 row.1.toValue ∧ ReadsAs owner above h' depth e.2 row.2 := by
  obtain ⟨x, h₁, hex, kept₁, madex, readx⟩ := ihk h ha
  obtain ⟨k, hkey, rfl⟩ := ofValue_of_madeFor madex hk
  obtain ⟨y, h₂, hey, kept₂, madey, ready⟩ := ihv h₁ (ha.trans kept₁.tables)
  have hy : y ≠ .nil := by
    rintro rfl
    have hn := isNil_of_madeFor madey
    cases hev : e.2 <;> rw [hev] at hn hv <;> first | exact hv rfl | cases hn
  have fresh := fresh_of_madeFor ht madex hd
  have entries := Table.entries_set_of_not_mem (Table.get_eq_nil_iff.mpr fresh) hy
  refine ⟨t.set k y, h₂, (k, y), ?_, kept₁.trans kept₂, Table.meta_set, entries, ?_,
    readx.kept kept₂, ready⟩
  · rw [encodeEntry, hex]
    simp only [hkey, hey]
  · have keys := ht.set kept₁ madex entries
    intro l hl
    exact (keys l hl).imp_left fun hc => hc.kept kept₂

theorem encodeEntries_reads (done : List (Variant × Variant)) {es : List (Variant × Variant)}
    {t : Table}
    (ihk : ∀ e ∈ es, Stores owner above depth e.1) (ihv : ∀ e ∈ es, Stores owner above depth e.2)
    (hk : ∀ e ∈ es, e.1.IsKey) (hv : ∀ e ∈ es, e.2 ≠ .nil)
    (hd : (done ++ es).Pairwise fun e f => e.1.isScalar = true → e.1 ≠ f.1)
    (h : Heap) (ha : above ≤ h.tables.size) (ht : h.KeysFrom done t) :
    ∃ t' h' rows, encodeEntries owner es t h = (.ok t', h') ∧ h.Kept above h' ∧
      t'.meta? = t.meta? ∧ t'.entries = t.entries ++ rows ∧
      List.Forall₂ (fun e row => ReadsAs owner above h' depth e.1 row.1.toValue ∧
        ReadsAs owner above h' depth e.2 row.2) es rows := by
  -- The entries that are done are those whose keys the table has; each step adds one.
  induction es generalizing done t h with
  | nil => exact ⟨t, h, [], by rw [encodeEntries], .refl h, rfl, (List.append_nil _).symm, .nil⟩
  | cons e rest ih =>
    have hde : ∀ f ∈ done, f.1.isScalar = true → f.1 ≠ e.1 := fun f hf =>
      (List.pairwise_append.mp hd).2.2 f hf e List.mem_cons_self
    obtain ⟨t₁, h₁, row, he, kept₁, meta₁, entries₁, keys₁, readk, readv⟩ :=
      encodeEntry_reads (ihk e List.mem_cons_self) (ihv e List.mem_cons_self)
        (hk e List.mem_cons_self) (hv e List.mem_cons_self) hde h ha ht
    obtain ⟨t₂, h₂, rows, hes, kept₂, meta₂, entries₂, reads⟩ :=
      ih (done ++ [e]) (fun f hf => ihk f (List.mem_cons_of_mem _ hf))
        (fun f hf => ihv f (List.mem_cons_of_mem _ hf))
        (fun f hf => hk f (List.mem_cons_of_mem _ hf))
        (fun f hf => hv f (List.mem_cons_of_mem _ hf))
        (by rwa [List.append_assoc]) h₁ (ha.trans kept₁.tables) keys₁
    refine ⟨t₂, h₂, row :: rows, ?_, kept₁.trans kept₂, meta₂.trans meta₁, ?_, .cons ?_ reads⟩
    · rw [encodeEntries, he]
      exact hes
    · rw [entries₂, entries₁, List.append_assoc, List.singleton_append]
    · exact ⟨readk.kept kept₂, readv.kept kept₂⟩

theorem slots_of_dictionaryMark {t : Table} (hm : t.meta? = some dictionaryMark) :
    t.slots? = none := by
  have shape : t.shape? = some .dictionary := by
    rw [Table.shape?, if_neg (by rw [hm]; decide), if_pos hm]
  rw [Table.slots?, if_pos shape]

theorem stores_dictionary {es : List (Variant × Variant)}
    (ihk : ∀ e ∈ es, Stores owner above depth e.1) (ihv : ∀ e ∈ es, Stores owner above depth e.2)
    (hkey : ∀ e ∈ es, e.1.IsKey) (hv : ∀ e ∈ es, e.2 ≠ .nil)
    (hd : es.Pairwise fun e f => e.1.isScalar = true → e.1 ≠ f.1) :
    Stores owner above (depth + 1) (.dictionary es) := by
  intro h ha
  have none : h.KeysFrom [] .empty := fun _ hk => nomatch hk
  obtain ⟨t, h₁, rows, he, hk, -, hrows, hr⟩ := encodeEntries_reads [] ihk ihv hkey hv hd h ha none
  let marked : Table := { t with meta? := some dictionaryMark }
  have kept : h₁.Kept above _ := .newTable h₁ marked
  have cell : h₁.tables.size < (h₁.newTable marked).2.tables.size := by simp [newTable]
  refine ⟨.table h₁.tables.size, (h₁.newTable marked).2, ?_, hk.trans kept, ?_, ?_⟩
  · rw [encode, he]
    rfl
  · exact .inr ⟨rfl, not_lt.mpr hk.tables, cell⟩
  · intro g hg
    have hp := hg.entries _ (ha.trans hk.tables) cell
    have hm := hg.meta? _ (ha.trans hk.tables) cell
    rw [table_newTable] at hp hm
    -- the entries in the order in which `g` lists their rows
    obtain rfl : t.entries = rows := hrows
    obtain ⟨fs, hfs, perm⟩ := List.perm_comp_forall₂ hp.symm hr.flip
    obtain ⟨ws, hws, hrw⟩ := exists_of_forall₂
      (P := fun (row : Key × Value) (w : Variant × Variant) =>
        decodeTo true owner g depth row.1.toValue = .ok w.1 ∧
          decodeTo true owner g depth row.2 = .ok w.2)
      (Q := fun (e w : Variant × Variant) => e.1.Rearranged w.1 ∧ e.2.Rearranged w.2)
      (hfs.flip.imp fun e row hx => by
        obtain ⟨wk, hdk, hrk⟩ := hx.1 g (kept.trans hg)
        obtain ⟨wv, hdv, hrv⟩ := hx.2 g (kept.trans hg)
        exact ⟨(wk, wv), ⟨hdk, hdv⟩, hrk, hrv⟩)
    have hd := decodeTo_table_eq_ok.mpr (.inr ⟨ws, slots_of_dictionaryMark hm, rfl, hws⟩)
    refine ⟨.dictionary ws, hd, .dictionary perm.symm ?_ ?_⟩
    · rw [List.forall₂_map_left_iff, List.forall₂_map_right_iff]
      exact hrw.imp fun _ _ h => h.1
    · rw [List.forall₂_map_left_iff, List.forall₂_map_right_iff]
      exact hrw.imp fun _ _ h => h.2

/-! ### Round trip -/

theorem stores_of_storable {v : Variant} (hl : v.levels ≤ depth)
    (hs : v.Storable owner (holeLimit + 1)) : Stores owner above depth v := by
  induction hs generalizing depth with
  | leaf hv ho => exact stores_leaf hv ho
  | @array items _ hh hlen ih =>
    obtain ⟨depth, rfl⟩ : ∃ d, depth = d + 1 :=
      Nat.exists_eq_succ_of_ne_zero (by rintro rfl; simp [Variant.levels] at hl)
    rw [Variant.levels_array_le] at hl
    exact stores_array (fun v hv => ih v hv (hl v hv)) hh hlen
  | @dictionary es _ _ hk hv hd ihk ihv =>
    obtain ⟨depth, rfl⟩ : ∃ d, depth = d + 1 :=
      Nat.exists_eq_succ_of_ne_zero (by rintro rfl; simp [Variant.levels] at hl)
    rw [Variant.levels_dictionary_le] at hl
    exact stores_dictionary (fun e he => ihk e he (hl e he).1) (fun e he => ihv e he (hl e he).2)
      hk hv hd

/-- Storing leaves all that there was, and what it adds is enough to read the value. -/
theorem exists_encode_of_storable {v : Variant} (hl : v.levels ≤ depthLimit)
    (hs : v.Storable owner (holeLimit + 1)) (h : Heap) :
    ∃ x h', encode owner v h = (.ok x, h') ∧ h.Kept 0 h' ∧
      ReadsAs owner h.tables.size h' depthLimit v x := by
  obtain ⟨x, h', he, hk, -, -⟩ := stores_of_storable hl hs h (Nat.zero_le _)
  obtain ⟨_, _, he', -, -, hr⟩ := stores_of_storable hl hs h (Nat.le_refl _)
  cases he.symm.trans he'
  exact ⟨x, h', he, hk, hr⟩

/-- Both ways of reading give back what was stored, as long as the new cells are kept. -/
theorem decode_encode {v : Variant} (hl : v.levels ≤ depthLimit) (hs : v.Storable owner holeLimit)
    (h : Heap) :
    ∃ x h', encode owner v h = (.ok x, h') ∧ h.Kept 0 h' ∧ ∀ g, h'.Kept h.tables.size g →
      ∃ w, g.decodeStrict owner x = .ok w ∧ g.decode owner x = w ∧ v.Rearranged w := by
  obtain ⟨x, h', he, hk, hr⟩ := exists_encode_of_storable hl (hs.mono (Nat.le_succ _)) h
  refine ⟨x, h', he, hk, fun g hg => ?_⟩
  obtain ⟨w, hd, hw⟩ := hr g hg
  exact ⟨w, hd, decode_eq_of_strict hd, hw⟩

/-- An array with holes, an empty dictionary, and keys of several kinds. -/
def specimen : Variant := .dictionary
  [(.int 1, .array [.nil, .string "a", .nil]), (.array [], .object ⟨"A"⟩),
    (.callable (.script ⟨1, 7⟩), .dictionary [])]

theorem storable_specimen : specimen.Storable 1 holeLimit := by
  have leaf {v : Variant} (hv : v.isLeaf = true) (hf : ∀ f, v ≠ .callable (.script f)) :
      v.Storable 1 holeLimit := .leaf hv fun f h => absurd h (hf f)
  have items : (Variant.array [.nil, .string "a", .nil]).Storable 1 holeLimit := by
    refine .array ?_ (by decide) (by decide)
    simp only [List.forall_mem_cons, List.not_mem_nil, false_implies, implies_true, and_true]
    exact ⟨leaf rfl nofun, leaf rfl nofun, leaf rfl nofun⟩
  refine .dictionary ?_ ?_ ?_ ?_ ?_
  · simp only [List.forall_mem_cons, List.not_mem_nil, false_implies, implies_true, and_true]
    refine ⟨leaf rfl nofun, .array nofun (Nat.zero_le _) (by decide), .leaf rfl fun f h => ?_⟩
    cases h
    rfl
  · simp only [List.forall_mem_cons, List.not_mem_nil, false_implies, implies_true, and_true]
    exact ⟨items, leaf rfl nofun, .dictionary nofun nofun nofun nofun .nil⟩
  · simp [Variant.IsKey]
  · simp
  · simp

theorem decode_encode_specimen : specimen.levels ≤ depthLimit ∧ specimen.Storable 1 holeLimit ∧
    ∃ x h', encode 1 specimen initial = (.ok x, h') ∧ initial.Kept 0 h' ∧
      ∀ g, h'.Kept initial.tables.size g → ∃ w, g.decodeStrict 1 x = .ok w ∧
        g.decode 1 x = w ∧ specimen.Rearranged w := by
  have hl : specimen.levels ≤ depthLimit := by decide
  exact ⟨hl, storable_specimen, decode_encode hl storable_specimen initial⟩

end ScriptHost.Heap
