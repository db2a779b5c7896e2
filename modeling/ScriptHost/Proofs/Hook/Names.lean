import ScriptHost.Hook.Mask
import ScriptHost.Proofs.Text.Lines

/-! The words that name events, in letters of either case, and the masks that they name. -/

namespace ScriptHost

/-- The words that name an event, in small letters. -/
def EventKind.words : EventKind → List String
  | call | tailCall => ["call", "all"]
  | ret => ["return", "ret", "all"]
  | line => ["line", "all"]
  | count => ["count", "all"]

namespace Mask

variable {m n : Mask} {word sep : String} {words : List String} {event : EventKind}

/-! ### Masks as sets of events -/

theorem eq_of_holds (h : ∀ event, m.holds event = n.holds event) : m = n := by
  have call := h .call
  have ret := h .ret
  have line := h .line
  have count := h .count
  cases m
  cases n
  simp_all [holds]

theorem holds_union (m n : Mask) (event : EventKind) :
    (m.union n).holds event = (m.holds event || n.holds event) := by
  cases event <;> rfl

theorem holds_empty (event : EventKind) : empty.holds event = false := by
  cases event <;> rfl

theorem union_assoc (m n k : Mask) : (m.union n).union k = m.union (n.union k) :=
  eq_of_holds fun event => by simp only [holds_union, Bool.or_assoc]

theorem empty_union (m : Mask) : empty.union m = m :=
  eq_of_holds fun event => by rw [holds_union, holds_empty, Bool.false_or]

theorem union_empty (m : Mask) : m.union empty = m :=
  eq_of_holds fun event => by rw [holds_union, holds_empty, Bool.or_false]

/-! ### Words -/

/-- The word names an event, or all of them. -/
def NamesEvent (word : String) : Prop := ∃ event : EventKind, Text.lower word ∈ event.words

theorem holds_of_ofWord? (h : ofWord? word = some m) :
    m.holds event = true ↔ Text.lower word ∈ event.words := by
  unfold ofWord? at h
  split at h
  all_goals cases h
  all_goals cases event <;> simp_all [holds, empty, all, EventKind.words]

theorem mem_words_cases (h : word ∈ event.words) : word = "call" ∨ word = "return" ∨
    word = "ret" ∨ word = "line" ∨ word = "count" ∨ word = "all" := by
  have known : event.words ⊆ ["call", "return", "ret", "line", "count", "all"] := by
    cases event <;> simp [EventKind.words]
  simpa using known h

theorem exists_ofWord? (h : NamesEvent word) : ∃ m, ofWord? word = some m := by
  obtain ⟨event, named⟩ := h
  obtain h | h | h | h | h | h := mem_words_cases named
  all_goals simp [ofWord?, h]

theorem namesEvent_of_ofWord? (h : ofWord? word = some m) : NamesEvent word := by
  -- No word is read as the empty mask.
  have held : ∃ event : EventKind, m.holds event = true := by
    unfold ofWord? at h
    split at h
    all_goals cases h
    exacts [⟨.call, rfl⟩, ⟨.ret, rfl⟩, ⟨.ret, rfl⟩, ⟨.line, rfl⟩, ⟨.count, rfl⟩, ⟨.call, rfl⟩]
  obtain ⟨event, holds⟩ := held
  exact ⟨event, (holds_of_ofWord? h).mp holds⟩

theorem ofWord?_eq_none_iff : ofWord? word = none ↔ ¬ NamesEvent word := by
  constructor
  · intro unknown named
    obtain ⟨m, found⟩ := exists_ofWord? named
    rw [unknown] at found
    cases found
  · intro unnamed
    exact Option.eq_none_iff_forall_ne_some.mpr fun m found =>
      unnamed (namesEvent_of_ofWord? found)

theorem isPlain_of_mem_words (h : word ∈ event.words) : Text.IsPlain word := by
  obtain rfl | rfl | rfl | rfl | rfl | rfl := mem_words_cases h
  all_goals simp [Text.IsPlain, Text.isBlank]

theorem isSeparator_iff {c : Char} : isSeparator c = true ↔ c.toNat = 44 ∨ c.toNat = 124 := by
  simp [isSeparator, ← Char.toNat_inj]

theorem isSeparator_toLower (c : Char) : isSeparator c.toLower = isSeparator c := by
  obtain same | letters := Text.toLower_cases c
  · rw [same]
  · rw [Bool.eq_iff_iff, isSeparator_iff, isSeparator_iff]
    omega

theorem isWord_lower_iff :
    Text.IsWord isSeparator (Text.lower word) ↔ Text.IsWord isSeparator word :=
  Text.isWord_lower_iff isSeparator_toLower

theorem isWord_of_mem_words (h : word ∈ event.words) : Text.IsWord isSeparator word := by
  obtain rfl | rfl | rfl | rfl | rfl | rfl := mem_words_cases h
  all_goals
    exact ⟨by simp, by simp [isSeparator], by simp [Text.isBlank], by simp [Text.isBlank]⟩

theorem isWord_of_namesEvent (h : NamesEvent word) : Text.IsWord isSeparator word :=
  h.elim fun _ named => isWord_lower_iff.mp (isWord_of_mem_words named)

/-! ### Masks named by words -/

/-- Each of the words names an event, and the mask holds the events that they name. -/
structure NamedBy (m : Mask) (words : List String) : Prop where
  known : ∀ word ∈ words, ∃ event : EventKind, Text.lower word ∈ event.words
  named : ∀ event, m.holds event = true ↔ ∃ word ∈ words, Text.lower word ∈ event.words

theorem ofWords_eq_ok_iff {start : Mask} :
    ofWords start words = .ok m ↔ (∀ word ∈ words, NamesEvent word) ∧ ∀ event,
      m.holds event = true ↔
        start.holds event = true ∨ ∃ word ∈ words, Text.lower word ∈ event.words := by
  induction words generalizing start with
  | nil =>
    simp only [ofWords, Except.ok.injEq, List.not_mem_nil, false_and, exists_false, or_false,
      IsEmpty.forall_iff, implies_true, true_and]
    constructor
    · rintro rfl event
      rfl
    · exact fun h => eq_of_holds fun event => Bool.eq_iff_iff.mpr (h event).symm
  | cons word words ih =>
    rw [ofWords]
    cases found : ofWord? word with
    | none => simp [ofWord?_eq_none_iff.mp found]
    | some n =>
      simp only [ih, holds_union, Bool.or_eq_true, holds_of_ofWord? found, or_assoc,
        List.forall_mem_cons, List.exists_mem_cons_iff, namesEvent_of_ofWord? found, true_and]

theorem ofWords_empty_eq_ok_iff : ofWords empty words = .ok m ↔ m.NamedBy words := by
  rw [ofWords_eq_ok_iff]
  simp only [holds_empty, Bool.false_eq_true, false_or]
  exact ⟨fun h => ⟨h.1, h.2⟩, fun h => ⟨h.known, h.named⟩⟩

/-- What may stand between names. -/
def separators : List String := [",", "|"]

theorem exists_isSeparator (h : sep ∈ separators) :
    ∃ c, sep.toList = [c] ∧ isSeparator c = true := by
  simp only [separators, List.mem_cons, List.not_mem_nil, or_false] at h
  obtain rfl | rfl := h
  · exact ⟨',', by simp, rfl⟩
  · exact ⟨'|', by simp, rfl⟩

theorem mem_separators {c : Char} (h : isSeparator c = true) : c.toString ∈ separators := by
  simp only [isSeparator, Bool.or_eq_true, beq_iff_eq] at h
  obtain rfl | rfl := h <;> decide

/-- The names may stand in any order, in letters of either case, and more than once. -/
theorem NamedBy.read (h : m.NamedBy words) (hsep : sep ∈ separators) :
    Mask.read (sep.intercalate words) = .ok m := by
  obtain ⟨c, single, separates⟩ := exists_isSeparator hsep
  rw [Mask.read, Text.words_intercalate single separates fun word mem =>
    isWord_of_namesEvent (h.known word mem)]
  exact ofWords_empty_eq_ok_iff.mpr h

theorem NamedBy.isPlain (h : m.NamedBy words) : Text.IsPlain (",".intercalate words) := by
  refine .intercalate (by simp [Text.IsPlain, Text.isBlank]) fun word mem => ?_
  obtain ⟨event, known⟩ := h.known word mem
  exact Text.isPlain_of_lower (isPlain_of_mem_words known)

theorem namedBy_names (m : Mask) : m.NamedBy m.names := by
  rw [← ofWords_empty_eq_ok_iff]
  obtain ⟨call, ret, line, count⟩ := m
  cases call <;> cases ret <;> cases line <;> cases count <;> rfl

/-- Each mask is read from the list of its names. -/
theorem read_names (m : Mask) (hsep : sep ∈ separators) :
    read (sep.intercalate m.names) = .ok m :=
  (namedBy_names m).read hsep

end Mask

end ScriptHost
