import Mathlib.Data.List.DropRight
import Mathlib.Data.List.TakeDrop
import ScriptHost.Proofs.Text.Listed

/-! The lines of a text, what blanks at the ends of a text leave of it, and letters of either
case. -/

namespace ScriptHost.Text

variable {c : Char} {bs cs : List Char} {s t l : String}

/-! ### Lines -/

/-- Every line of the text is ended. -/
def IsEnded (s : String) : Prop := ∀ c ∈ s.toList.getLast?, c = '\n'

/-- The lines of a text behind which a line feed stands. -/
def linesFed (s : String) : List String :=
  (piecesBy (· == '\n') s.toList).map fun l => String.ofList (dropReturn l)

theorem linesOf_append {ls ls' : List (List Char)} (h : ls' ≠ []) :
    linesOf (ls ++ ls') = ls.map (fun l => String.ofList (dropReturn l)) ++ linesOf ls' := by
  induction ls with
  | nil => rfl
  | cons l ls ih =>
    obtain ⟨l', rest, more⟩ := List.exists_cons_of_ne_nil (List.append_ne_nil_of_right_ne_nil ls h)
    rw [List.cons_append, more, linesOf, ← more, ih, List.map_cons, List.cons_append]
    exact List.cons_ne_nil _ _

theorem piecesBy_ne_nil (sep : Char → Bool) (cs : List Char) : piecesBy sep cs ≠ [] := by
  rw [piecesBy_eq_splitOnP]
  exact List.splitOnP_ne_nil sep cs

theorem lines_feed (s t : String) : lines (s ++ "\n" ++ t) = linesFed s ++ lines t := by
  have parts : piecesBy (· == '\n') (s ++ "\n" ++ t).toList =
      piecesBy (· == '\n') s.toList ++ piecesBy (· == '\n') t.toList := by
    simp only [piecesBy_eq_splitOnP, String.toList_append]
    rw [List.append_assoc]
    exact List.splitOnP_append_cons _ _ rfl
  rw [lines, parts, linesOf_append (piecesBy_ne_nil _ _), linesFed, lines]

theorem lines_append (h : IsEnded s) (t : String) : lines (s ++ t) = lines s ++ lines t := by
  by_cases hs : s = ""
  · subst hs
    simp [lines, piecesBy, linesOf]
  · obtain ⟨c, hc⟩ := Option.isSome_iff_exists.mp
      (List.getLast?_isSome.mpr (String.toList_eq_nil_iff.not.mpr hs))
    obtain rfl := h c hc
    have ended : s = String.ofList s.toList.dropLast ++ "\n" := by
      apply String.toList_injective
      rw [String.toList_append, String.toList_ofList]
      exact (List.dropLast_append_getLast? _ hc).symm
    have alone := lines_feed (String.ofList s.toList.dropLast) ""
    have together := lines_feed (String.ofList s.toList.dropLast) t
    rw [String.append_empty, ← ended] at alone
    rw [← ended] at together
    rw [together, alone, List.append_assoc]
    rfl

/-! ### Blanks -/

def IsBlanks (s : String) : Prop := ∀ c ∈ s.toList, isBlank c = true

theorem isBlanks_empty : IsBlanks "" := by
  simp [IsBlanks]

theorem IsBlanks.append (hs : IsBlanks s) (ht : IsBlanks t) : IsBlanks (s ++ t) := by
  intro c hc
  rw [String.toList_append, List.mem_append] at hc
  exact hc.elim (hs c) (ht c)

theorem trimChars_eq (cs : List Char) :
    trimChars cs = (cs.dropWhile isBlank).rdropWhile isBlank := rfl

theorem rdropWhile_append_blanks (hb : ∀ c ∈ bs, isBlank c = true) :
    (cs ++ bs).rdropWhile isBlank = cs.rdropWhile isBlank := by
  rw [List.rdropWhile, List.reverse_append, List.dropWhile_append_of_pos, List.rdropWhile]
  simpa using hb

theorem trimChars_blanks_append (hb : ∀ c ∈ bs, isBlank c = true) :
    trimChars (bs ++ cs) = trimChars cs := by
  rw [trimChars_eq, List.dropWhile_append_of_pos hb, trimChars_eq]

theorem trimChars_append_blanks (hb : ∀ c ∈ bs, isBlank c = true) :
    trimChars (cs ++ bs) = trimChars cs := by
  rw [trimChars_eq, trimChars_eq, List.dropWhile_append]
  split
  case isTrue h =>
    rw [List.isEmpty_iff.mp h, List.dropWhile_eq_nil_iff.mpr hb]
  case isFalse => exact rdropWhile_append_blanks hb

theorem trim_blanks_append (ht : IsBlanks t) : trim (t ++ s) = trim s := by
  rw [trim, String.toList_append, trimChars_blanks_append ht, trim]

theorem trim_append_blanks (ht : IsBlanks t) : trim (s ++ t) = trim s := by
  rw [trim, String.toList_append, trimChars_append_blanks ht, trim]

theorem rdropWhile_append_cons (hc : isBlank c = false) (cs : List Char) :
    (bs ++ c :: cs).rdropWhile isBlank = bs ++ c :: cs.rdropWhile isBlank := by
  simp only [List.rdropWhile, List.reverse_append, List.reverse_cons, List.append_assoc,
    List.singleton_append, List.dropWhile_append]
  split
  case isTrue h => simp [List.isEmpty_iff.mp h, hc]
  case isFalse => simp

/-- Between two characters that are no blanks nothing is lost. -/
theorem trimChars_between {d : Char} (hc : isBlank c = false) (hd : isBlank d = false)
    (cs bs : List Char) :
    trimChars (c :: cs ++ d :: bs) = c :: cs ++ d :: bs.rdropWhile isBlank := by
  rw [trimChars_eq, List.cons_append, List.dropWhile_cons_of_neg (by simp [hc]),
    ← List.cons_append, rdropWhile_append_cons hd]

theorem trimChars_rdropWhile (cs : List Char) :
    trimChars (cs.rdropWhile isBlank) = trimChars cs := by
  have blanks : ∀ c ∈ cs.rtakeWhile isBlank, isBlank c = true := fun c => List.mem_rtakeWhile_imp
  rw [← trimChars_append_blanks blanks, List.rdropWhile_append_rtakeWhile]

/-- There are no blanks in the text, and no quotes. -/
def IsPlain (s : String) : Prop := ∀ c ∈ s.toList, isBlank c = false ∧ c ≠ '"'

theorem IsPlain.trim (h : IsPlain s) : trim s = s := by
  have first : ∀ c ∈ s.toList.head?, isBlank c = false := fun c hc => (h c (List.mem_of_head? hc)).1
  have last : ∀ c ∈ s.toList.reverse.head?, isBlank c = false := fun c hc =>
    (h c (List.mem_reverse.mp (List.mem_of_head? hc))).1
  rw [Text.trim, trimChars, dropWhile_of_head first, dropWhile_of_head last, List.reverse_reverse,
    String.ofList_toList]

theorem IsPlain.append (hs : IsPlain s) (ht : IsPlain t) : IsPlain (s ++ t) := by
  intro c hc
  rw [String.toList_append, List.mem_append] at hc
  exact hc.elim (hs c) (ht c)

theorem IsPlain.intercalate {ws : List String} (hs : IsPlain s) (hw : ∀ w ∈ ws, IsPlain w) :
    IsPlain (s.intercalate ws) := by
  induction ws with
  | nil => simp [IsPlain]
  | cons w ws ih =>
    obtain ⟨first, others⟩ := List.forall_mem_cons.mp hw
    cases ws with
    | nil => rwa [String.intercalate_singleton]
    | cons w' ws =>
      rw [String.intercalate_cons_cons]
      exact (first.append hs).append (ih others)

theorem trim_of_isBlanks (h : IsBlanks s) : trim s = "" := by
  have bare := trim_blanks_append (s := "") h
  rw [String.append_empty] at bare
  rw [bare]
  rfl

/-- A text is what trimming leaves of it, with blanks around. -/
theorem exists_blanks_trim (s : String) :
    ∃ front back, IsBlanks front ∧ IsBlanks back ∧ s = front ++ trim s ++ back := by
  refine ⟨String.ofList (s.toList.takeWhile isBlank),
    String.ofList ((s.toList.dropWhile isBlank).rtakeWhile isBlank), ?_, ?_, ?_⟩
  · intro c hc
    rw [String.toList_ofList] at hc
    exact List.mem_takeWhile_imp hc
  · intro c hc
    rw [String.toList_ofList] at hc
    exact List.mem_rtakeWhile_imp hc
  · apply String.toList_injective
    simp only [String.toList_append, String.toList_ofList, trim, trimChars_eq, List.append_assoc,
      List.rdropWhile_append_rtakeWhile, List.takeWhile_append_dropWhile]

/-- What trimming leaves of a text without separators is one word, if it is anything. -/
theorem isWord_trim {sep : Char → Bool} (nonempty : trim s ≠ "")
    (h : ∀ c ∈ s.toList, sep c = false) : IsWord sep (trim s) := by
  obtain ⟨front, back, -, -, parts⟩ := exists_blanks_trim s
  refine ⟨nonempty, fun c hc => h c (by rw [parts]; simp [hc]), fun c hc => ?_, fun c hc => ?_⟩
  all_goals rw [trim, String.toList_ofList, trimChars_eq] at hc
  · obtain ⟨rest, whole⟩ := List.rdropWhile_prefix isBlank (s.toList.dropWhile isBlank)
    have first : c ∈ (s.toList.dropWhile isBlank).head? :=
      whole ▸ List.mem_head?_append_of_mem_head? hc
    have stop := List.head?_dropWhile_not isBlank s.toList
    rwa [first] at stop
  · obtain ⟨some_left, rfl⟩ := List.mem_getLast?_eq_getLast hc
    simpa using List.rdropWhile_last_not isBlank _ some_left

/-! ### Letters of either case -/

theorem lower_append (s t : String) : lower (s ++ t) = lower s ++ lower t := by
  simp [lower]

/-- Only capitals are changed, into small letters. -/
theorem toLower_cases (c : Char) : c.toLower = c ∨
    (65 ≤ c.toNat ∧ c.toNat ≤ 90) ∧ 97 ≤ c.toLower.toNat ∧ c.toLower.toNat ≤ 122 := by
  by_cases capital : c.val ≥ 'A'.val ∧ c.val ≤ 'Z'.val
  case neg => exact .inl (dif_neg capital)
  case pos =>
    have low : 65 ≤ c.val.toNat := UInt32.le_iff_toNat_le.mp capital.1
    have high : c.val.toNat ≤ 90 := UInt32.le_iff_toNat_le.mp capital.2
    have small : c.toLower.val.toNat = c.val.toNat + 32 := by
      have shifted : c.toLower.val = c.val + ('a'.val - 'A'.val) :=
        congrArg Char.val (dif_pos capital)
      have distance : ('a'.val - 'A'.val).toNat = 32 := rfl
      rw [shifted, UInt32.toNat_add, distance]
      omega
    right
    simp only [Char.toNat]
    omega

theorem toLower_of_isBlank (h : isBlank c = true) : c.toLower = c := by
  obtain same | ⟨capital, -⟩ := toLower_cases c
  · exact same
  · simp [isBlank] at h
    omega

theorem isBlank_toLower (c : Char) : isBlank c.toLower = isBlank c := by
  obtain same | ⟨capital, small⟩ := toLower_cases c
  · rw [same]
  · have solid : isBlank c = false := by
      simp [isBlank]
      omega
    rw [solid]
    simp [isBlank]
    omega

theorem lower_of_isBlanks (h : IsBlanks s) : lower s = s := by
  rw [lower, List.map_congr_left fun c hc => toLower_of_isBlank (h c hc), List.map_id',
    String.ofList_toList]

/-- A word is one in letters of either case, if no letters are separators. -/
theorem isWord_lower_iff {sep : Char → Bool} (hsep : ∀ c, sep c.toLower = sep c) :
    IsWord sep (lower s) ↔ IsWord sep s := by
  have letters : (lower s).toList = s.toList.map Char.toLower := by
    rw [lower, String.toList_ofList]
  have bare : lower s = "" ↔ s = "" := by
    rw [← String.toList_eq_nil_iff, letters, List.map_eq_nil_iff, String.toList_eq_nil_iff]
  have unseparated : (∀ c ∈ (lower s).toList, sep c = false) ↔ ∀ c ∈ s.toList, sep c = false := by
    simp [letters, hsep]
  have first : (∀ c ∈ (lower s).toList.head?, isBlank c = false) ↔
      ∀ c ∈ s.toList.head?, isBlank c = false := by
    simp [letters, isBlank_toLower]
  have last : (∀ c ∈ (lower s).toList.getLast?, isBlank c = false) ↔
      ∀ c ∈ s.toList.getLast?, isBlank c = false := by
    simp [letters, isBlank_toLower]
  constructor
  · exact fun h =>
      ⟨mt bare.mpr h.nonempty, unseparated.mp h.unseparated, first.mp h.first, last.mp h.last⟩
  · exact fun h =>
      ⟨mt bare.mp h.nonempty, unseparated.mpr h.unseparated, first.mpr h.first, last.mpr h.last⟩

/-- Capitals are plain if the small letters are. -/
theorem isPlain_of_lower (h : IsPlain (lower s)) : IsPlain s := by
  intro c hc
  have small : c.toLower ∈ (lower s).toList := by
    rw [lower, String.toList_ofList]
    exact List.mem_map_of_mem hc
  obtain ⟨solid, quote⟩ := h _ small
  rw [isBlank_toLower] at solid
  refine ⟨solid, ?_⟩
  rintro rfl
  exact quote rfl

/-! ### Texts written line by line -/

/-- The text has these lines, each ended in one of two ways; the last one need not be ended. -/
inductive Written : List String → String → Prop
  | nil : Written [] ""
  | last {l : String} (h : '\n' ∉ l.toList) (nonempty : l ≠ "") : Written [l] l
  | fed {l t : String} {ls : List String} (h : '\n' ∉ l.toList) (rest : Written ls t) :
      Written (l :: ls) (l ++ "\n" ++ t)
  | returned {l t : String} {ls : List String} (h : '\n' ∉ l.toList) (rest : Written ls t) :
      Written (l :: ls) (l ++ "\r\n" ++ t)

theorem piecesBy_of_notMem (h : '\n' ∉ cs) : piecesBy (· == '\n') cs = [cs] := by
  rw [piecesBy_eq_splitOnP]
  refine List.splitOnP_eq_singleton fun c hc => ?_
  rw [beq_eq_false_iff_ne]
  exact ne_of_mem_of_not_mem hc h

theorem lines_of_notMem (h : '\n' ∉ l.toList) (nonempty : l ≠ "") : lines l = [l] := by
  rw [lines, piecesBy_of_notMem h, linesOf, if_neg (String.toList_eq_nil_iff.not.mpr nonempty),
    String.ofList_toList]

theorem linesFed_of_notMem (h : '\n' ∉ l.toList) :
    linesFed l = [String.ofList (dropReturn l.toList)] := by
  rw [linesFed, piecesBy_of_notMem h, List.map_singleton]

theorem isBlanks_return : IsBlanks "\r" := by
  simp [IsBlanks, isBlank]

theorem trim_dropReturn (cs : List Char) :
    trim (String.ofList (dropReturn cs)) = trim (String.ofList cs) := by
  unfold dropReturn
  split
  case isFalse => rfl
  case isTrue h =>
    have split : String.ofList cs = String.ofList cs.dropLast ++ "\r" := by
      rw [← List.dropLast_append_getLast? _ h, String.ofList_append, List.dropLast_concat]
    rw [split, trim_append_blanks isBlanks_return]

theorem Written.trim_lines {ls : List String} (h : Written ls t) :
    (lines t).map trim = ls.map trim := by
  induction h with
  | nil => rfl
  | last h nonempty => rw [lines_of_notMem h nonempty]
  | fed h _ ih =>
    rw [lines_feed, linesFed_of_notMem h, List.map_append, ih, List.map_singleton, trim_dropReturn,
      String.ofList_toList]
    rfl
  | @returned l t ls h _ ih =>
    have still : '\n' ∉ (l ++ "\r").toList := by simpa using h
    have parts : l ++ "\r\n" ++ t = l ++ "\r" ++ "\n" ++ t := by
      apply String.toList_injective
      simp
    rw [parts, lines_feed, linesFed_of_notMem still, List.map_append, ih, List.map_singleton,
      trim_dropReturn, String.ofList_toList, trim_append_blanks isBlanks_return]
    rfl

/-! ### Cuts -/

/-- A text is cut at the first place where it can be. -/
theorem cutAt_eq_some_iff {sep : Char} {before after : String} :
    cutAt sep s = some (before, after) ↔
      s.toList = before.toList ++ sep :: after.toList ∧ sep ∉ before.toList := by
  rw [cutAt, List.span_eq_takeWhile_dropWhile]
  constructor
  · intro h
    split at h
    case h_1 => cases h
    case h_2 l d r parts =>
      cases h
      obtain ⟨rfl, rest⟩ := Prod.mk.inj parts
      have stop : d = sep := by
        have failed := List.head?_dropWhile_not (· ≠ sep) s.toList
        rw [rest] at failed
        simpa using failed
      have whole := List.takeWhile_append_dropWhile (p := (· ≠ sep)) (l := s.toList)
      rw [rest, stop] at whole
      simp only [String.toList_ofList]
      refine ⟨whole.symm, fun mem => ?_⟩
      simpa using List.mem_takeWhile_imp mem
  · rintro ⟨whole, apart⟩
    have accepted : ∀ c ∈ before.toList, decide (c ≠ sep) = true := fun c hc =>
      decide_eq_true (ne_of_mem_of_not_mem hc apart)
    rw [whole, List.takeWhile_append_of_pos accepted, List.dropWhile_append_of_pos accepted,
      List.takeWhile_cons_of_neg (by simp), List.dropWhile_cons_of_neg (by simp)]
    simp

end ScriptHost.Text
