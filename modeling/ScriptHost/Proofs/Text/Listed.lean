import ScriptHost.Text.Words

/-! Words written as one text with separators between them, and read again. -/

namespace ScriptHost

namespace Text

variable {sep : Char → Bool} {c : Char}

theorem piecesBy_eq_splitOnP (cs : List Char) : piecesBy sep cs = cs.splitOnP sep := by
  induction cs with
  | nil => exact List.splitOnP_nil.symm
  | cons c cs ih =>
    rw [piecesBy, List.splitOnP_cons_eq_if_modifyHead, ih]
    split
    · rfl
    · obtain ⟨w, ws, h⟩ := List.exists_cons_of_ne_nil (List.splitOnP_ne_nil sep cs)
      rw [h]
      rfl

/-- Between separators the pieces are what they were. -/
theorem piecesBy_intercalate (hc : sep c = true) {ls : List (List Char)} (hne : ls ≠ [])
    (hl : ∀ l ∈ ls, ∀ d ∈ l, sep d = false) : piecesBy sep ([c].intercalate ls) = ls := by
  rw [piecesBy_eq_splitOnP]
  induction ls with
  | nil => exact absurd rfl hne
  | cons l ls ih =>
    obtain ⟨first, others⟩ := List.forall_mem_cons.mp hl
    cases ls with
    | nil => simpa using List.splitOnP_eq_singleton first
    | cons l' ls =>
      rw [List.intercalate_cons_cons, List.append_assoc, List.singleton_append,
        List.splitOnP_append_cons_of_forall_mem first c hc, ih (List.cons_ne_nil _ _) others]

/-- A text that is one word as it stands: there is no separator in it, and no blank at its ends. -/
structure IsWord (sep : Char → Bool) (s : String) : Prop where
  nonempty : s ≠ ""
  unseparated : ∀ c ∈ s.toList, sep c = false
  first : ∀ c ∈ s.toList.head?, isBlank c = false
  last : ∀ c ∈ s.toList.getLast?, isBlank c = false

theorem dropWhile_of_head {cs : List Char} (h : ∀ c ∈ cs.head?, isBlank c = false) :
    cs.dropWhile isBlank = cs := by
  cases cs with
  | nil => rfl
  | cons c cs => exact List.dropWhile_cons_of_neg (by simp [h c rfl])

theorem IsWord.trim {s : String} (h : IsWord sep s) : trim s = s := by
  have last : ∀ c ∈ s.toList.reverse.head?, isBlank c = false := by
    rw [List.head?_reverse]
    exact h.last
  rw [Text.trim, trimChars, dropWhile_of_head h.first, dropWhile_of_head last, List.reverse_reverse,
    String.ofList_toList]

/-- Words are read as they were written. -/
theorem words_intercalate {joint : String} (hj : joint.toList = [c]) (hc : sep c = true)
    {ws : List String} (hw : ∀ w ∈ ws, IsWord sep w) : words sep (joint.intercalate ws) = ws := by
  by_cases hne : ws = []
  · subst hne
    rfl
  have read : pieces sep (joint.intercalate ws) = ws := by
    rw [pieces, String.toList_intercalate, hj, piecesBy_intercalate hc]
    · simp
    · simpa using hne
    · simpa using fun w h => (hw w h).unseparated
  rw [words, read, List.map_congr_left fun w h => (hw w h).trim, List.map_id']
  exact List.filter_eq_self.mpr fun w h => decide_eq_true (hw w h).nonempty

/-- Lists on both sides of a separator are read one after the other. -/
theorem words_joined {joint s t : String} (hj : joint.toList = [c]) (hc : sep c = true) :
    words sep (s ++ joint ++ t) = words sep s ++ words sep t := by
  have parts : piecesBy sep (s ++ joint ++ t).toList =
      piecesBy sep s.toList ++ piecesBy sep t.toList := by
    simp only [piecesBy_eq_splitOnP, String.toList_append, hj, List.append_assoc,
      List.singleton_append]
    exact List.splitOnP_append_cons _ _ hc
  rw [words, pieces, parts, List.map_append, List.map_append, List.filter_append]
  rfl

theorem words_of_unseparated {s : String} (h : ∀ c ∈ s.toList, sep c = false) :
    words sep s = [trim s].filter (· ≠ "") := by
  rw [words, pieces, piecesBy_eq_splitOnP, List.splitOnP_eq_singleton h, List.map_singleton,
    String.ofList_toList, List.map_singleton]

end Text

end ScriptHost
