import ScriptHost.Proofs.CommandLine.Positions

/-! Options behind one dash or behind several. Wherever options are read, an option without a value
may be split off from the letters behind it, and a value from its letter. What comes after the
options is taken as it stands. -/

namespace ScriptHost.CommandLine

variable {cl : CommandLine} {b : Char} {bs cs : List Char} {argv argv' new rest : List String}
  {option : Valued} {i j j' : Nat} {p q : Place} {t : Item} {t? : Option Item} {told : List Item}

/-- The letters of options without a value. -/
def flags : List Char := ['d', 'p', 'r', 'n']

theorem exists_told_of_flag (h : b ∈ flags) : ∃ t, Item.ofLetter? b = some t := by
  simp only [flags, List.mem_cons, List.not_mem_nil, or_false] at h
  obtain rfl | rfl | rfl | rfl := h
  all_goals exact ⟨_, rfl⟩

/-! ### Splitting arguments -/

theorem readFrom_split_flag (hb : b ∈ flags) (hc : cs ≠ []) (hd : cs ≠ ['-']) :
    readFrom cl (dashed [b] :: dashed cs :: rest) = readFrom cl (dashed (b :: cs) :: rest) := by
  obtain ⟨t, ht⟩ := exists_told_of_flag hb
  have letter : b ≠ '-' := by
    rintro rfl
    cases ht
  have alone : [b] ≠ ['-'] := by simp [letter]
  have together : b :: cs ≠ ['-'] := by simp [letter]
  calc readFrom cl (dashed [b] :: dashed cs :: rest)
      = readFrom (cl.tell t) (dashed cs :: rest) := by
        rw [readFrom_dashed (List.cons_ne_nil _ _) alone, readLetters_flag ht, readLetters_nil]
    _ = readLetters (cl.tell t) cs rest := readFrom_dashed hc hd
    _ = readFrom cl (dashed (b :: cs) :: rest) := by
        rw [readFrom_dashed (List.cons_ne_nil _ _) together, readLetters_flag ht]

theorem readLetters_split_value (hb : ∀ b ∈ bs, b ∈ flags) (hc : cs ≠ []) :
    readLetters cl (bs ++ [option.letter]) (String.ofList cs :: rest) =
      readLetters cl (bs ++ option.letter :: cs) rest := by
  induction bs generalizing cl with
  | nil =>
    rw [List.nil_append, List.nil_append, readLetters_apart, readLetters_attached hc]
  | cons b bs ih =>
    obtain ⟨first, others⟩ := List.forall_mem_cons.mp hb
    obtain ⟨t, ht⟩ := exists_told_of_flag first
    rw [List.cons_append, List.cons_append, readLetters_flag ht, readLetters_flag ht, ih others]

theorem readFrom_split_value (hb : ∀ b ∈ bs, b ∈ flags) (hc : cs ≠ []) :
    readFrom cl (dashed (bs ++ [option.letter]) :: String.ofList cs :: rest) =
      readFrom cl (dashed (bs ++ option.letter :: cs) :: rest) := by
  have nonempty (tail : List Char) : bs ++ option.letter :: tail ≠ [] := by simp
  have letter (tail : List Char) : bs ++ option.letter :: tail ≠ ['-'] := by
    intro h
    have mem : option.letter ∈ ['-'] := by simp [← h]
    cases option <;> simp [Valued.letter] at mem
  rw [readFrom_dashed (nonempty []) (letter []), readFrom_dashed (nonempty cs) (letter cs),
    readLetters_split_value hb hc]

/-! ### In place -/

theorem move_argument : move argv (.argument i) =
    match argv[i]? with
    | none => .stop i
    | some arg =>
      if arg = "--" then .stop (i + 1)
      else match optionLetters? arg with
        | none => .stop i
        | some cs => .on none (.letter cs i 0) := by
  rw [move]
  cases here : argv[i]? with
  | none =>
    have past := List.getElem?_eq_none_iff.mp here
    exact if_neg (by omega)
  | some arg =>
    obtain ⟨hi, -⟩ := List.getElem?_eq_some_iff.mp here
    exact if_pos hi

theorem letterAt_congr (next : argv'[i + 1]? = argv[i + 1]?) :
    letterAt argv' cs i j = letterAt argv cs i j := by
  simp only [letterAt, valueAt_eq, fileAt_eq, next]

/-- An option that takes nothing from the next argument asks only whether that is a settings
file. -/
theorem letterAt_own
    (file : argv'[i + 1]?.filter looksLikeFile = argv[i + 1]?.filter looksLikeFile)
    (h : letterAt argv cs i j = some (.ok (t, i, j'))) :
    letterAt argv' cs i j = some (.ok (t, i, j')) := by
  cases hc : cs[j]? with
  | none => simp [letterAt, hc] at h
  | some c =>
    cases hf : Item.ofLetter? c with
    | some t => rwa [letterAt_flag hc hf] at h ⊢
    | none =>
      cases hv : Valued.ofLetter? c with
      | none =>
        by_cases hs : c = 'f'
        · subst hs
          rw [letterAt_file hc] at h ⊢
          rwa [file]
        · rw [letterAt_unknown hc hf hv hs] at h
          cases h
      | some option =>
        have letter : cs[j]? = some option.letter := Valued.letter_of_ofLetter? hv ▸ hc
        rw [letterAt_valued letter] at h ⊢
        -- A value apart would lead behind the next argument, so it is attached.
        by_cases hj : j + 1 < cs.length
        · rwa [if_pos hj] at h ⊢
        · rw [if_neg hj] at h
          cases hn : argv[i + 1]? with
          | none => simp [hn] at h
          | some value => cases ht : option.told value <;> simp [hn, ht, Except.map] at h

/-- The place is in front of argument `i`, or before it. -/
def Place.UpTo (i : Nat) (p : Place) : Prop := p.index < i ∨ p = .argument i

theorem filter_of_noFileAhead (h : NoFileAhead (argv.drop i)) :
    argv[i]?.filter looksLikeFile = none := by
  rw [Option.filter_eq_none_iff]
  intro next hn
  simp [h next (by rwa [List.head?_drop])]

/-- A letter of an earlier argument does not depend on what comes later. -/
theorem letterAt_local (same : ∀ k < i, argv'[k]? = argv[k]?) (ahead : NoFileAhead (argv.drop i))
    (ahead' : NoFileAhead (argv'.drop i)) {k k' : Nat} (hk : k ≤ k') (hi : k' < i)
    (h : letterAt argv cs k j = some (.ok (t, k', j'))) :
    letterAt argv' cs k j = some (.ok (t, k', j')) := by
  by_cases next : k + 1 < i
  · rw [letterAt_congr (same _ next), h]
  · -- the letters stand right in front of the argument, and nothing was taken from that
    have own : k' = k := by omega
    have front : k + 1 = i := by omega
    subst own front
    refine letterAt_own ?_ h
    rw [filter_of_noFileAhead ahead, filter_of_noFileAhead ahead']

/-- A move up to an argument does not depend on what comes after it. -/
theorem move_congr (same : ∀ k < i, argv'[k]? = argv[k]?) (ahead : NoFileAhead (argv.drop i))
    (ahead' : NoFileAhead (argv'.drop i)) (hp : p.Within argv) (hm : move argv p = .on t? q)
    (hq : q.UpTo i) : p.index < i ∧ move argv' p = .on t? q := by
  cases goes_of_move hp hm with
  | on _ after later _ _ =>
    -- Moves lead forward, so one that ends in front of the argument begins there.
    have before : p.index < i := by
      obtain less | front := hq
      · exact Nat.lt_of_le_of_lt after less
      · exact later i front
    refine ⟨before, ?_⟩
    cases p with
    | argument k =>
      rw [← hm, move_argument, move_argument, same k before]
    | letter cs k j =>
      by_cases hj : j < cs.length
      · rw [move, if_pos hj] at hm ⊢
        split at hm
        case h_1 => cases hm
        case h_2 => cases hm
        case h_3 t k' j' hl =>
          cases hm
          have later : k ≤ k' := after
          have inside : k' < i := hq.resolve_right (by rintro ⟨⟩)
          rw [letterAt_local same ahead ahead' later inside hl]
      · rw [move, if_neg hj] at hm ⊢
        exact hm

/-- Places up to an argument are reached whatever comes after it. -/
theorem Reaches.congr (same : ∀ k < i, argv'[k]? = argv[k]?) (ahead : NoFileAhead (argv.drop i))
    (ahead' : NoFileAhead (argv'.drop i)) (h : Reaches argv p told) (hp : p.UpTo i) :
    Reaches argv' p told := by
  induction h with
  | start => exact .start
  | next h hm ih =>
    obtain ⟨before, moved⟩ := move_congr same ahead ahead' h.spec.1 hm hp
    exact .next (ih (.inl before)) moved

/-- What is read alike may take the place of all arguments from one on that the loop reaches. -/
theorem read_replace (h : Reaches argv (.argument i) told) (ahead : NoFileAhead (argv.drop i))
    (ahead' : NoFileAhead new) (alike : ∀ cl, readFrom cl new = readFrom cl (argv.drop i)) :
    read (argv.take i ++ new) = read argv := by
  obtain ⟨within, read_eq⟩ := h.spec
  have length : (argv.take i).length = i := List.length_take_of_le within
  have rest : (argv.take i ++ new).drop i = new := List.drop_left' length
  have same : ∀ k < i, (argv.take i ++ new)[k]? = argv[k]? := by
    intro k hk
    rw [List.getElem?_append_left (by omega), List.getElem?_take_of_lt hk]
  have reached : Reaches (argv.take i ++ new) (.argument i) told :=
    h.congr same ahead (rest.symm ▸ ahead') (.inr rfl)
  rw [reached.spec.2, read_eq, readAt, readAt, rest, alike]

/-! ### The script -/

/-- The argument holds options, or ends them. -/
def IsOption (arg : String) : Prop := ∃ cs, cs ≠ [] ∧ arg = dashed cs

theorem read_of_not_isOption {arg : String} (h : Reaches argv (.argument i) told)
    (here : argv[i]? = some arg) (plain : ¬ IsOption arg) :
    read argv = .ok ((initial.tellAll told).withScript (argv.drop i)) := by
  have ending : arg ≠ "--" := by
    rintro rfl
    exact plain ⟨['-'], by simp, rfl⟩
  have none_found : optionLetters? arg = none := by
    rw [Option.eq_none_iff_forall_ne_some]
    intro cs hcs
    exact plain ⟨cs, optionLetters?_eq_some.mp hcs⟩
  refine (Comes.stop h ?_).read_eq
  rw [move_argument, here]
  simp [ending, none_found]

theorem read_of_end (h : Reaches argv (.argument i) told) (here : argv[i]? = some "--") :
    read argv = .ok ((initial.tellAll told).withScript (argv.drop (i + 1))) := by
  refine (Comes.stop h ?_).read_eq
  rw [move_argument, here]
  rfl

/-- Options mean the same behind one dash or several, with values attached or apart, and nothing is
read into what comes after them. The loop that reads them stays in range. -/
theorem spellings_agree (argv : List String) :
    (∀ i told, Reaches argv (.argument i) told →
      (∀ b ∈ flags, ∀ cs, cs ≠ [] → cs ≠ ['-'] → argv[i]? = some (dashed (b :: cs)) →
        read (argv.take i ++ dashed [b] :: dashed cs :: argv.drop (i + 1)) = read argv) ∧
      (∀ bs (option : Valued) cs, (∀ b ∈ bs, b ∈ flags) → cs ≠ [] →
        argv[i]? = some (dashed (bs ++ option.letter :: cs)) →
        read (argv.take i ++ dashed (bs ++ [option.letter]) :: String.ofList cs ::
          argv.drop (i + 1)) = read argv) ∧
      (∀ script, argv[i]? = some script → ¬ IsOption script →
        read argv = .ok { initial.tellAll told with
          script := some script, arguments := argv.drop (i + 1) }) ∧
      (∀ script, argv[i]? = some "--" → argv[i + 1]? = some script →
        read argv = .ok { initial.tellAll told with
          script := some script, arguments := argv.drop (i + 2) })) ∧
    (∀ p told, Reaches argv p told → p.Within argv ∧ move argv p ≠ .stray) ∧
    Comes argv (read argv) := by
  refine ⟨fun i told h => ?_, fun p told h => ⟨h.spec.1, h.not_stray⟩, comes_iff.mpr rfl⟩
  have from_here {arg : String} (here : argv[i]? = some arg) :
      argv.drop i = arg :: argv.drop (i + 1) := drop_eq_cons here
  refine ⟨fun b hb cs hc hd here => ?_, fun bs option cs hb hc here => ?_,
    fun script here plain => ?_, fun script here next => ?_⟩
  · refine read_replace h ?_ noFileAhead_dashed fun cl => ?_
    · rw [from_here here]
      exact noFileAhead_dashed
    · rw [from_here here, readFrom_split_flag hb hc hd]
  · refine read_replace h ?_ noFileAhead_dashed fun cl => ?_
    · rw [from_here here]
      exact noFileAhead_dashed
    · rw [from_here here, readFrom_split_value hb hc]
  · rw [read_of_not_isOption h here plain, from_here here, withScript]
  · rw [read_of_end h here, drop_eq_cons next, withScript]

theorem spellings_agree_together :
    read ["-d", "-n", "-pcx", "--", "-s", "-d"] = read ["-dn", "-pcx", "--", "-s", "-d"] ∧
    read ["-dn", "-pc", "x", "--", "-s", "-d"] = read ["-dn", "-pcx", "--", "-s", "-d"] ∧
    read ["-dn", "-pcx", "--", "-s", "-d"] =
      .ok ⟨some .permissive, .search, [], true, none, some "x", true, some "-s", ["-d"]⟩ := by
  let argv : List String := ["-dn", "-pcx", "--", "-s", "-d"]
  have step {p q : Place} {told : List Item} (t? : Option Item) (h : Reaches argv p told)
      (hm : move argv p = .on t? q) : Reaches argv q (told ++ t?.toList) := h.next hm
  have first : Reaches argv (.argument 1) [.debug, .bare] :=
    step none (step (some .bare) (step (some .debug) (step none .start rfl) rfl) rfl) rfl
  have second : Reaches argv (.argument 2) [.debug, .bare, .mode .permissive, .command "x"] :=
    step none (step (some (.command "x")) (step (some (.mode .permissive)) (step none first rfl)
      rfl) rfl) rfl
  obtain ⟨agree, -, -⟩ := spellings_agree argv
  refine ⟨?_, ?_, ?_⟩
  · exact (agree 0 [] .start).1 'd' (by simp [flags]) ['n'] (by simp) (by simp) rfl
  · exact (agree 1 _ first).2.1 ['p'] .command ['x'] (by simp [flags]) (by simp) rfl
  · exact (agree 2 _ second).2.2.2 "-s" rfl rfl

end ScriptHost.CommandLine
