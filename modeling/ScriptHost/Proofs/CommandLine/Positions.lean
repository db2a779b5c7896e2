import ScriptHost.Proofs.CommandLine.Spelling

/-! The options of a command line told one after another, and the loop that finds them: it keeps a
position among the arguments and, within an argument, a position among its letters. It never looks
where there is nothing, comes to an end, and comes to what reading the command line gives. -/

namespace ScriptHost

/-- An option with its value. -/
inductive CommandLine.Item
  | mode (mode : AccessMode)
  | debug
  | bare
  | settings (file : SettingsFile)
  | libraries (names : List String)
  | trace (mask : Mask)
  | command (text : String)

open CommandLine (Item)

/-- The options that take no value. -/
def CommandLine.Item.ofLetter? : Char → Option Item
  | 'd' => some .debug
  | 'p' => some (.mode .permissive)
  | 'r' => some (.mode .restrictive)
  | 'n' => some .bare
  | _ => none

namespace Valued

def ofLetter? : Char → Option Valued
  | 'c' => some .command
  | 'l' => some .libraries
  | 't' => some .trace
  | _ => none

theorem letter_of_ofLetter? {c : Char} {option : Valued} (h : ofLetter? c = some option) :
    c = option.letter := by
  unfold ofLetter? at h
  split at h
  all_goals cases h
  all_goals rfl

/-- What an option tells with a value. -/
def told (option : Valued) (value : String) : Except UsageError Item :=
  match option with
  | command => .ok (.command value)
  | libraries => .ok (.libraries (Text.items value))
  | trace => (Mask.read value).mapError .badEvent |>.map .trace

end Valued

namespace CommandLine

def tell (cl : CommandLine) : Item → CommandLine
  | .mode mode => { cl with mode := some mode }
  | .debug => { cl with debug := true }
  | .bare => { cl with bare := true }
  | .settings file => { cl with settings := file }
  | .libraries names => { cl with libraries := cl.libraries ++ names }
  | .trace mask => { cl with trace := some mask }
  | .command text => { cl with command := some text }

def tellAll (cl : CommandLine) (told : List Item) : CommandLine := told.foldl tell cl

variable {cl : CommandLine} {c : Char} {cs : List Char} {value : String} {argv rest : List String}
  {option : Valued} {t : Item}

theorem give_eq : cl.give option value = (option.told value).map cl.tell := by
  cases option with
  | command | libraries => rfl
  | trace =>
    rw [give, Valued.told]
    cases Mask.read value <;> rfl

/-! ### Reading from within an argument -/

/-- Gathers what the letters before still want, and then the other arguments. -/
def readWanted (cl : CommandLine) : Wanted → List String → Except UsageError CommandLine
  | .nothing, rest => readFrom cl rest
  | .value option, [] => .error (.missingValue option.letter)
  | .value option, value :: rest => cl.give option value >>= (readFrom · rest)
  | .file, [] => readFrom (cl.tell (.settings .skip)) []
  | .file, next :: rest =>
    if looksLikeFile next then readFrom (cl.tell (.settings (.file next))) rest
    else readFrom (cl.tell (.settings .skip)) (next :: rest)

/-- Gathers letters of an argument, and then the other arguments. -/
def readLetters (cl : CommandLine) (cs : List Char) (rest : List String) :
    Except UsageError CommandLine :=
  letters cl cs >>= fun (cl, wanted) => readWanted cl wanted rest

theorem readFrom_dashed (hc : cs ≠ []) (hd : cs ≠ ['-']) :
    readFrom cl (dashed cs :: rest) = readLetters cl cs rest := by
  rw [readFrom, if_neg (dashed_ne_end hd), optionLetters?_dashed hc, readLetters]
  dsimp only
  cases letters cl cs with
  | error e => rfl
  | ok found =>
    obtain ⟨cl, wanted⟩ := found
    cases wanted with
    | nothing => rfl
    | value option =>
      cases rest with
      | nil => rfl
      | cons value rest =>
        show _ = cl.give option value >>= (readFrom · rest)
        dsimp only
        cases cl.give option value <;> rfl
    | file =>
      cases rest with
      | nil => exact (readFrom.eq_1 _).symm
      | cons next rest => rfl

theorem readLetters_nil : readLetters cl [] rest = readFrom cl rest := rfl

theorem readLetters_flag (h : Item.ofLetter? c = some t) :
    readLetters cl (c :: cs) rest = readLetters (cl.tell t) cs rest := by
  unfold Item.ofLetter? at h
  split at h
  all_goals cases h
  all_goals rfl

theorem readLetters_attached (hc : cs ≠ []) :
    readLetters cl (option.letter :: cs) rest =
      cl.give option (String.ofList cs) >>= (readFrom · rest) := by
  rw [readLetters, letters_valued, giveRest, if_neg hc]
  cases cl.give option (String.ofList cs) <;> rfl

theorem readLetters_apart : readLetters cl [option.letter] (value :: rest) =
    cl.give option value >>= (readFrom · rest) := by
  cases option <;> rfl

theorem readLetters_missing :
    readLetters cl [option.letter] [] = .error (.missingValue option.letter) := by
  cases option <;> rfl

theorem readLetters_file (hc : cs ≠ []) : readLetters cl ('f' :: cs) rest =
    readFrom (cl.tell (.settings (.file (String.ofList cs)))) rest := by
  rw [readLetters, letters, if_neg hc]
  rfl

theorem readLetters_file_apart {next : String} (h : looksLikeFile next = true) :
    readLetters cl ['f'] (next :: rest) = readFrom (cl.tell (.settings (.file next))) rest := by
  show (if looksLikeFile next then _ else _) = _
  rw [if_pos h]

theorem readLetters_skip (h : NoFileAhead rest) :
    readLetters cl ['f'] rest = readFrom (cl.tell (.settings .skip)) rest := by
  cases rest with
  | nil => rfl
  | cons next rest =>
    show (if looksLikeFile next then _ else _) = _
    rw [if_neg (by simp [h next rfl])]

theorem readLetters_unknown (hf : Item.ofLetter? c = none) (hv : Valued.ofLetter? c = none)
    (hs : c ≠ 'f') : readLetters cl (c :: cs) rest = .error (.unknownOption c) := by
  have unknown : letters cl (c :: cs) = .error (.unknownOption c) := by
    unfold letters
    split <;> simp_all [Item.ofLetter?, Valued.ofLetter?]
  rw [readLetters, unknown]
  rfl

/-! ### The loop -/

/-- The rest of a list from a position on that may be its end, but no more. -/
def slice? {α : Type} (xs : List α) (k : Nat) : Option (List α) :=
  if k ≤ xs.length then some (xs.drop k) else none

/-- The value of an option: the other letters, or else the next argument. With it come the positions
of what was looked at last. -/
def valueAt (argv : List String) (cs : List Char) (i j : Nat) (option : Valued) :
    Option (Except UsageError (String × Nat × Nat)) :=
  if j + 1 < cs.length then
    (slice? cs (j + 1)).map fun rest => .ok (String.ofList rest, i, cs.length)
  else if i + 1 < argv.length then
    argv[i + 1]?.map fun value => .ok (value, i + 1, j)
  else some (.error (.missingValue option.letter))

/-- The choice of a settings file: the other letters, or else the next argument if that looks like
one. -/
def fileAt (argv : List String) (cs : List Char) (i j : Nat) :
    Option (SettingsFile × Nat × Nat) :=
  if j + 1 < cs.length then
    (slice? cs (j + 1)).map fun rest => (.file (String.ofList rest), i, cs.length)
  else if i + 1 < argv.length then
    argv[i + 1]?.map fun next =>
      if looksLikeFile next then (.file next, i + 1, j) else (.skip, i, j)
  else some (.skip, i, j)

/-- What one letter tells, and the positions after it. -/
def letterAt (argv : List String) (cs : List Char) (i j : Nat) :
    Option (Except UsageError (Item × Nat × Nat)) := do
  let c ← cs[j]?
  match Item.ofLetter? c with
  | some t => return .ok (t, i, j + 1)
  | none =>
    if c = 'f' then
      let (file, i, j) ← fileAt argv cs i j
      return .ok (.settings file, i, j + 1)
    else match Valued.ofLetter? c with
      | none => return .error (.unknownOption c)
      | some option =>
        match ← valueAt argv cs i j option with
        | .error e => return .error e
        | .ok (value, i, j) => return (option.told value).map (·, i, j + 1)

/-- Where the loop is. -/
inductive Place
  /-- In front of an argument. -/
  | argument (i : Nat)
  /-- In front of the letter `j` of argument `i`, which has the letters `cs`. -/
  | letter (cs : List Char) (i j : Nat)

/-- What the loop does next. -/
inductive Move
  | on (told : Option Item) (next : Place)
  /-- The script, if there is one, is at this position. -/
  | stop (script : Nat)
  | refuse (e : UsageError)
  /-- There is nothing at a position that was looked at. -/
  | stray

def move (argv : List String) : Place → Move
  | .argument i =>
    if i < argv.length then
      match argv[i]? with
      | none => .stray
      | some arg =>
        if arg = "--" then .stop (i + 1)
        else match optionLetters? arg with
          | none => .stop i
          | some cs => .on none (.letter cs i 0)
    else .stop i
  | .letter cs i j =>
    if j < cs.length then
      match letterAt argv cs i j with
      | none => .stray
      | some (.error e) => .refuse e
      | some (.ok (t, i, j)) => .on (some t) (.letter cs i j)
    else .on none (.argument (i + 1))

/-- The places that the loop comes to, with the options told until then. -/
inductive Reaches (argv : List String) : Place → List Item → Prop
  | start : Reaches argv (.argument 0) []
  | next {p q : Place} {told : List Item} {t? : Option Item} (h : Reaches argv p told)
      (hm : move argv p = .on t? q) : Reaches argv q (told ++ t?.toList)

variable {i j i' j' k : Nat} {p q : Place} {told : List Item} {t? : Option Item}

/-! ### Positions in range -/

theorem valueAt_eq : valueAt argv cs i j option = some (
    if j + 1 < cs.length then .ok (String.ofList (cs.drop (j + 1)), i, cs.length)
    else match argv[i + 1]? with
      | some value => .ok (value, i + 1, j)
      | none => .error (.missingValue option.letter)) := by
  unfold valueAt
  by_cases hj : j + 1 < cs.length
  · simp [hj, slice?, Nat.le_of_lt hj]
  · by_cases hi : i + 1 < argv.length
    · simp [hj, hi]
    · simp [hj, hi]

theorem fileAt_eq : fileAt argv cs i j = some (
    if j + 1 < cs.length then (.file (String.ofList (cs.drop (j + 1))), i, cs.length)
    else match argv[i + 1]?.filter looksLikeFile with
      | some next => (.file next, i + 1, j)
      | none => (.skip, i, j)) := by
  unfold fileAt
  by_cases hj : j + 1 < cs.length
  · simp [hj, slice?, Nat.le_of_lt hj]
  · by_cases hi : i + 1 < argv.length
    · cases hn : looksLikeFile argv[i + 1] <;> simp [hj, hi, hn, Option.filter]
    · simp [hj, hi]

theorem letterAt_flag (hc : cs[j]? = some c) (h : Item.ofLetter? c = some t) :
    letterAt argv cs i j = some (.ok (t, i, j + 1)) := by
  simp [letterAt, hc, h]

theorem letterAt_file (hc : cs[j]? = some 'f') : letterAt argv cs i j = some (.ok (
    if j + 1 < cs.length then
      (.settings (.file (String.ofList (cs.drop (j + 1)))), i, cs.length + 1)
    else match argv[i + 1]?.filter looksLikeFile with
      | some next => (.settings (.file next), i + 1, j + 1)
      | none => (.settings .skip, i, j + 1))) := by
  by_cases hj : j + 1 < cs.length
  · simp [letterAt, hc, Item.ofLetter?, fileAt_eq, hj]
  · cases hn : argv[i + 1]?.filter looksLikeFile <;>
      simp [letterAt, hc, Item.ofLetter?, fileAt_eq, hj, hn]

theorem letterAt_valued (hc : cs[j]? = some option.letter) : letterAt argv cs i j = some (
    if j + 1 < cs.length then
      (option.told (String.ofList (cs.drop (j + 1)))).map (·, i, cs.length + 1)
    else match argv[i + 1]? with
      | some value => (option.told value).map (·, i + 1, j + 1)
      | none => .error (.missingValue option.letter)) := by
  have letter : Item.ofLetter? option.letter = none ∧ option.letter ≠ 'f' ∧
      Valued.ofLetter? option.letter = some option := by
    cases option <;> simp [Item.ofLetter?, Valued.ofLetter?, Valued.letter]
  by_cases hj : j + 1 < cs.length
  · simp [letterAt, hc, letter, valueAt_eq, hj]
  · cases hn : argv[i + 1]? <;> simp [letterAt, hc, letter, valueAt_eq, hj, hn]

theorem letterAt_unknown (hc : cs[j]? = some c) (hf : Item.ofLetter? c = none)
    (hv : Valued.ofLetter? c = none) (hs : c ≠ 'f') :
    letterAt argv cs i j = some (.error (.unknownOption c)) := by
  simp [letterAt, hc, hf, hv, hs]

/-! ### Steps -/

/-- What is still to be read at a place. -/
def readAt (argv : List String) (cl : CommandLine) : Place → Except UsageError CommandLine
  | .argument i => readFrom cl (argv.drop i)
  | .letter cs i j => readLetters cl (cs.drop j) (argv.drop (i + 1))

theorem readAt_past (hj : cs.length ≤ j) :
    readAt argv cl (.letter cs i j) = readFrom cl (argv.drop (i + 1)) := by
  rw [readAt, List.drop_eq_nil_of_le hj, readLetters_nil]

/-- What comes of a letter: an option and later positions in range, or an error. -/
inductive Finds (argv : List String) (cs : List Char) (i j : Nat) :
    Option (Except UsageError (Item × Nat × Nat)) → Prop
  | told {t : Item} {i' j' : Nat} (after : i ≤ i') (within : i' < argv.length) (further : j < j')
      (same : ∀ cl, readAt argv cl (.letter cs i j) = readAt argv (cl.tell t) (.letter cs i' j')) :
      Finds argv cs i j (some (.ok (t, i', j')))
  | error {e : UsageError} (same : ∀ cl, readAt argv cl (.letter cs i j) = .error e) :
      Finds argv cs i j (some (.error e))

theorem drop_eq_cons {α : Type} {xs : List α} {x : α} {k : Nat} (h : xs[k]? = some x) :
    xs.drop k = x :: xs.drop (k + 1) := by
  obtain ⟨hk, rfl⟩ := List.getElem?_eq_some_iff.mp h
  exact List.drop_eq_getElem_cons hk

theorem finds_flag (hi : i < argv.length) (hc : cs[j]? = some c) (h : Item.ofLetter? c = some t) :
    Finds argv cs i j (letterAt argv cs i j) := by
  rw [letterAt_flag hc h]
  refine .told (Nat.le_refl i) hi (Nat.lt_succ_self j) fun cl => ?_
  rw [readAt, drop_eq_cons hc, readLetters_flag h]
  rfl

theorem finds_file (hi : i < argv.length) (hc : cs[j]? = some 'f') :
    Finds argv cs i j (letterAt argv cs i j) := by
  have here (cl : CommandLine) : readAt argv cl (.letter cs i j) =
      readLetters cl ('f' :: cs.drop (j + 1)) (argv.drop (i + 1)) := by
    rw [readAt, drop_eq_cons hc]
  rw [letterAt_file hc]
  split
  case isTrue hj =>
    refine .told (Nat.le_refl i) hi (by omega) fun cl => ?_
    rw [here, readLetters_file (by simpa using hj), readAt_past (by omega)]
  case isFalse hj =>
    -- The group is at its end, so only the next argument can be the file.
    have last : cs.drop (j + 1) = [] := List.drop_eq_nil_of_le (by omega)
    cases hn : argv[i + 1]?.filter looksLikeFile with
    | some next =>
      obtain ⟨there, file⟩ := Option.filter_eq_some_iff.mp hn
      obtain ⟨hi', -⟩ := List.getElem?_eq_some_iff.mp there
      refine .told (Nat.le_succ i) hi' (Nat.lt_succ_self j) fun cl => ?_
      rw [here, last, drop_eq_cons there, readLetters_file_apart file,
        readAt_past (by omega)]
    | none =>
      refine .told (Nat.le_refl i) hi (Nat.lt_succ_self j) fun cl => ?_
      have ahead : NoFileAhead (argv.drop (i + 1)) := by
        intro next hnext
        rw [List.head?_drop, Option.mem_def] at hnext
        simpa [hnext, Option.filter] using hn
      rw [here, last, readLetters_skip ahead, readAt_past (by omega)]

theorem finds_told {value : String} (after : i ≤ i') (within : i' < argv.length) (further : j < j')
    (same : ∀ cl, readAt argv cl (.letter cs i j) =
      (option.told value).map cl.tell >>= fun cl => readAt argv cl (.letter cs i' j')) :
    Finds argv cs i j (some ((option.told value).map (·, i', j'))) := by
  cases told : option.told value with
  | ok t => exact .told after within further fun cl => by rw [same, told]; rfl
  | error e => exact .error fun cl => by rw [same, told]; rfl

theorem finds_valued (hi : i < argv.length) (hc : cs[j]? = some option.letter) :
    Finds argv cs i j (letterAt argv cs i j) := by
  have here (cl : CommandLine) : readAt argv cl (.letter cs i j) =
      readLetters cl (option.letter :: cs.drop (j + 1)) (argv.drop (i + 1)) := by
    rw [readAt, drop_eq_cons hc]
  rw [letterAt_valued hc]
  split
  case isTrue hj =>
    refine finds_told (Nat.le_refl i) hi (by omega) fun cl => ?_
    rw [here, readLetters_attached (by simpa using hj), give_eq]
    simp only [readAt_past (Nat.le_succ cs.length)]
  case isFalse hj =>
    -- Nothing is attached, so the value is the next argument, if there is one.
    have last : cs.drop (j + 1) = [] := List.drop_eq_nil_of_le (by omega)
    cases hn : argv[i + 1]? with
    | some value =>
      obtain ⟨hi', -⟩ := List.getElem?_eq_some_iff.mp hn
      refine finds_told (Nat.le_succ i) hi' (Nat.lt_succ_self j) fun cl => ?_
      rw [here, last, drop_eq_cons hn, readLetters_apart, give_eq]
      simp only [readAt_past (show cs.length ≤ j + 1 by omega)]
    | none =>
      refine .error fun cl => ?_
      have none_left : argv.drop (i + 1) = [] :=
        List.drop_eq_nil_of_le (List.getElem?_eq_none_iff.mp hn)
      rw [here, last, none_left, readLetters_missing]

/-- Wherever the loop is in an argument, it finds an option or an error. -/
theorem finds_letterAt (hi : i < argv.length) (hc : cs[j]? = some c) :
    Finds argv cs i j (letterAt argv cs i j) := by
  cases hf : Item.ofLetter? c with
  | some t => exact finds_flag hi hc hf
  | none =>
    cases hv : Valued.ofLetter? c with
    | some option => exact finds_valued hi (Valued.letter_of_ofLetter? hv ▸ hc)
    | none =>
      by_cases hs : c = 'f'
      · exact finds_file hi (hs ▸ hc)
      · rw [letterAt_unknown hc hf hv hs]
        refine .error fun cl => ?_
        rw [readAt, drop_eq_cons hc, readLetters_unknown hf hv hs]

/-- The position among the arguments. -/
def Place.index : Place → Nat
  | argument i => i
  | letter _ i _ => i

/-- Letters belong to an argument; there is a place behind the last one. -/
def Place.Within (argv : List String) : Place → Prop
  | argument i => i ≤ argv.length
  | letter _ i _ => i < argv.length

/-- A bound for the moves that are left: arguments to come, and letters of this one. -/
def Place.rank (argv : List String) : Place → Nat × Nat
  | argument i => (2 * (argv.length - i) + 1, 0)
  | letter cs i j => (2 * (argv.length - i), cs.length - j)

/-- What comes of a place in range. A move leads to a place in range, and to the front of an
argument only if that is a later one. -/
inductive Goes (argv : List String) (p : Place) : Move → Prop
  | on {t? : Option Item} {q : Place} (within : q.Within argv) (after : p.index ≤ q.index)
      (later : ∀ i, q = .argument i → p.index < i)
      (less : Prod.Lex (· < ·) (· < ·) (q.rank argv) (p.rank argv))
      (same : ∀ cl, readAt argv cl p = readAt argv (cl.tellAll t?.toList) q) : Goes argv p (.on t? q)
  | stop {k : Nat} (within : k ≤ argv.length)
      (same : ∀ cl, readAt argv cl p = .ok (cl.withScript (argv.drop k))) : Goes argv p (.stop k)
  | refuse {e : UsageError} (same : ∀ cl, readAt argv cl p = .error e) : Goes argv p (.refuse e)

theorem optionLetters?_eq_some {arg : String} :
    optionLetters? arg = some cs ↔ cs ≠ [] ∧ arg = dashed cs := by
  refine ⟨fun h => ?_, fun ⟨hc, h⟩ => h ▸ optionLetters?_dashed hc⟩
  unfold optionLetters? at h
  split at h
  case h_1 c cs harg =>
    cases h
    refine ⟨List.cons_ne_nil _ _, ?_⟩
    rw [dashed, ← harg, String.ofList_toList]
  case h_2 => cases h

theorem goes_argument (hi : i ≤ argv.length) : Goes argv (.argument i) (move argv (.argument i)) := by
  rw [move]
  split
  case isFalse past =>
    refine .stop hi fun cl => ?_
    rw [readAt, List.drop_eq_nil_of_le (by omega), readFrom, withScript]
  case isTrue hi =>
    have here : argv.drop i = argv[i] :: argv.drop (i + 1) := List.drop_eq_getElem_cons hi
    rw [List.getElem?_eq_getElem hi]
    dsimp only
    split
    case isTrue ending =>
      refine .stop hi fun cl => ?_
      rw [readAt, here, readFrom, if_pos ending]
    case isFalse inside =>
      cases letters : optionLetters? argv[i] with
      | none =>
        refine .stop (Nat.le_of_lt hi) fun cl => ?_
        rw [readAt, here, readFrom, if_neg inside, letters]
      | some cs =>
        obtain ⟨nonempty, dash⟩ := optionLetters?_eq_some.mp letters
        refine .on hi (Nat.le_refl i) ?_ ?_ fun cl => ?_
        · rintro _ ⟨⟩
        · exact .left _ _ (Nat.lt_succ_self _)
        · have open_end : cs ≠ ['-'] := by
            rintro rfl
            exact inside dash
          rw [readAt, here, dash, readFrom_dashed nonempty open_end]
          rfl

theorem goes_letter (hi : i < argv.length) :
    Goes argv (.letter cs i j) (move argv (.letter cs i j)) := by
  rw [move]
  split
  case isFalse past =>
    refine .on hi (Nat.le_succ i) ?_ ?_ fun cl => readAt_past (by omega)
    · rintro _ ⟨⟩
      exact Nat.lt_succ_self i
    · exact .left _ _ (show 2 * (argv.length - (i + 1)) + 1 < 2 * (argv.length - i) by omega)
  case isTrue hj =>
    have found := finds_letterAt (c := cs[j]) hi (List.getElem?_eq_getElem hj)
    cases hl : letterAt argv cs i j with
    | none =>
      rw [hl] at found
      cases found
    | some found? =>
      rw [hl] at found
      cases found with
      | error same => exact .refuse same
      | @told t i' j' after within further same =>
        refine .on within after nofun ?_ same
        -- Either fewer letters of the group are left, or fewer arguments.
        obtain rfl | less := Nat.eq_or_lt_of_le after
        · exact .right _ (show cs.length - j' < cs.length - j by omega)
        · exact .left _ _ (show 2 * (argv.length - i') < 2 * (argv.length - i) by omega)

theorem goes_of_move {m : Move} (h : p.Within argv) (hm : move argv p = m) : Goes argv p m := by
  subst hm
  cases p with
  | argument i => exact goes_argument h
  | letter cs i j => exact goes_letter h

/-! ### Runs -/

theorem tellAll_append (more : List Item) :
    cl.tellAll (told ++ more) = (cl.tellAll told).tellAll more := List.foldl_append

/-- What the loop has told is read, and the rest is still to be read. -/
theorem Reaches.spec (h : Reaches argv p told) :
    p.Within argv ∧ read argv = readAt argv (initial.tellAll told) p := by
  induction h with
  | start => exact ⟨Nat.zero_le _, rfl⟩
  | next h hm ih =>
    obtain ⟨within, same⟩ := ih
    cases goes_of_move within hm with
    | on within after later less next =>
      refine ⟨within, ?_⟩
      rw [same, next, tellAll_append]

theorem Reaches.not_stray (h : Reaches argv p told) : move argv p ≠ .stray := by
  intro stray
  cases goes_of_move h.spec.1 stray

/-- What the loop comes to. -/
inductive Comes (argv : List String) : Except UsageError CommandLine → Prop
  | stop {p : Place} {told : List Item} {k : Nat} (h : Reaches argv p told)
      (hm : move argv p = .stop k) :
      Comes argv (.ok ((initial.tellAll told).withScript (argv.drop k)))
  | refuse {p : Place} {told : List Item} {e : UsageError} (h : Reaches argv p told)
      (hm : move argv p = .refuse e) : Comes argv (.error e)

theorem Comes.read_eq {result : Except UsageError CommandLine} (h : Comes argv result) :
    read argv = result := by
  cases h with
  | stop h hm =>
    cases goes_of_move h.spec.1 hm with
    | stop within ends => rw [h.spec.2, ends]
  | refuse h hm =>
    cases goes_of_move h.spec.1 hm with
    | refuse ends => rw [h.spec.2, ends]

/-- From each place that it reaches the loop comes to an end. -/
theorem Reaches.exists_comes {p : Place} {told : List Item} (h : Reaches argv p told) :
    ∃ result, Comes argv result := by
  cases hm : move argv p with
  | on t? q =>
    have less : Prod.Lex (· < ·) (· < ·) (q.rank argv) (p.rank argv) := by
      cases goes_of_move h.spec.1 hm with
      | on _ _ _ less _ => exact less
    exact (h.next hm).exists_comes
  | stop k => exact ⟨_, .stop h hm⟩
  | refuse e => exact ⟨_, .refuse h hm⟩
  | stray => exact absurd hm h.not_stray
termination_by p.rank argv
decreasing_by exact less

/-- The loop comes to what reading gives. -/
theorem comes_iff {result : Except UsageError CommandLine} :
    Comes argv result ↔ read argv = result := by
  refine ⟨Comes.read_eq, ?_⟩
  rintro rfl
  obtain ⟨result, h⟩ := (Reaches.start : Reaches argv _ _).exists_comes
  rwa [h.read_eq]

end CommandLine

end ScriptHost
