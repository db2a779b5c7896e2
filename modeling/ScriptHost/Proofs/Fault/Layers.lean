import ScriptHost.Fault.Interpreter

/-! Errors of an interpreter in layers, and what is told of them: the kind and the message of the
cause, the contexts around it, and one traceback. The text of a cause is cut between lines, and
nothing of it is lost. -/

namespace ScriptHost

/-! ### Marks in texts -/

namespace Text

variable {c : Char} {mark : List Char}

theorem cutAtMark_append {before : List Char} (h : c ∉ before) (mark text : List Char) :
    cutAtMark (c :: mark) (before ++ text) =
      (cutAtMark (c :: mark) text).map fun (cut, after) => (before ++ cut, after) := by
  induction before with
  | nil => cases hc : cutAtMark (c :: mark) text <;> simp [hc]
  | cons d rest ih =>
    obtain ⟨hd, hr⟩ := List.ne_and_not_mem_of_not_mem_cons h
    have apart : ¬ (c :: mark).isPrefixOf (d :: (rest ++ text)) = true := by
      intro hp
      exact hd (List.cons_prefix_cons.mp (List.isPrefixOf_iff_prefix.mp hp)).1
    rw [List.cons_append, cutAtMark, if_neg apart, ih hr, Option.map_map]
    rfl

/-! ### Lines -/

/-- Lines with a line feed in front of each. -/
def fed (ls : List (List Char)) : List Char := ls.flatMap ('\n' :: ·)

/-- The lines of a text. -/
def splitLines (s : String) : List (List Char) := piecesBy (· == '\n') s.toList

/-- Lines as one text. -/
def joinLines (ls : List (List Char)) : String := String.ofList (['\n'].intercalate ls)

theorem piecesBy_lines (cs : List Char) : ∃ first rest, piecesBy (· == '\n') cs = first :: rest ∧
    first ++ fed rest = cs ∧ '\n' ∉ first ∧ ∀ l ∈ rest, '\n' ∉ l := by
  induction cs with
  | nil => exact ⟨[], [], rfl, rfl, List.not_mem_nil, List.forall_mem_nil _⟩
  | cons d cs ih =>
    obtain ⟨first, rest, hp, joined, hf, hr⟩ := ih
    rw [piecesBy]
    by_cases hd : d = '\n'
    · refine ⟨[], first :: rest, ?_, ?_, List.not_mem_nil, List.forall_mem_cons.mpr ⟨hf, hr⟩⟩
      · rw [if_pos (beq_iff_eq.mpr hd), hp]
      · rw [← joined, hd]
        rfl
    · refine ⟨d :: first, rest, ?_, congrArg (d :: ·) joined, ?_, hr⟩
      · rw [if_neg (mt beq_iff_eq.mp hd), hp]
      · exact List.not_mem_cons_of_ne_of_not_mem (Ne.symm hd) hf

theorem intercalate_cons (first : List Char) (rest : List (List Char)) :
    ['\n'].intercalate (first :: rest) = first ++ fed rest := by
  induction rest generalizing first with
  | nil => simp [fed]
  | cons l rest ih => simp [List.intercalate_cons_cons, ih, fed]

theorem joinLines_splitLines (s : String) : joinLines (splitLines s) = s := by
  obtain ⟨first, rest, hp, joined, -⟩ := piecesBy_lines s.toList
  rw [splitLines, hp, joinLines, intercalate_cons, joined, String.ofList_toList]

theorem joinLines_append {xs ys : List (List Char)} (hx : xs ≠ []) (hy : ys ≠ []) :
    joinLines (xs ++ ys) = joinLines xs ++ "\n" ++ joinLines ys := by
  obtain ⟨x, xs, rfl⟩ := List.exists_cons_of_ne_nil hx
  obtain ⟨y, ys, rfl⟩ := List.exists_cons_of_ne_nil hy
  simp [joinLines, intercalate_cons, fed, String.ofList_append, String.append_assoc]

/-- A line begins with a mark by itself, whatever lines come after it. -/
theorem isPrefixOf_append_fed (hm : '\n' ∉ mark) (l : List Char) (ls : List (List Char)) :
    mark.isPrefixOf (l ++ fed ls) = mark.isPrefixOf l := by
  induction mark generalizing l with
  | nil => rfl
  | cons d mark ih =>
    obtain ⟨hd, hm⟩ := List.ne_and_not_mem_of_not_mem_cons hm
    cases l with
    | nil => cases ls <;> simp [fed, List.isPrefixOf, Ne.symm hd]
    | cons e l => simp [List.isPrefixOf, ih hm]

/-- The mark is found where the first line begins that begins with it. -/
theorem cutAtMark_fed (hm : '\n' ∉ mark) {ls : List (List Char)} (hl : ∀ l ∈ ls, '\n' ∉ l) :
    cutAtMark ('\n' :: mark) (fed ls) =
      match ls.dropWhile (!mark.isPrefixOf ·) with
      | [] => none
      | l :: more =>
        some (fed (ls.takeWhile (!mark.isPrefixOf ·)), l.drop mark.length ++ fed more) := by
  induction ls with
  | nil => rfl
  | cons l rest ih =>
    obtain ⟨hl, hr⟩ := List.forall_mem_cons.mp hl
    have here : ('\n' :: mark).isPrefixOf ('\n' :: (l ++ fed rest)) = mark.isPrefixOf l := by
      rw [List.isPrefixOf, beq_self_eq_true, Bool.true_and, isPrefixOf_append_fed hm]
    show cutAtMark ('\n' :: mark) ('\n' :: (l ++ fed rest)) = _
    rw [cutAtMark, here]
    cases hp : mark.isPrefixOf l with
    | true =>
      have within : mark.length ≤ l.length := (List.isPrefixOf_iff_prefix.mp hp).length_le
      simp [hp, fed, List.drop_append_of_le_length within]
    | false =>
      rw [if_neg Bool.false_ne_true, cutAtMark_append hl, ih hr]
      simp only [List.dropWhile_cons, List.takeWhile_cons, hp]
      cases rest.dropWhile (!mark.isPrefixOf ·) <;> simp [fed]

end Text

/-! ### Tracebacks in texts -/

namespace Text

/-- Whether a traceback begins with the line. -/
def isHeading (line : List Char) : Bool := tracebackHeading.toList.isPrefixOf line

/-- The first line, and what comes after it until a traceback begins. -/
def ownLines (s : String) : List (List Char) :=
  (splitLines s).take 1 ++ (splitLines s).tail.takeWhile (!isHeading ·)

/-- The lines of the traceback. -/
def traceLines (s : String) : List (List Char) := (splitLines s).tail.dropWhile (!isHeading ·)

def trace? (s : String) : Option String :=
  if traceLines s = [] then none else some (joinLines (traceLines s))

theorem ownLines_append_traceLines (s : String) : ownLines s ++ traceLines s = splitLines s := by
  rw [ownLines, traceLines, List.append_assoc, List.takeWhile_append_dropWhile, ← List.drop_one,
    List.take_append_drop]

theorem ownLines_ne_nil (s : String) : ownLines s ≠ [] := by
  obtain ⟨first, rest, hp, -⟩ := piecesBy_lines s.toList
  rw [ownLines, splitLines, hp]
  exact List.cons_ne_nil _ _

end Text

open Text

namespace ScriptError

/-- The message and the traceback as one text. -/
def whole (e : ScriptError) : String :=
  match e.traceback with
  | none => e.message
  | some trace => e.message ++ "\n" ++ trace

theorem ofText_eq (kind : ErrorKind) (s : String) :
    ofText kind s = ⟨kind, joinLines (ownLines s), trace? s⟩ := by
  obtain ⟨first, rest, hp, joined, hf, hr⟩ := piecesBy_lines s.toList
  have line : '\n' ∉ tracebackHeading.toList := by decide
  have cut := cutAtMark_append hf tracebackHeading.toList (fed rest)
  rw [joined, cutAtMark_fed line hr] at cut
  have own : ownLines s = first :: rest.takeWhile (!isHeading ·) := by
    rw [ownLines, splitLines, hp]
    rfl
  have after : traceLines s = rest.dropWhile (!isHeading ·) := by
    rw [traceLines, splitLines, hp]
    rfl
  unfold ofText
  rw [cut, own, trace?, after, joinLines, intercalate_cons]
  unfold isHeading
  have parts : rest.takeWhile (!tracebackHeading.toList.isPrefixOf ·) ++
      rest.dropWhile (!tracebackHeading.toList.isPrefixOf ·) = rest :=
    List.takeWhile_append_dropWhile
  cases hd : rest.dropWhile (!tracebackHeading.toList.isPrefixOf ·) with
  | nil =>
    rw [hd, List.append_nil] at parts
    simp [parts, joined]
  | cons l more =>
    have stops := List.head?_dropWhile_not (!tracebackHeading.toList.isPrefixOf ·) rest
    rw [hd] at stops
    have headed : tracebackHeading.toList.isPrefixOf l = true := by simpa using stops
    obtain ⟨trace, rfl⟩ := List.isPrefixOf_iff_prefix.mp headed
    simp [joinLines, intercalate_cons, String.ofList_append]

theorem traceback_withTraceback (e : ScriptError) (trace : String) :
    (e.withTraceback trace).traceback = e.traceback.or (some trace) := by
  unfold withTraceback
  cases h : e.traceback with
  | none => rfl
  | some own => exact h

/-- Nothing of a text is lost. -/
theorem whole_ofText (kind : ErrorKind) (s : String) : (ofText kind s).whole = s := by
  have joined := joinLines_splitLines s
  rw [← ownLines_append_traceLines] at joined
  rw [ofText_eq, whole, trace?]
  by_cases ht : traceLines s = []
  · rw [ht, List.append_nil] at joined
    rw [if_pos ht, joined]
  · rw [joinLines_append (ownLines_ne_nil s) ht] at joined
    rw [if_neg ht]
    exact joined

end ScriptError

/-! ### Layers -/

namespace InterpreterError

/-- The innermost cause. -/
def leaf : InterpreterError → InterpreterError
  | callback _ cause | context _ cause => cause.leaf
  | e => e

/-- The contexts around the cause, the outermost first. -/
def contexts : InterpreterError → List String
  | context text cause => text :: cause.contexts
  | callback _ cause => cause.contexts
  | _ => []

/-- The tracebacks of the host calls around the cause, the outermost first. -/
def tracebacks : InterpreterError → List String
  | callback traceback cause => traceback :: cause.tracebacks
  | context _ cause => cause.tracebacks
  | _ => []

/-- The kind of a cause. -/
def ownKind : InterpreterError → ErrorKind
  | malformed _ => .compile
  | fromScript .. | toScript .. => .conversion
  | raised e => e.kind
  | _ => .runtime

/-- All contexts in front of a message. -/
def heading (texts : List String) : String := String.join (texts.map (· ++ ": "))

theorem heading_cons (text : String) (texts : List String) :
    heading (text :: texts) = text ++ ": " ++ heading texts := by
  simp [heading]

theorem kind_normalize (e : InterpreterError) : e.normalize.kind = e.leaf.ownKind := by
  induction e with
  | callback traceback cause ih =>
    rw [normalize, leaf, ← ih, ScriptError.withTraceback]
    split <;> rfl
  | context text cause ih => exact ih
  | malformed text | runtime text =>
    rw [normalize, ScriptError.ofText_eq]
    rfl
  | _ => rfl

theorem message_normalize (e : InterpreterError) :
    e.normalize.message = heading e.contexts ++ e.leaf.normalize.message := by
  induction e with
  | callback traceback cause ih =>
    rw [contexts, leaf, ← ih, normalize, ScriptError.withTraceback]
    split <;> rfl
  | context text cause ih =>
    rw [contexts, leaf, heading_cons, String.append_assoc, ← ih]
    rfl
  | _ => exact (String.empty_append).symm

/-- The traceback of the cause comes before that of the innermost host call. -/
theorem traceback_normalize (e : InterpreterError) :
    e.normalize.traceback = e.leaf.normalize.traceback.or e.tracebacks.getLast? := by
  induction e with
  | callback traceback cause ih =>
    have nearest : (traceback :: cause.tracebacks).getLast? =
        cause.tracebacks.getLast?.or (some traceback) := by
      rw [List.getLast?_cons]
      cases cause.tracebacks.getLast? <;> rfl
    rw [tracebacks, leaf, nearest, normalize, ScriptError.traceback_withTraceback, ih]
    exact Option.or_assoc
  | context text cause ih => exact ih
  | _ => exact (Option.or_none).symm

/-- What is told of an error with layers around its cause: the kind of the cause, all contexts and
the message of the cause, and its traceback or else the innermost. The text of a cause is its
message until, after the first line, one begins like a traceback. A script error is told as it
is. -/
theorem layers_keep_the_cause :
    (∀ e : InterpreterError, e.normalize.kind = e.leaf.ownKind ∧
      e.normalize.message = heading e.contexts ++ e.leaf.normalize.message ∧
      e.normalize.traceback = e.leaf.normalize.traceback.or e.tracebacks.getLast?) ∧
    (∀ text : String,
      (malformed text).normalize = ⟨.compile, joinLines (ownLines text), trace? text⟩ ∧
      (runtime text).normalize = ⟨.runtime, joinLines (ownLines text), trace? text⟩ ∧
      (malformed text).normalize.whole = text ∧ (runtime text).normalize.whole = text) ∧
    ∀ e : ScriptError, (raised e).normalize = e :=
  ⟨fun e => ⟨e.kind_normalize, e.message_normalize, e.traceback_normalize⟩,
    fun text => ⟨ScriptError.ofText_eq _ text, ScriptError.ofText_eq _ text,
      ScriptError.whole_ofText _ text, ScriptError.whole_ofText _ text⟩, fun _ => rfl⟩

example : (context "a" (callback "outer" (context "b" (callback "inner"
    (malformed "x"))))).normalize = ⟨.compile, "a: b: x", some "inner"⟩ := by decide

/-- Text is not cut at a first line that is a heading, and it is cut at a line that only begins with
one. -/
theorem heading_lines_and_cuts_differ :
    let traced := "stack traceback:\n\t[C]: in ?"
    let quoted := "boom\nstack traceback: none"
    (splitLines traced).head? = some tracebackHeading.toList ∧
      (runtime traced).normalize = ⟨.runtime, traced, none⟩ ∧
      tracebackHeading.toList ∉ splitLines quoted ∧
      (runtime quoted).normalize = ⟨.runtime, "boom", some "stack traceback: none"⟩ := by
  decide

end InterpreterError

end ScriptHost
