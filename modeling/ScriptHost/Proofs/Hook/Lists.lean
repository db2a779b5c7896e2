import ScriptHost.Proofs.Hook.Names
import ScriptHost.Settings

/-! Lists of events. A list denotes the union of what its words name, so a list in two parts denotes
the union of both, and it does not matter how the words are written, how often and in what order. A
list with a word that names no event denotes nothing, and the first such word is told. -/

namespace ScriptHost

namespace Mask

variable {m n : Mask} {s t front back sep word : String} {words words' : List String}

/-! ### Words of a list -/

/-- The text lists these words: there are separators between them, and there may be blanks around
each, and places without a word. -/
inductive Lists : String → List String → Prop
  | blank {s : String} (h : Text.IsBlanks s) : Lists s []
  | word {front word back : String} (hf : Text.IsBlanks front) (hb : Text.IsBlanks back)
      (h : Text.IsWord isSeparator word) : Lists (front ++ word ++ back) [word]
  | joined {s sep t : String} {words words' : List String} (hsep : sep ∈ separators)
      (hs : Lists s words) (ht : Lists t words') : Lists (s ++ sep ++ t) (words ++ words')

theorem unseparated_of_isBlanks (h : Text.IsBlanks s) : ∀ c ∈ s.toList, isSeparator c = false := by
  intro c hc
  have blank := h c hc
  by_contra separates
  rw [Bool.not_eq_false, isSeparator_iff] at separates
  simp [Text.isBlank] at blank
  omega

theorem Lists.words_eq (h : Lists s words) : Text.words isSeparator s = words := by
  induction h with
  | blank h =>
    rw [Text.words_of_unseparated (unseparated_of_isBlanks h), Text.trim_of_isBlanks h]
    rfl
  | @word front word back hf hb h =>
    have unseparated : ∀ c ∈ (front ++ word ++ back).toList, isSeparator c = false := by
      simp only [String.toList_append, List.forall_mem_append]
      exact ⟨⟨unseparated_of_isBlanks hf, h.unseparated⟩, unseparated_of_isBlanks hb⟩
    rw [Text.words_of_unseparated unseparated, Text.trim_append_blanks hb,
      Text.trim_blanks_append hf, h.trim]
    simp [h.nonempty]
  | joined hsep _ _ ihs iht =>
    obtain ⟨c, single, separates⟩ := exists_isSeparator hsep
    rw [Text.words_joined single separates, ihs, iht]

/-- A text without separators lists one word or none. -/
theorem exists_lists_of_unseparated (h : ∀ c ∈ s.toList, isSeparator c = false) :
    ∃ words, Lists s words := by
  obtain ⟨front, back, hf, hb, parts⟩ := Text.exists_blanks_trim s
  by_cases bare : Text.trim s = ""
  · rw [bare, String.append_empty] at parts
    exact ⟨[], .blank (parts ▸ hf.append hb)⟩
  · rw [parts]
    exact ⟨[Text.trim s], .word hf hb (Text.isWord_trim bare h)⟩

/-- In front of the characters still to be looked at there is no separator. -/
theorem exists_lists_append (cs : List Char) (h : ∀ c ∈ s.toList, isSeparator c = false) :
    ∃ words, Lists (s ++ String.ofList cs) words := by
  induction cs generalizing s with
  | nil =>
    rw [String.ofList_nil, String.append_empty]
    exact exists_lists_of_unseparated h
  | cons c cs ih =>
    have moved : s ++ String.ofList (c :: cs) = s ++ c.toString ++ String.ofList cs := by
      apply String.toList_injective
      simp
    rw [moved]
    -- A separator ends the word before it. Any other character belongs to that word.
    cases separates : isSeparator c with
    | true =>
      obtain ⟨words, first⟩ := exists_lists_of_unseparated h
      obtain ⟨words', others⟩ := ih (s := "") (by simp)
      rw [String.empty_append] at others
      exact ⟨words ++ words', .joined (mem_separators separates) first others⟩
    | false =>
      refine ih fun d hd => ?_
      simp only [String.toList_append, Char.toString, String.toList_singleton, List.mem_append,
        List.mem_singleton] at hd
      obtain hd | rfl := hd
      · exact h d hd
      · exact separates

theorem lists_words (s : String) : Lists s (Text.words isSeparator s) := by
  obtain ⟨words, h⟩ := exists_lists_append (s := "") s.toList (by simp)
  rw [String.ofList_toList, String.empty_append] at h
  rwa [h.words_eq]

theorem Lists.padded (h : Lists s words) (hf : Text.IsBlanks front) (hb : Text.IsBlanks back) :
    Lists (front ++ s ++ back) words := by
  induction h generalizing front back with
  | blank h => exact .blank ((hf.append h).append hb)
  | @word front' word back' hf' hb' h =>
    have parts : front ++ (front' ++ word ++ back') ++ back =
        (front ++ front') ++ word ++ (back' ++ back) := by
      simp only [String.append_assoc]
    rw [parts]
    exact .word (hf.append hf') (hb'.append hb) h
  | @joined s sep t _ _ hsep _ _ ihs iht =>
    have parts : front ++ (s ++ sep ++ t) ++ back =
        (front ++ s ++ "") ++ sep ++ ("" ++ t ++ back) := by
      simp only [String.append_assoc, String.append_empty, String.empty_append]
    rw [parts]
    exact .joined hsep (ihs hf Text.isBlanks_empty) (iht Text.isBlanks_empty hb)

theorem lower_separator (h : sep ∈ separators) : Text.lower sep = sep := by
  simp only [separators, List.mem_cons, List.not_mem_nil, or_false] at h
  obtain rfl | rfl := h <;> decide +kernel

theorem Lists.lower (h : Lists s words) : Lists (Text.lower s) (words.map Text.lower) := by
  induction h with
  | blank h =>
    rw [Text.lower_of_isBlanks h]
    exact .blank h
  | word hf hb h =>
    rw [Text.lower_append, Text.lower_append, Text.lower_of_isBlanks hf, Text.lower_of_isBlanks hb]
    exact .word hf hb (isWord_lower_iff.mpr h)
  | joined hsep _ _ ihs iht =>
    rw [Text.lower_append, Text.lower_append, lower_separator hsep, List.map_append]
    exact .joined hsep ihs iht

/-! ### Denotations -/

theorem ofWords_eq_map (start : Mask) :
    ofWords start words = (ofWords empty words).map start.union := by
  induction words generalizing start with
  | nil => rw [ofWords, ofWords, Except.map, union_empty]
  | cons word words ih =>
    rw [ofWords, ofWords]
    cases ofWord? word with
    | none => rfl
    | some m =>
      dsimp only
      rw [ih, ih (empty.union m), empty_union]
      cases ofWords empty words with
      | error word => rfl
      | ok n => simp only [Except.map, union_assoc]

theorem ofWords_append (start : Mask) :
    ofWords start (words ++ words') = (ofWords start words).bind (ofWords · words') := by
  induction words generalizing start with
  | nil => rfl
  | cons word words ih =>
    rw [List.cons_append, ofWords, ofWords]
    cases ofWord? word with
    | none => rfl
    | some m => exact ih (start.union m)

/-- A list in two parts denotes the union of both, unless one of them has an error. -/
theorem read_joined (hsep : sep ∈ separators) :
    read (s ++ sep ++ t) = (read s).bind fun m => (read t).map m.union := by
  rw [read, ((lists_words s).joined hsep (lists_words t)).words_eq, ofWords_append, read, read]
  congr 1
  funext m
  exact ofWords_eq_map m

/-- The word is the first of the words that names no event. -/
def IsFirstStray (word : String) (words : List String) : Prop :=
  ∃ front back, words = front ++ word :: back ∧ (∀ w ∈ front, NamesEvent w) ∧ ¬ NamesEvent word

theorem ofWords_eq_error_iff_find? {start : Mask} : ofWords start words = .error word ↔
    words.find? (fun w => (ofWord? w).isNone) = some word := by
  induction words generalizing start with
  | nil => simp [ofWords]
  | cons w words ih =>
    rw [ofWords, List.find?_cons]
    cases ofWord? w with
    | none => simp
    | some m => simpa using ih

theorem ofWords_eq_error_iff {start : Mask} :
    ofWords start words = .error word ↔ IsFirstStray word words := by
  have named : ∀ w, (!(ofWord? w).isNone) = true ↔ NamesEvent w := by
    intro w
    rw [Bool.not_eq_true', ← Bool.not_eq_true, Option.isNone_iff_eq_none, ofWord?_eq_none_iff,
      not_not]
  rw [ofWords_eq_error_iff_find?, List.find?_eq_some_iff_append, Option.isNone_iff_eq_none,
    ofWord?_eq_none_iff]
  simp only [named]
  constructor
  · rintro ⟨stray, front, back, parts, known⟩
    exact ⟨front, back, parts, known, stray⟩
  · rintro ⟨front, back, parts, known, stray⟩
    exact ⟨stray, front, back, parts, known⟩

/-! ### Lists that denote the same -/

/-- The texts are one list of events but for letters of either case, blanks around words, empty
words, the times that words are repeated, and their order. -/
inductive Alike : String → String → Prop
  | letters {s t : String} (h : Text.lower s = Text.lower t) : Alike s t
  | blanks {front s back : String} (hf : Text.IsBlanks front) (hb : Text.IsBlanks back) :
      Alike (front ++ s ++ back) s
  | emptyWord {s sep : String} (hsep : sep ∈ separators) : Alike (s ++ sep) s
  | repeated {s sep : String} (hsep : sep ∈ separators) : Alike (s ++ sep ++ s) s
  | swapped {s sep t : String} (hsep : sep ∈ separators) : Alike (s ++ sep ++ t) (t ++ sep ++ s)
  | joined {s sep t s' sep' t' : String} (hsep : sep ∈ separators) (hsep' : sep' ∈ separators)
      (hs : Alike s s') (ht : Alike t t') : Alike (s ++ sep ++ t) (s' ++ sep' ++ t')
  | symm {s t : String} (h : Alike s t) : Alike t s
  | trans {s t u : String} (h : Alike s t) (h' : Alike t u) : Alike s u

theorem Alike.refl (s : String) : Alike s s := .letters rfl

/-- The words of a list, in small letters. -/
def lowered (s : String) : List String := (Text.words isSeparator s).map Text.lower

theorem lowered_empty : lowered "" = [] := by
  rw [lowered, (Lists.blank Text.isBlanks_empty).words_eq, List.map_nil]

theorem lowered_lower (s : String) : lowered s = Text.words isSeparator (Text.lower s) :=
  (lists_words s).lower.words_eq.symm

theorem lowered_padded (hf : Text.IsBlanks front) (hb : Text.IsBlanks back) :
    lowered (front ++ s ++ back) = lowered s := by
  rw [lowered, ((lists_words s).padded hf hb).words_eq, lowered]

theorem lowered_joined (hsep : sep ∈ separators) :
    lowered (s ++ sep ++ t) = lowered s ++ lowered t := by
  rw [lowered, ((lists_words s).joined hsep (lists_words t)).words_eq, List.map_append, lowered,
    lowered]

theorem Alike.mem_lowered_iff (h : Alike s t) : word ∈ lowered s ↔ word ∈ lowered t := by
  induction h with
  | letters h => rw [lowered_lower, lowered_lower, h]
  | blanks hf hb => rw [lowered_padded hf hb]
  | @emptyWord s sep hsep =>
    have parted : lowered (s ++ sep ++ "") = lowered s ++ lowered "" := lowered_joined hsep
    rw [String.append_empty] at parted
    rw [parted, lowered_empty, List.append_nil]
  | repeated hsep => rw [lowered_joined hsep, List.mem_append, or_self]
  | swapped hsep =>
    rw [lowered_joined hsep, lowered_joined hsep, List.mem_append, List.mem_append, or_comm]
  | joined hsep hsep' _ _ ihs iht =>
    rw [lowered_joined hsep, lowered_joined hsep', List.mem_append, List.mem_append, ihs, iht]
  | symm _ ih => exact ih.symm
  | trans _ _ ih ih' => exact ih.trans ih'

theorem read_eq_ok_iff_lowered : read s = .ok m ↔
    (∀ word ∈ lowered s, ∃ event : EventKind, word ∈ event.words) ∧
    ∀ event, m.holds event = true ↔ ∃ word ∈ lowered s, word ∈ event.words := by
  rw [read, ofWords_empty_eq_ok_iff, lowered]
  simp only [List.mem_map, exists_exists_and_eq_and, forall_exists_index, and_imp,
    forall_apply_eq_imp_iff₂]
  exact ⟨fun h => ⟨h.known, h.named⟩, fun h => ⟨h.1, h.2⟩⟩

theorem read_congr (h : ∀ word, word ∈ lowered s ↔ word ∈ lowered t) :
    read s = .ok m ↔ read t = .ok m := by
  simp only [read_eq_ok_iff_lowered, h]

/-! ### Unions -/

/-- What a list denotes: the events that its words name, or nothing for a word that names none. -/
structure ReadAsList (s : String) : Prop where
  listed : ∃! words, Lists s words
  accepted : ∀ words, Lists s words → ∀ m, read s = .ok m ↔ m.NamedBy words
  refused : ∀ words, Lists s words → ∀ word, read s = .error word ↔ IsFirstStray word words
  /-- The text of the error names the word. -/
  told : ∀ word, read s = .error word →
    (Setting.readMask s).mapError SettingError.message =
      .error ("invalid hook event " ++ Text.quoted word)
  alike : ∀ t, Alike s t → ∀ m, read s = .ok m ↔ read t = .ok m
  /-- It counts only which words there are, in letters of either case. -/
  same : ∀ t words words', Lists s words → Lists t words' →
    (∀ word, word ∈ words.map Text.lower ↔ word ∈ words'.map Text.lower) →
    ∀ m, read s = .ok m ↔ read t = .ok m

theorem readAsList (s : String) : ReadAsList s where
  listed := ⟨_, lists_words s, fun _ h => h.words_eq.symm⟩
  accepted words h m := by rw [read, h.words_eq, ofWords_empty_eq_ok_iff]
  refused words h word := by rw [read, h.words_eq, ofWords_eq_error_iff]
  told word h := by
    rw [Setting.readMask, h]
    rfl
  alike _ h _ := read_congr fun _ => h.mem_lowered_iff
  same t words words' hs ht h m := by
    refine read_congr fun word => ?_
    rw [lowered, lowered, hs.words_eq, ht.words_eq]
    exact h word

/-- What a list in two parts denotes: the union of what the parts denote. -/
structure ReadAsUnion (s sep t : String) : Prop where
  union : ∀ m n, read s = .ok m → read t = .ok n → read (s ++ sep ++ t) = .ok (m.union n)
  refused : (∃ word, read (s ++ sep ++ t) = .error word) ↔
    (∃ word, read s = .error word) ∨ ∃ word, read t = .error word
  /-- The first part is read first. -/
  first : ∀ word, read (s ++ sep ++ t) = .error word ↔
    read s = .error word ∨ (∃ m, read s = .ok m) ∧ read t = .error word

theorem readAsUnion (s t : String) (hsep : sep ∈ separators) : ReadAsUnion s sep t := by
  have joined := read_joined (s := s) (t := t) hsep
  constructor
  · intro m n hs ht
    rw [joined, hs, ht]
    rfl
  all_goals rw [joined]
  all_goals cases read s <;> cases read t <;> simp [Except.bind, Except.map]

/-- Lists of events denote unions, in every spelling, and each mask has a list. -/
theorem lists_denote_unions :
    (∀ s, ReadAsList s) ∧ (∀ s t, ∀ sep ∈ separators, ReadAsUnion s sep t) ∧
    ∀ m : Mask, m.NamedBy m.names ∧ ∀ words, m.NamedBy words →
      ∀ sep ∈ separators, read (sep.intercalate words) = .ok m :=
  ⟨readAsList, fun s t _ hsep => readAsUnion s t hsep, fun m =>
    ⟨m.namedBy_names, fun _ h _ hsep => h.read hsep⟩⟩

theorem lists_denote_unions_in_any_spelling :
    read "LINE|, Call |line" = .ok ⟨true, false, true, false⟩ ∧
    read ("LINE|, Call |line" ++ "," ++ "lines") = .error "lines" := by
  let m : Mask := ⟨true, false, true, false⟩
  obtain ⟨each, parts, masks⟩ := lists_denote_unions
  have comma : "," ∈ separators := List.mem_cons_self
  have bar : "|" ∈ separators := List.mem_cons_of_mem _ List.mem_cons_self
  have one : Text.IsBlanks " " := by simp [Text.IsBlanks, Text.isBlank]
  have line : Alike "LINE" "line" := .letters (by decide +kernel)
  have call : Alike " Call " "call" :=
    .trans (.blanks (s := "Call") one one) (.letters (by decide +kernel))
  have moved : Alike ", Call |line" " Call |line," := .swapped (s := "") (t := " Call |line") comma
  have ended : Alike " Call |line," "call,line" :=
    .trans (.emptyWord (s := " Call |line") comma) (.joined bar comma call (.refl "line"))
  have whole : Alike "LINE|, Call |line" "line,call,line" :=
    .joined bar comma line (moved.trans ended)
  have sorted : Alike "line,call,line" "line,line,call" :=
    .swapped (s := "line,call") (t := "line") comma
  have once : Alike "line,line,call" "line,call" :=
    .joined comma comma (.repeated (s := "line") comma) (.refl "call")
  have respelled : Alike "LINE|, Call |line" "call,line" :=
    whole.trans (sorted.trans (once.trans (.swapped (s := "line") (t := "call") comma)))
  have named : ",".intercalate m.names = "call,line" := by decide +kernel
  have first : read "LINE|, Call |line" = .ok m := by
    rw [(each _).alike _ respelled m, ← named]
    exact (masks m).2 _ (masks m).1 _ comma
  have second : read "lines" = .error "lines" := by
    have word : Text.IsWord isSeparator "lines" :=
      ⟨by simp, by simp [isSeparator], by simp [Text.isBlank], by simp [Text.isBlank]⟩
    have listed : Lists "lines" ["lines"] := .word Text.isBlanks_empty Text.isBlanks_empty word
    have stray : ¬ NamesEvent "lines" := by
      rintro ⟨event, known⟩
      revert known
      cases event <;> decide +kernel
    exact ((each _).refused _ listed _).mpr ⟨[], [], rfl, List.forall_mem_nil _, stray⟩
  exact ⟨first, ((parts _ _ _ comma).first _).mpr (.inr ⟨⟨m, first⟩, second⟩)⟩

end Mask

end ScriptHost
