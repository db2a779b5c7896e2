import ScriptHost.Proofs.Hook.Names
import ScriptHost.Proofs.Settings.Lines

/-! Settings that are written to a file, in any order, letters and layout, are read from it as they
were. -/

namespace ScriptHost

/-! ### Digits -/

namespace Decimal

variable {bits : Nat} {ds : List Char}

theorem valueIn_ten (h : ∀ d ∈ ds, d.isDigit = true) : valueIn 10 ds = Nat.ofDigitChars 10 ds 0 := by
  rw [valueIn, Nat.ofDigitChars]
  refine List.foldl_ext _ _ _ fun n d hd => ?_
  rw [digitValue, if_pos (h d hd), Nat.mul_comm]
  rfl

theorem isPlain_of_digits (h : ∀ d ∈ ds, d.isDigit = true) : Text.IsPlain (String.ofList ds) := by
  intro d hd
  rw [String.toList_ofList] at hd
  have digit := h d hd
  simp only [Char.isDigit, Bool.and_eq_true, decide_eq_true_eq] at digit
  have low : 48 ≤ d.toNat := UInt32.le_iff_toNat_le.mp digit.1
  have high : d.toNat ≤ 57 := UInt32.le_iff_toNat_le.mp digit.2
  constructor
  · simp [Text.isBlank]
    omega
  · rintro rfl
    simp at low

theorem natural?_ofList (nonempty : ds ≠ []) (h : ∀ d ∈ ds, d.isDigit = true)
    (bound : Nat.ofDigitChars 10 ds 0 < Nat.pow 2 bits) :
    natural? bits (String.ofList ds) = some (Nat.ofDigitChars 10 ds 0) := by
  have digits : ds.all Char.isDigit = true := List.all_eq_true.mpr h
  simp only [natural?, String.toList_ofList]
  split
  case h_1 => exact absurd (h '+' List.mem_cons_self) (by decide)
  case h_2 =>
    rw [valueIn_ten h, if_neg]
    simpa [nonempty, digits] using bound

end Decimal

/-! ### Lines -/

namespace Setting

variable {key value front middle back rest : String}

/-- A key is a word that nothing else can be taken for. -/
structure IsKey (key : String) : Prop where
  nonempty : key ≠ ""
  plain : Text.IsPlain key
  unmarked : ∀ c ∈ key.toList, c ≠ '=' ∧ c ≠ '#' ∧ c ≠ ';'

theorem isKey_of_mem_keys {p : Settings.Part} (h : key ∈ p.keys) : IsKey key := by
  cases p <;> simp only [Settings.Part.keys, List.mem_cons, List.not_mem_nil, or_false] at h
  case mode =>
    obtain rfl | rfl := h
    all_goals exact ⟨by decide, by simp [Text.IsPlain, Text.isBlank], by simp⟩
  all_goals
    subst h
    exact ⟨by decide, by simp [Text.IsPlain, Text.isBlank], by simp⟩

theorem notMem_of_isBlanks {c : Char} (h : Text.IsBlanks front) (hc : Text.isBlank c = false) :
    c ∉ front.toList := by
  intro mem
  rw [h c mem] at hc
  cases hc

/-- Blanks around the key and the value are no part of them. -/
theorem isAssignment_of_blanks (hk : IsKey key) (hf : Text.IsBlanks front)
    (hm : Text.IsBlanks middle) (hr : Text.IsBlanks rest) (hb : Text.IsBlanks back)
    (hv : Text.trim value = value) :
    IsAssignment (front ++ key ++ middle ++ "=" ++ rest ++ value ++ back) key (unquote value) := by
  obtain ⟨c, cs, word⟩ := List.exists_cons_of_ne_nil (String.toList_eq_nil_iff.not.mpr hk.nonempty)
  have first : c ∈ key.toList := word ▸ List.mem_cons_self
  -- The key is in front and the equals sign inside, so blanks go only at the far end.
  have whole : (Text.trim (front ++ key ++ middle ++ "=" ++ rest ++ value ++ back)).toList =
      (key ++ middle).toList ++
        '=' :: ((rest ++ value ++ back).toList.rdropWhile Text.isBlank) := by
    have parts : (front ++ key ++ middle ++ "=" ++ rest ++ value ++ back).toList =
        front.toList ++ (c :: (cs ++ middle.toList) ++ '=' :: (rest ++ value ++ back).toList) := by
      simp [word]
    rw [Text.trim, String.toList_ofList, parts, Text.trimChars_blanks_append hf,
      Text.trimChars_between (hk.plain c first).1 (by decide)]
    simp [word]
  have apart : '=' ∉ (key ++ middle).toList := by
    rw [String.toList_append, List.mem_append, not_or]
    exact ⟨fun mem => (hk.unmarked _ mem).1 rfl, notMem_of_isBlanks hm (by decide)⟩
  refine ⟨fun remark => ?_, key ++ middle,
    String.ofList ((rest ++ value ++ back).toList.rdropWhile Text.isBlank), ?_, apart, ?_, ?_⟩
  · have mark := remark c (by rw [whole]; simp [word])
    obtain ⟨-, no_hash, no_semicolon⟩ := hk.unmarked c first
    exact mark.elim no_hash no_semicolon
  · rw [whole, String.toList_ofList]
  · rw [Text.trim_append_blanks hm, hk.plain.trim]
  · rw [Text.trim, String.toList_ofList, Text.trimChars_rdropWhile, ← Text.trim,
      Text.trim_append_blanks hb, Text.trim_blanks_append hr, hv]

theorem unquote_of_plain (h : Text.IsPlain value) : unquote value = value := by
  unfold unquote
  split
  case h_1 cs hcs => exact absurd rfl (h '"' (hcs ▸ List.mem_cons_self)).2
  case h_2 => rfl

theorem unquote_quoted (s : String) : unquote ("\"" ++ s ++ "\"") = s := by
  have parts : ("\"" ++ s ++ "\"").toList = '"' :: (s.toList ++ ['"']) := by simp
  rw [unquote, parts]
  simp

theorem trim_quoted (s : String) : Text.trim ("\"" ++ s ++ "\"") = "\"" ++ s ++ "\"" := by
  have parts : ("\"" ++ s ++ "\"").toList = '"' :: s.toList ++ '"' :: [] := by simp
  rw [Text.trim, parts, Text.trimChars_between (by decide) (by decide)]
  apply String.toList_injective
  simp

theorem isPlain_of_boolWords {b : Bool} (h : Text.lower value ∈ boolWords b) :
    Text.IsPlain value := by
  apply Text.isPlain_of_lower
  cases b <;> simp only [boolWords, List.mem_cons, List.not_mem_nil, or_false] at h
  all_goals
    obtain h | h | h | h := h
    all_goals simp [h, Text.IsPlain, Text.isBlank]

end Setting

/-! ### Files -/

namespace Settings

open Setting (Gives IsRemark IsAssignment Assigns IsKey unquote)

variable {s s' : Settings} {p : Part} {x : Setting} {xs : List Setting} {n : Nat}
  {ls ls' : List String} {key value line text : String}

/-- A value that has the settings' part to a key. -/
inductive Spells (s : Settings) : Part → String → String → Prop
  | mode {value : String} (h : Text.lower value = s.mode.text) : Spells s .mode "mode" value
  | permissive {value : String} (h : Text.lower value ∈ Setting.boolWords s.mode.isPermissive) :
      Spells s .mode "permissive" value
  | standard {value : String} (h : Text.lower value ∈ Setting.boolWords s.standard) :
      Spells s .standard "bind_std" value
  | constructors {value : String} (h : Text.lower value ∈ Setting.boolWords s.constructors) :
      Spells s .constructors "bind_api" value
  | libraries : Spells s .libraries "libraries" ("\"" ++ ",".intercalate s.libraries ++ "\"")
  | hook {words : List String} (h : s.hook.NamedBy words) :
      Spells s .hook "hook" (",".intercalate words)
  | interval {digits : List Char} (nonempty : digits ≠ [])
      (h : ∀ d ∈ digits, d.isDigit = true) (same : Nat.ofDigitChars 10 digits 0 = s.interval) :
      Spells s .interval "hook_count" (String.ofList digits)

/-- A line that spells a part, with blanks around the key and around the value. -/
inductive IsSpelling (s : Settings) (p : Part) : String → Prop
  | line {key value front middle rest back : String} (spells : Spells s p key value)
      (hf : Text.IsBlanks front) (hm : Text.IsBlanks middle) (hr : Text.IsBlanks rest)
      (hb : Text.IsBlanks back) :
      IsSpelling s p (front ++ key ++ middle ++ "=" ++ rest ++ value ++ back)

/-- Settings that can stand in a file. -/
structure IsWritable (s : Settings) : Prop where
  names : ∀ name ∈ s.libraries, Text.IsWord Text.isComma name
  interval : s.interval < UInt32.size

theorem Spells.mem_keys (h : Spells s p key value) : key ∈ p.keys := by
  cases h <;> simp [Part.keys]

/-- The value is found between its blanks, and out of its quotes it is what the settings have. -/
theorem Spells.assigns (writable : s.IsWritable) (h : Spells s p key value) :
    Text.trim value = value ∧ Assigns key (unquote value) (s.setting p) := by
  cases h with
  | mode h =>
    have plain : Text.IsPlain value := by
      apply Text.isPlain_of_lower
      rw [h]
      cases s.mode <;> simp [AccessMode.text, Text.IsPlain, Text.isBlank]
    rw [Setting.unquote_of_plain plain]
    exact ⟨plain.trim, .mode (by rw [plain.trim, h])⟩
  | permissive h =>
    have plain := Setting.isPlain_of_boolWords h
    have same : AccessMode.ofPermissive s.mode.isPermissive = s.mode := by cases s.mode <;> rfl
    rw [Setting.unquote_of_plain plain, setting, ← same]
    exact ⟨plain.trim, .permissive h⟩
  | standard h =>
    have plain := Setting.isPlain_of_boolWords h
    rw [Setting.unquote_of_plain plain]
    exact ⟨plain.trim, .standard h⟩
  | constructors h =>
    have plain := Setting.isPlain_of_boolWords h
    rw [Setting.unquote_of_plain plain]
    exact ⟨plain.trim, .constructors h⟩
  | libraries =>
    -- The names are quoted, since they may have quotes and equals signs in them.
    have names : Text.words Text.isComma (",".intercalate s.libraries) = s.libraries :=
      Text.words_intercalate (c := ',') (by simp) rfl writable.names
    have assigns : Assigns "libraries" (",".intercalate s.libraries) _ := .libraries
    rw [Text.items, names] at assigns
    rw [Setting.unquote_quoted]
    exact ⟨Setting.trim_quoted _, assigns⟩
  | hook h =>
    rw [Setting.unquote_of_plain h.isPlain]
    exact ⟨h.isPlain.trim, .hook (h.read List.mem_cons_self)⟩
  | @interval digits nonempty h same =>
    have plain := Decimal.isPlain_of_digits h
    have bound := writable.interval
    rw [← same] at bound
    rw [Setting.unquote_of_plain plain, setting, ← same]
    exact ⟨plain.trim, .interval (Decimal.natural?_ofList nonempty h bound)⟩

theorem IsSpelling.gives (writable : s.IsWritable) (h : IsSpelling s p line) :
    Gives line (s.setting p) := by
  obtain ⟨spells, hf, hm, hr, hb⟩ := h
  obtain ⟨trimmed, assigns⟩ := spells.assigns writable
  exact ⟨_, _, Setting.isAssignment_of_blanks (Setting.isKey_of_mem_keys spells.mem_keys)
    hf hm hr hb trimmed, assigns⟩

theorem applyLines_congr (h : ls.map Text.trim = ls'.map Text.trim) :
    applyLines n s ls = applyLines n s ls' := by
  induction ls generalizing n s ls' with
  | nil =>
    obtain rfl := List.map_eq_nil_iff.mp h.symm
    rfl
  | cons line ls ih =>
    obtain ⟨line', rest', rfl, same, others⟩ := List.map_eq_cons_iff.mp h.symm
    rw [applyLines, applyLines, Setting.ofLine_congr same.symm]
    simp only [ih others.symm]

theorem errorsFrom_eq_nil (h : ∀ line ∈ ls, Setting.cause? line = none) : errorsFrom n ls = [] := by
  induction ls generalizing n with
  | nil => rfl
  | cons line ls ih =>
    obtain ⟨first, others⟩ := List.forall_mem_cons.mp h
    rw [errorsFrom, first, ih others]
    rfl

/-- Where everything given agrees with some settings, what is given becomes what they have. -/
theorem setting_foldl_of_agree (agree : ∀ x ∈ xs, x = s'.setting x.part)
    (h : (∃ x ∈ xs, x.part = p) ∨ s.setting p = s'.setting p) :
    (xs.foldl set s).setting p = s'.setting p := by
  induction xs generalizing s with
  | nil => simpa using h
  | cons x xs ih =>
    obtain ⟨first, others⟩ := List.forall_mem_cons.mp agree
    rw [List.foldl_cons]
    apply ih others
    by_cases same : x.part = p
    · right
      rw [← same, setting_set_part]
      exact first
    · rw [setting_set_of_ne same]
      exact h.imp_left fun given => by simpa [same] using given

/-- Settings are read from a file as they were written to it: each of its lines is a remark or spells
a part, and what no line spells is as it is at first. -/
theorem written_files_are_read_back (writable : s.IsWritable) (written : Text.Written ls text)
    (each : ∀ line ∈ ls, IsRemark line ∨ ∃ p, IsSpelling s p line)
    (complete : ∀ p, (∃ line ∈ ls, IsSpelling s p line) ∨ initial.setting p = s.setting p) :
    ofText text = (s, []) := by
  have errors : errorsFrom 1 ls = [] := by
    refine errorsFrom_eq_nil fun line mem => ?_
    obtain remark | ⟨p, spelling⟩ := each line mem
    · exact (Setting.of_remark remark).2
    · exact (Setting.of_gives (spelling.gives writable)).2
  have agree : ∀ x ∈ given ls, x = s.setting x.part := by
    intro x hx
    obtain ⟨line, mem, found⟩ := List.mem_filterMap.mp hx
    obtain remark | ⟨p, spelling⟩ := each line mem
    · rw [(Setting.of_remark remark).1] at found
      cases found
    · rw [(Setting.of_gives (spelling.gives writable)).1] at found
      cases found
      rw [part_setting]
  -- All lines of a part agree, so it does not matter which of them is the last.
  rw [ofText, applyLines_congr written.trim_lines, applyLines_eq, errors]
  refine congrArg (·, []) (eq_of_setting fun p => setting_foldl_of_agree agree ?_)
  refine (complete p).imp_left ?_
  rintro ⟨line, mem, spelling⟩
  have found := (Setting.of_gives (spelling.gives writable)).1
  exact ⟨s.setting p, List.mem_filterMap.mpr ⟨line, mem, found⟩, part_setting s p⟩

theorem written_files_are_read_back_in_any_layout :
    ofText ("; by hand" ++ "\r\n" ++ ("hook = Call,RET" ++ "\n" ++ ("\tpermissive= OFF" ++ "\n" ++
      ("libraries = \"a=b,\"c\" #\"  " ++ "\r\n" ++ "hook_count=0100")))) =
    (⟨.restrictive, true, true, ["a=b", "\"c\" #"], ⟨true, true, false, false⟩, 100⟩, []) := by
  let s : Settings := ⟨.restrictive, true, true, ["a=b", "\"c\" #"], ⟨true, true, false, false⟩, 100⟩
  have blanks : ∀ b ∈ ["", " ", "\t", "  "], Text.IsBlanks b := by
    simp [Text.IsBlanks, Text.isBlank]
  simp only [List.forall_mem_cons] at blanks
  obtain ⟨bare, one, tab, two, -⟩ := blanks
  have remark : IsRemark "; by hand" := by
    have trimmed : Text.trim "; by hand" = "; by hand" := by decide +kernel
    simp [IsRemark, trimmed]
  have events : s.hook.NamedBy ["Call", "RET"] := by
    refine ⟨?_, fun event => ?_⟩
    · rintro word (_ | ⟨_, _ | ⟨_, ⟨⟩⟩⟩)
      · exact ⟨.call, by decide +kernel⟩
      · exact ⟨.ret, by decide +kernel⟩
    · cases event <;> decide +kernel
  have off : Text.lower "OFF" ∈ Setting.boolWords s.mode.isPermissive := by decide +kernel
  have digits : ['0', '1', '0', '0'] ≠ [] := List.cons_ne_nil _ _
  have hook : IsSpelling s .hook "hook = Call,RET" := .line (.hook events) bare one one bare
  have mode : IsSpelling s .mode "\tpermissive= OFF" := .line (.permissive off) tab bare one bare
  have libraries : IsSpelling s .libraries "libraries = \"a=b,\"c\" #\"  " :=
    .line .libraries bare one one two
  have interval : IsSpelling s .interval "hook_count=0100" :=
    .line (.interval digits (by simp) (by decide +kernel)) bare bare bare bare
  refine written_files_are_read_back (s := s) ⟨?_, by decide +kernel⟩
    (.returned ?_ (.fed ?_ (.fed ?_ (.returned ?_ (.last ?_ ?_))))) ?_ ?_
  · rintro name (_ | ⟨_, _ | ⟨_, ⟨⟩⟩⟩)
    all_goals constructor
    all_goals simp [Text.isComma, Text.isBlank]
  iterate 6 decide +kernel
  · simp only [List.forall_mem_cons]
    exact ⟨.inl remark, .inr ⟨_, hook⟩, .inr ⟨_, mode⟩, .inr ⟨_, libraries⟩, .inr ⟨_, interval⟩,
      List.forall_mem_nil _⟩
  · rintro (_ | _ | _ | _ | _ | _)
    · exact .inl ⟨_, by simp, mode⟩
    · exact .inr rfl
    · exact .inr rfl
    · exact .inl ⟨_, by simp, libraries⟩
    · exact .inl ⟨_, by simp, hook⟩
    · exact .inl ⟨_, by simp, interval⟩

end Settings

end ScriptHost
