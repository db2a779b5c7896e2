import ScriptHost.Settings
import ScriptHost.Proofs.Fault.Results
import ScriptHost.Proofs.Text.Lines

/-! Settings files line by line. What a line gives is decided by that line alone. It is a remark, or
it gives one setting, or it is refused, reported with its number, and changes nothing; of the lines
that give the same setting the last one counts. -/

namespace ScriptHost

/-! ### Settings one by one -/

/-- What settings are about. -/
inductive Settings.Part
  | mode | standard | constructors | libraries | hook | interval
deriving DecidableEq

/-- The keys under which files give a part. -/
def Settings.Part.keys : Settings.Part → List String
  | mode => ["mode", "permissive"]
  | standard => ["bind_std"]
  | constructors => ["bind_api"]
  | libraries => ["libraries"]
  | hook => ["hook"]
  | interval => ["hook_count"]

def Setting.part : Setting → Settings.Part
  | mode _ => .mode
  | standard _ => .standard
  | constructors _ => .constructors
  | libraries _ => .libraries
  | hook _ => .hook
  | interval _ => .interval

namespace Settings

/-- What the settings have for a part. -/
def setting (s : Settings) : Part → Setting
  | .mode => .mode s.mode
  | .standard => .standard s.standard
  | .constructors => .constructors s.constructors
  | .libraries => .libraries s.libraries
  | .hook => .hook s.hook
  | .interval => .interval s.interval

variable {s s' : Settings} {p : Part} {x : Setting} {xs : List Setting}

@[simp] theorem part_setting (s : Settings) (p : Part) : (s.setting p).part = p := by
  cases p <;> rfl

@[simp] theorem setting_set_part (s : Settings) (x : Setting) : (s.set x).setting x.part = x := by
  cases x <;> rfl

theorem setting_set_of_ne (h : x.part ≠ p) : (s.set x).setting p = s.setting p := by
  cases x <;> cases p <;> first | rfl | exact absurd rfl h

theorem eq_of_setting (h : ∀ p, s.setting p = s'.setting p) : s = s' := by
  have mode := h .mode
  have standard := h .standard
  have constructors := h .constructors
  have libraries := h .libraries
  have hook := h .hook
  have interval := h .interval
  cases s
  cases s'
  simp_all [setting]

/-- A part that is not given stays. -/
theorem setting_foldl_of_ne (h : ∀ x ∈ xs, x.part ≠ p) :
    (xs.foldl set s).setting p = s.setting p := by
  induction xs generalizing s with
  | nil => rfl
  | cons x xs ih =>
    obtain ⟨first, others⟩ := List.forall_mem_cons.mp h
    rw [List.foldl_cons, ih others, setting_set_of_ne first]

end Settings

/-! ### What a line gives -/

namespace Setting

variable {key value line line' : String} {x : Setting}

/-- The words for a truth value, in small letters. -/
def boolWords : Bool → List String
  | true => ["1", "on", "yes", "true"]
  | false => ["0", "off", "no", "false"]

/-- What a value gives under a key. -/
inductive Assigns : String → String → Setting → Prop
  | mode {value : String} {m : AccessMode} (h : Text.lower (Text.trim value) = m.text) :
      Assigns "mode" value (.mode m)
  | permissive {value : String} {b : Bool} (h : Text.lower value ∈ boolWords b) :
      Assigns "permissive" value (.mode (.ofPermissive b))
  | standard {value : String} {b : Bool} (h : Text.lower value ∈ boolWords b) :
      Assigns "bind_std" value (.standard b)
  | constructors {value : String} {b : Bool} (h : Text.lower value ∈ boolWords b) :
      Assigns "bind_api" value (.constructors b)
  | libraries {value : String} : Assigns "libraries" value (.libraries (Text.items value))
  | hook {value : String} {mask : Mask} (h : Mask.read value = .ok mask) :
      Assigns "hook" value (.hook mask)
  | interval {value : String} {n : Nat} (h : Decimal.natural? 32 value = some n) :
      Assigns "hook_count" value (.interval n)

theorem Assigns.mem_keys (h : Assigns key value x) : key ∈ x.part.keys := by
  cases h <;> simp [part, Settings.Part.keys]

/-- A blank line, or one with a mark in front. -/
def IsRemark (line : String) : Prop := ∀ c ∈ (Text.trim line).toList.head?, c = '#' ∨ c = ';'

/-- The line assigns a value to a key: they stand on both sides of its first equals sign, and the
value may be in quotes. -/
def IsAssignment (line key value : String) : Prop :=
  ¬ IsRemark line ∧ ∃ before after : String,
    (Text.trim line).toList = before.toList ++ '=' :: after.toList ∧ '=' ∉ before.toList ∧
    key = Text.trim before ∧ value = unquote (Text.trim after)

/-- The line gives a setting. -/
def Gives (line : String) (x : Setting) : Prop :=
  ∃ key value, IsAssignment line key value ∧ Assigns key value x

theorem readMode_eq_ok_iff {m : AccessMode} :
    AccessMode.read value = .ok m ↔ Text.lower (Text.trim value) = m.text := by
  rw [AccessMode.read]
  split
  case isTrue h =>
    rw [h]
    cases m <;> simp [AccessMode.text]
  case isFalse h =>
    split
    case isTrue h' =>
      rw [h']
      cases m <;> simp [AccessMode.text]
    case isFalse h' => cases m <;> simp [AccessMode.text, h, h']

theorem readBool_eq_ok_iff {b : Bool} : readBool value = .ok b ↔ Text.lower value ∈ boolWords b := by
  unfold readBool
  split <;> cases b <;> simp_all [boolWords]

theorem readInterval_eq_ok_iff {n : Nat} :
    readInterval value = .ok n ↔ Decimal.natural? 32 value = some n := by
  unfold readInterval
  split <;> simp_all

theorem ofAssignment_eq_ok_iff : ofAssignment key value = .ok x ↔ Assigns key value x := by
  constructor
  · intro h
    unfold ofAssignment at h
    split at h
    case h_1 =>
      obtain ⟨m, found, rfl⟩ := map_eq_ok.mp h
      exact .mode (readMode_eq_ok_iff.mp (mapError_eq_ok.mp found))
    case h_2 =>
      obtain ⟨b, found, rfl⟩ := map_eq_ok.mp h
      exact .permissive (readBool_eq_ok_iff.mp found)
    case h_3 =>
      obtain ⟨b, found, rfl⟩ := map_eq_ok.mp h
      exact .standard (readBool_eq_ok_iff.mp found)
    case h_4 =>
      obtain ⟨b, found, rfl⟩ := map_eq_ok.mp h
      exact .constructors (readBool_eq_ok_iff.mp found)
    case h_5 =>
      cases h
      exact .libraries
    case h_6 =>
      obtain ⟨mask, found, rfl⟩ := map_eq_ok.mp h
      exact .hook (mapError_eq_ok.mp found)
    case h_7 =>
      obtain ⟨n, found, rfl⟩ := map_eq_ok.mp h
      exact .interval (readInterval_eq_ok_iff.mp found)
    case h_8 => cases h
  · intro h
    cases h with
    | mode h => simpa [ofAssignment, map_eq_ok, mapError_eq_ok, readMode_eq_ok_iff]
    | permissive h => exact map_eq_ok.mpr ⟨_, readBool_eq_ok_iff.mpr h, rfl⟩
    | standard h | constructors h =>
      simpa [ofAssignment, map_eq_ok, readBool_eq_ok_iff]
    | libraries => simp [ofAssignment]
    | hook h => simpa [ofAssignment, map_eq_ok, readMask, mapError_eq_ok]
    | interval h => simpa [ofAssignment, map_eq_ok, readInterval_eq_ok_iff]

theorem isRemark_iff : isRemark (Text.trim line).toList = true ↔ IsRemark line := by
  unfold isRemark IsRemark
  cases (Text.trim line).toList <;> simp

theorem ofLine_of_remark (h : IsRemark line) : ofLine line = .ok none := by
  rw [ofLine, if_pos (isRemark_iff.mpr h)]

theorem ofLine_ne_none (h : ¬ IsRemark line) : ofLine line ≠ .ok none := by
  rw [ofLine, if_neg (mt isRemark_iff.mp h)]
  split
  · exact nofun
  · intro ok
    obtain ⟨x, -, none_eq⟩ := map_eq_ok.mp ok
    cases none_eq

theorem ofLine_eq_some_iff : ofLine line = .ok (some x) ↔ Gives line x := by
  constructor
  · intro h
    have plain : ¬ IsRemark line := fun remark => by simp [ofLine_of_remark remark] at h
    rw [ofLine, if_neg (mt isRemark_iff.mp plain)] at h
    split at h
    case h_1 => cases h
    case h_2 before after cut =>
      obtain ⟨y, found, same⟩ := map_eq_ok.mp h
      cases same
      obtain ⟨whole, apart⟩ := Text.cutAt_eq_some_iff.mp cut
      exact ⟨_, _, ⟨plain, before, after, whole, apart, rfl, rfl⟩, ofAssignment_eq_ok_iff.mp found⟩
  · rintro ⟨key, value, ⟨plain, before, after, whole, apart, rfl, rfl⟩, assigns⟩
    rw [ofLine, if_neg (mt isRemark_iff.mp plain), Text.cutAt_eq_some_iff.mpr ⟨whole, apart⟩]
    exact map_eq_ok.mpr ⟨x, ofAssignment_eq_ok_iff.mpr assigns, rfl⟩

/-- Blanks around a line do not count. -/
theorem ofLine_congr (h : Text.trim line = Text.trim line') : ofLine line = ofLine line' := by
  rw [ofLine, ofLine, h]

/-- The setting that a line gives, if any. -/
def given? (line : String) : Option Setting :=
  match ofLine line with
  | .ok x? => x?
  | .error _ => none

/-- What is wrong with a line, if anything. -/
def cause? (line : String) : Option SettingError :=
  match ofLine line with
  | .ok _ => none
  | .error cause => some cause

theorem given?_eq_some_iff : given? line = some x ↔ Gives line x := by
  rw [← ofLine_eq_some_iff, given?]
  cases ofLine line <;> simp

theorem of_remark (h : IsRemark line) : given? line = none ∧ cause? line = none := by
  simp [given?, cause?, ofLine_of_remark h]

theorem of_gives (h : Gives line x) : given? line = some x ∧ cause? line = none := by
  simp [given?, cause?, ofLine_eq_some_iff.mpr h]

/-- A line that neither says nothing nor gives a setting is refused. -/
theorem of_other (plain : ¬ IsRemark line) (h : ∀ x, ¬ Gives line x) :
    given? line = none ∧ ∃ cause, cause? line = some cause := by
  cases hl : ofLine line with
  | error cause => simp [given?, cause?, hl]
  | ok x? =>
    cases x? with
    | none => exact absurd hl (ofLine_ne_none plain)
    | some x => exact absurd (ofLine_eq_some_iff.mp hl) (h x)

end Setting

/-! ### Files -/

/-- The error on a later line. -/
def LineError.shift (k : Nat) (e : LineError) : LineError := { e with line := e.line + k }

namespace Settings

open Setting (Gives IsRemark IsAssignment Assigns given? cause?)

variable {s : Settings} {n i k : Nat} {ls ls' : List String} {line : String}

/-- The settings that lines give, in order. -/
def given (ls : List String) : List Setting := ls.filterMap given?

/-- The errors of lines the first of which has number `n`. -/
def errorsFrom (n : Nat) : List String → List LineError
  | [] => []
  | line :: rest => (cause? line).toList.map (⟨n, ·⟩) ++ errorsFrom (n + 1) rest

/-- What lines give does not depend on the settings before, and their errors not at all. -/
theorem applyLines_eq : applyLines n s ls = ((given ls).foldl set s, errorsFrom n ls) := by
  induction ls generalizing n s with
  | nil => rfl
  | cons line rest ih =>
    rw [applyLines, given, List.filterMap_cons, errorsFrom, given?, cause?]
    cases Setting.ofLine line with
    | error cause => simp [ih, given]
    | ok x? => cases x? <;> simp [ih, given]

theorem errorsFrom_append :
    errorsFrom n (ls ++ ls') = errorsFrom n ls ++ errorsFrom (n + ls.length) ls' := by
  induction ls generalizing n with
  | nil => rfl
  | cons line rest ih =>
    rw [List.cons_append, errorsFrom, ih, errorsFrom, List.append_assoc, List.length_cons,
      Nat.add_right_comm n 1, Nat.add_assoc n]

theorem errorsFrom_add : errorsFrom (n + k) ls = (errorsFrom n ls).map (·.shift k) := by
  induction ls generalizing n with
  | nil => rfl
  | cons line rest ih =>
    rw [errorsFrom, errorsFrom, Nat.add_right_comm, ih, List.map_append]
    cases cause? line <;> rfl

theorem le_line_of_mem {e : LineError} (h : e ∈ errorsFrom n ls) : n ≤ e.line := by
  induction ls generalizing n with
  | nil => cases h
  | cons line rest ih =>
    rw [errorsFrom, List.mem_append] at h
    obtain here | later := h
    · obtain ⟨cause, -, rfl⟩ := List.mem_map.mp here
      exact Nat.le_refl n
    · exact Nat.le_of_succ_le (ih later)

theorem errorsFrom_increasing : ((errorsFrom n ls).map LineError.line).Pairwise (· < ·) := by
  induction ls generalizing n with
  | nil => exact .nil
  | cons line rest ih =>
    rw [errorsFrom]
    cases cause? line with
    | none => exact ih
    | some cause =>
      refine List.pairwise_cons.mpr ⟨fun k hk => ?_, ih⟩
      obtain ⟨e, he, rfl⟩ := List.mem_map.mp hk
      exact le_line_of_mem he

/-- Under the number of a line stands its own error and no other. -/
theorem errorsFrom_filter (h : ls[i]? = some line) :
    (errorsFrom n ls).filter (·.line = n + i) = (cause? line).toList.map (⟨n + i, ·⟩) := by
  induction ls generalizing n i with
  | nil => cases h
  | cons first rest ih =>
    rw [errorsFrom, List.filter_append]
    cases i with
    | zero =>
      cases h
      have later : (errorsFrom (n + 1) rest).filter (·.line = n + 0) = [] := by
        rw [List.filter_eq_nil_iff]
        intro e he
        have := le_line_of_mem he
        simp
        omega
      rw [later, List.append_nil]
      cases cause? line <;> simp
    | succ i =>
      have next := ih (n := n + 1) (i := i) h
      rw [Nat.add_right_comm, Nat.add_assoc] at next
      rw [next]
      cases cause? first <;> simp

/-- The settings after the first lines of a text. -/
def upTo (text : String) (i : Nat) : Settings :=
  (applyLines 1 initial ((Text.lines text).take i)).1

/-- The errors reported for one number. -/
def errorsAt (text : String) (k : Nat) : List LineError := (ofText text).2.filter (·.line = k)

variable {text : String} {x : Setting} {p : Part}

theorem upTo_succ (h : (Text.lines text)[i]? = some line) :
    upTo text (i + 1) = (given? line).toList.foldl set (upTo text i) := by
  rw [upTo, upTo, applyLines_eq, applyLines_eq, List.take_add_one, h, given, given,
    List.filterMap_append, List.foldl_append]
  cases hg : given? line <;> simp [hg]

theorem errorsAt_succ (h : (Text.lines text)[i]? = some line) :
    errorsAt text (i + 1) = (cause? line).toList.map (⟨i + 1, ·⟩) := by
  rw [errorsAt, ofText, applyLines_eq, Nat.add_comm i 1, errorsFrom_filter h]

theorem ofText_fst (text : String) (i : Nat) : (ofText text).1 =
    (given ((Text.lines text).drop i)).foldl set (upTo text i) := by
  rw [upTo, ofText, applyLines_eq, applyLines_eq, given, given, given, ← List.foldl_append,
    ← List.filterMap_append, List.take_append_drop]

theorem exists_gives_of_mem (h : x ∈ given ls) : ∃ line ∈ ls, Gives line x := by
  obtain ⟨line, mem, found⟩ := List.mem_filterMap.mp h
  exact ⟨line, mem, Setting.given?_eq_some_iff.mp found⟩

/-- What becomes of the lines of a text. -/
structure ReadByLines (text : String) : Prop where
  remark : ∀ i line, (Text.lines text)[i]? = some line → IsRemark line →
    upTo text (i + 1) = upTo text i ∧ errorsAt text (i + 1) = []
  /-- An assignment that can be read changes its own part, and no other. -/
  assigned : ∀ i line, (Text.lines text)[i]? = some line → ∀ key value x,
    IsAssignment line key value → Assigns key value x →
      key ∈ x.part.keys ∧ upTo text (i + 1) = (upTo text i).set x ∧
      (∀ p, x.part ≠ p → (upTo text (i + 1)).setting p = (upTo text i).setting p) ∧
      errorsAt text (i + 1) = []
  refused : ∀ i line, (Text.lines text)[i]? = some line → ¬ IsRemark line →
    (∀ x, ¬ Gives line x) →
      upTo text (i + 1) = upTo text i ∧ ∃ cause, errorsAt text (i + 1) = [⟨i + 1, cause⟩]
  whole : (ofText text).1 = upTo text (Text.lines text).length
  increasing : ((ofText text).2.map LineError.line).Pairwise (· < ·)
  /-- The last line that gives a part wins. -/
  last : ∀ (i : Nat) line x, (Text.lines text)[i]? = some line → Gives line x →
    (∀ (j : Nat) line', i < j → (Text.lines text)[j]? = some line' →
      ∀ x', Gives line' x' → x'.part ≠ x.part) →
    (ofText text).1.setting x.part = x
  unset : ∀ p, (∀ line ∈ Text.lines text, ∀ x, Gives line x → x.part ≠ p) →
    (ofText text).1.setting p = initial.setting p

theorem readByLines (text : String) : ReadByLines text where
  remark i line here remark := by
    obtain ⟨no_setting, no_cause⟩ := Setting.of_remark remark
    rw [upTo_succ here, errorsAt_succ here, no_setting, no_cause]
    exact ⟨rfl, rfl⟩
  assigned i line here key value x assignment assigns := by
    obtain ⟨found, no_cause⟩ := Setting.of_gives ⟨key, value, assignment, assigns⟩
    rw [upTo_succ here, errorsAt_succ here, found, no_cause]
    exact ⟨assigns.mem_keys, rfl, fun p other => setting_set_of_ne other, rfl⟩
  refused i line here plain refused := by
    obtain ⟨no_setting, cause, wrong⟩ := Setting.of_other plain refused
    rw [upTo_succ here, errorsAt_succ here, no_setting, wrong]
    exact ⟨rfl, cause, rfl⟩
  whole := by rw [upTo, List.take_length, ofText]
  increasing := by
    rw [ofText, applyLines_eq]
    exact errorsFrom_increasing
  last i line x here gives last := by
    -- What comes after the last line of a part leaves the part alone.
    have later : ∀ x' ∈ given ((Text.lines text).drop (i + 1)), x'.part ≠ x.part := by
      intro x' hx'
      obtain ⟨line', mem, gives'⟩ := exists_gives_of_mem hx'
      obtain ⟨k, hk⟩ := List.mem_iff_getElem?.mp mem
      rw [List.getElem?_drop] at hk
      exact last (i + 1 + k) line' (by omega) hk x' gives'
    rw [ofText_fst text (i + 1), setting_foldl_of_ne later, upTo_succ here,
      (Setting.of_gives gives).1]
    exact setting_set_part _ x
  unset p none_gives := by
    have never : ∀ x ∈ given ((Text.lines text).drop 0), x.part ≠ p := by
      intro x hx
      obtain ⟨line, mem, gives⟩ := exists_gives_of_mem hx
      exact none_gives line mem x gives
    rw [ofText_fst text 0, setting_foldl_of_ne never]
    rfl

/-- Settings files are read line by line: a file that goes on goes on from where it was. -/
theorem files_are_read_by_lines :
    (∀ s t, Text.IsEnded s →
      (ofText (s ++ t)).1 = (applyLines 1 (ofText s).1 (Text.lines t)).1 ∧
      (ofText (s ++ t)).2 =
        (ofText s).2 ++ (ofText t).2.map (·.shift (Text.lines s).length)) ∧
    ∀ text, ReadByLines text := by
  refine ⟨fun s t ended => ?_, readByLines⟩
  rw [ofText, ofText, ofText, applyLines_eq, applyLines_eq, applyLines_eq, applyLines_eq,
    Text.lines_append ended, given, List.filterMap_append, List.foldl_append, errorsFrom_append,
    errorsFrom_add]
  exact ⟨rfl, rfl⟩

theorem files_are_read_by_lines_after_an_error :
    (Text.IsEnded "mode = permissive\nwhat\n" ∧
      (ofText ("mode = permissive\nwhat\n" ++ "mode\nbind_std = off")).2 =
        [⟨2, .noAssignment "what"⟩, ⟨3, .noAssignment "mode"⟩]) ∧
    (ofText "mode = permissive\nwhat").1.setting .mode = .mode .permissive := by
  have ended : Text.IsEnded "mode = permissive\nwhat\n" := by simp [Text.IsEnded]
  obtain ⟨together, each⟩ := files_are_read_by_lines
  refine ⟨⟨ended, (together _ "mode\nbind_std = off" ended).2⟩, ?_⟩
  refine (each "mode = permissive\nwhat").last 0 "mode = permissive" (.mode .permissive) rfl ?_ ?_
  · exact Setting.ofLine_eq_some_iff.mp rfl
  · intro j line' later here x' gives
    obtain _ | _ | j := j
    · cases later
    · cases here
      cases Setting.ofLine_eq_some_iff.mpr gives
    · cases here

end Settings

end ScriptHost
