import ScriptHost.CommandLine
import ScriptHost.Proofs.Hook.Names

/-! Command lines written out. What the options of a command line tell has a few parts, each with a
group of arguments of its own. The groups are read back in whatever order they stand. -/

namespace ScriptHost

/-- An argument that holds options. -/
def CommandLine.dashed (cs : List Char) : String := String.ofList ('-' :: cs)

open CommandLine (dashed)

/-- An option with its value, which is an argument by itself or the rest of the same argument. -/
inductive Valued.Spells (option : Valued) (value : String) : List String → Prop
  | apart : Spells option value [dashed [option.letter], value]
  | attached (h : value ≠ "") : Spells option value [dashed (option.letter :: value.toList)]

namespace CommandLine

variable {cl acc : CommandLine} {cs : List Char} {args rest : List String}

/-! ### Reading options -/

theorem optionLetters?_dashed (hc : cs ≠ []) : optionLetters? (dashed cs) = some cs := by
  obtain ⟨c, cs, rfl⟩ := List.exists_cons_of_ne_nil hc
  rw [optionLetters?, dashed, String.toList_ofList]
  rfl

theorem dashed_ne_end (hd : cs ≠ ['-']) : dashed cs ≠ "--" := by
  intro h
  exact hd (by simpa [dashed] using congrArg String.toList h)

theorem readFrom_of_error {e : UsageError} (hc : cs ≠ []) (hd : cs ≠ ['-'])
    (h : letters cl cs = .error e) : readFrom cl (dashed cs :: rest) = .error e := by
  rw [readFrom, if_neg (dashed_ne_end hd), optionLetters?_dashed hc]
  dsimp only
  rw [h]

/-- A second dash is no option. -/
theorem ne_dash_of_letters {found : CommandLine × Wanted} (h : letters cl cs = .ok found) :
    cs ≠ ['-'] := by
  rintro rfl
  cases h

theorem readFrom_of_letters (hc : cs ≠ []) (h : letters cl cs = .ok (acc, .nothing)) :
    readFrom cl (dashed cs :: rest) = readFrom acc rest := by
  rw [readFrom, if_neg (dashed_ne_end (ne_dash_of_letters h)), optionLetters?_dashed hc]
  dsimp only
  rw [h]

theorem readFrom_of_value {option : Valued} {value : String} (hc : cs ≠ [])
    (h : letters cl cs = .ok (acc, .value option)) :
    readFrom cl (dashed cs :: value :: rest) = acc.give option value >>= (readFrom · rest) := by
  rw [readFrom, if_neg (dashed_ne_end (ne_dash_of_letters h)), optionLetters?_dashed hc]
  dsimp only
  rw [h]
  dsimp only
  cases acc.give option value <;> rfl

/-- The next argument, if there is one, is no settings file. -/
def NoFileAhead (rest : List String) : Prop := ∀ next ∈ rest.head?, looksLikeFile next = false

theorem readFrom_of_file (hc : cs ≠ []) (h : letters cl cs = .ok (acc, .file))
    (hr : NoFileAhead rest) :
    readFrom cl (dashed cs :: rest) = readFrom { acc with settings := .skip } rest := by
  rw [readFrom, if_neg (dashed_ne_end (ne_dash_of_letters h)), optionLetters?_dashed hc]
  dsimp only
  rw [h]
  cases rest with
  | nil => rfl
  | cons next rest =>
    dsimp only
    rw [if_neg (by simp [hr next rfl])]

theorem noFileAhead_dashed : NoFileAhead (dashed cs :: rest) := by
  rintro next ⟨⟩
  have dash : (dashed cs).startsWith "-" = true := by
    simp [dashed, String.startsWith_string_iff]
  simp [looksLikeFile, dash]

theorem noFileAhead_valued {option : Valued} {value : String} (h : option.Spells value args) :
    NoFileAhead (args ++ rest) := by
  cases h <;> exact noFileAhead_dashed

theorem letters_valued (option : Valued) :
    letters cl (option.letter :: cs) = cl.giveRest option cs := by
  cases option <;> rfl

/-- It does not matter where the value of an option stands. -/
theorem readFrom_valued {option : Valued} {value : String} (h : option.Spells value args) :
    readFrom cl (args ++ rest) = cl.give option value >>= (readFrom · rest) := by
  cases h with
  | apart => exact readFrom_of_value (List.cons_ne_nil _ _) (letters_valued option)
  | attached nonempty =>
    have found : letters cl (option.letter :: value.toList) =
        (cl.give option value).map (·, .nothing) := by
      rw [letters_valued, giveRest, if_neg (by simpa using nonempty), String.ofList_toList]
    cases given : cl.give option value with
    | ok acc =>
      rw [given] at found
      exact readFrom_of_letters (List.cons_ne_nil _ _) found
    | error e =>
      rw [given] at found
      have letter : option.letter :: value.toList ≠ ['-'] := by cases option <;> exact nofun
      exact readFrom_of_error (List.cons_ne_nil _ _) letter found

/-! ### Parts -/

/-- What the options of a command line tell about. -/
inductive Part
  | mode | debug | bare | libraries | trace | command | settings
deriving DecidableEq

namespace Part

/-- Whether two command lines agree on a part. -/
def Same (a b : CommandLine) : Part → Prop
  | mode => a.mode = b.mode
  | debug => a.debug = b.debug
  | bare => a.bare = b.bare
  | libraries => a.libraries = b.libraries
  | trace => a.trace = b.trace
  | command => a.command = b.command
  | settings => a.settings = b.settings

/-- A part is left out where it is as it is at first. -/
def IsSet (cl : CommandLine) (p : Part) : Prop := ¬ Same cl initial p

/-- The groups of arguments for what `cl` has in a part. -/
inductive Spells (cl : CommandLine) : Part → List String → Prop
  | permissive (h : cl.mode = some .permissive) : Spells cl mode [dashed ['p']]
  | restrictive (h : cl.mode = some .restrictive) : Spells cl mode [dashed ['r']]
  | debug (h : cl.debug = true) : Spells cl debug [dashed ['d']]
  | bare (h : cl.bare = true) : Spells cl bare [dashed ['n']]
  | libraries {args : List String}
      (h : Valued.libraries.Spells (",".intercalate cl.libraries) args) : Spells cl libraries args
  | trace {m : Mask} {args : List String} (hm : cl.trace = some m)
      (h : Valued.trace.Spells (",".intercalate m.names) args) : Spells cl trace args
  | command {s : String} {args : List String} (hs : cl.command = some s)
      (h : Valued.command.Spells s args) : Spells cl command args
  | skip (h : cl.settings = .skip) : Spells cl settings [dashed ['f']]
  | file {path : String} (h : cl.settings = .file path) :
      Spells cl settings [dashed ('f' :: path.toList)]

/-- Takes a part over from another command line. -/
def copy (cl acc : CommandLine) : Part → CommandLine
  | mode => { acc with mode := cl.mode }
  | debug => { acc with debug := cl.debug }
  | bare => { acc with bare := cl.bare }
  | libraries => { acc with libraries := cl.libraries }
  | trace => { acc with trace := cl.trace }
  | command => { acc with command := cl.command }
  | settings => { acc with settings := cl.settings }

variable {p q : Part} {a b c : CommandLine}

theorem Same.trans (h : p.Same a b) (h' : p.Same b c) : p.Same a c := by
  cases p <;> exact Eq.trans h h'

theorem Same.symm (h : p.Same a b) : p.Same b a := by
  cases p <;> exact Eq.symm h

theorem same_copy (p : Part) : p.Same (p.copy cl acc) cl := by
  cases p <;> rfl

theorem same_copy_of_ne (h : p ≠ q) : p.Same (q.copy cl acc) acc := by
  cases p <;> cases q <;> first | rfl | exact absurd rfl h

theorem script_copy (p : Part) : (p.copy cl acc).script = acc.script := by
  cases p <;> rfl

theorem arguments_copy (p : Part) : (p.copy cl acc).arguments = acc.arguments := by
  cases p <;> rfl

/-- Besides its parts a command line has the script and its arguments. -/
theorem eq_of_same (h : ∀ p, Same a b p) (hs : a.script = b.script)
    (ha : a.arguments = b.arguments) : a = b := by
  cases a
  cases b
  rw [mk.injEq]
  exact ⟨h mode, h settings, h libraries, h bare, h trace, h command, h debug, hs, ha⟩

/-- With a copy of `q` to begin with, `q` is one of the parts that were taken over. -/
theorem Same.of_copy {order : List Part}
    (told : p.Same a (if p ∈ order then cl else q.copy cl acc)) :
    p.Same a (if p ∈ q :: order then cl else acc) := by
  by_cases later : p ∈ order
  · rw [if_pos later] at told
    rwa [if_pos (List.mem_cons_of_mem _ later)]
  rw [if_neg later] at told
  by_cases now : p = q
  · rw [now] at told ⊢
    rw [if_pos List.mem_cons_self]
    exact told.trans (same_copy q)
  · rw [if_neg (by simp [now, later])]
    exact told.trans (same_copy_of_ne now)

theorem Spells.noFileAhead (h : p.Spells cl args) : NoFileAhead (args ++ rest) := by
  cases h with
  | libraries h | trace _ h | command _ h => exact noFileAhead_valued h
  | _ => exact noFileAhead_dashed

end Part

/-- What can be told on a command line: libraries with names that stand in a list as they are, a
settings file with a name, and no arguments without a script. -/
structure IsWritable (cl : CommandLine) : Prop where
  libraries : ∀ name ∈ cl.libraries, Text.IsWord Text.isComma name
  settings : cl.settings ≠ .file ""
  arguments : cl.script = none → cl.arguments = []

/-- A group of arguments hands its part of the command line over. -/
theorem readFrom_part (hcl : cl.IsWritable) {p : Part} (fresh : p.Same acc initial)
    (h : p.Spells cl args) (hr : NoFileAhead rest) :
    readFrom acc (args ++ rest) = readFrom (p.copy cl acc) rest := by
  cases h with
  | permissive h | restrictive h | debug h | bare h =>
    rw [Part.copy, h]
    exact readFrom_of_letters (List.cons_ne_nil _ _) rfl
  | libraries h =>
    have names : Text.items (",".intercalate cl.libraries) = cl.libraries :=
      Text.words_intercalate (c := ',') (by simp) rfl hcl.libraries
    rw [readFrom_valued h, give, names, show acc.libraries = [] from fresh]
    rfl
  | trace hm h =>
    rw [readFrom_valued h, give, Mask.read_names _ List.mem_cons_self, Part.copy, hm]
    rfl
  | command hs h =>
    rw [readFrom_valued h, give, Part.copy, hs]
    rfl
  | skip h =>
    rw [Part.copy, h]
    exact readFrom_of_file (List.cons_ne_nil _ _) rfl hr
  | @file path h =>
    have named : path.toList ≠ [] := by
      intro empty
      exact hcl.settings (by rw [h, String.toList_eq_nil_iff.mp empty])
    have found : letters acc ('f' :: path.toList) =
        .ok ({ acc with settings := .file path }, .nothing) := by
      rw [letters, if_neg named, String.ofList_toList]
    rw [Part.copy, h]
    exact readFrom_of_letters (List.cons_ne_nil _ _) found

/-- Groups for different parts hand over these parts, and nothing else. -/
theorem exists_readFrom (hcl : cl.IsWritable) {spelling : Part → List String}
    (hr : NoFileAhead rest) {order : List Part} (once : order.Nodup)
    (fresh : ∀ p ∈ order, p.Same acc initial) (h : ∀ p ∈ order, p.Spells cl (spelling p)) :
    ∃ got, readFrom acc (order.flatMap spelling ++ rest) = readFrom got rest ∧
      got.script = acc.script ∧ got.arguments = acc.arguments ∧
      ∀ p : Part, p.Same got (if p ∈ order then cl else acc) := by
  induction order generalizing acc with
  | nil => exact ⟨acc, rfl, rfl, rfl, fun p => by cases p <;> rfl⟩
  | cons q order ih =>
    obtain ⟨new, once⟩ := List.nodup_cons.mp once
    obtain ⟨first, others⟩ := List.forall_mem_cons.mp h
    have ahead : NoFileAhead (order.flatMap spelling ++ rest) := by
      cases order with
      | nil => exact hr
      | cons p order =>
        rw [List.flatMap_cons, List.append_assoc]
        exact (others p List.mem_cons_self).noFileAhead
    -- no other part has changed, so none of them has been told yet
    have still : ∀ p ∈ order, p.Same (q.copy cl acc) initial := fun p hp =>
      (Part.same_copy_of_ne (ne_of_mem_of_not_mem hp new)).trans
        (fresh p (List.mem_cons_of_mem _ hp))
    obtain ⟨got, read, script, arguments, same⟩ := ih once still others
    refine ⟨got, ?_, script.trans (Part.script_copy q), arguments.trans (Part.arguments_copy q),
      fun p => (same p).of_copy⟩
    rw [List.flatMap_cons, List.append_assoc, readFrom_part hcl (fresh q List.mem_cons_self) first
      ahead, read]

/-- The script and its arguments, behind a mark that they begin there. -/
def ending (cl : CommandLine) : List String :=
  match cl.script with
  | none => []
  | some script => "--" :: script :: cl.arguments

theorem noFileAhead_ending : NoFileAhead cl.ending := by
  unfold ending
  split
  · exact nofun
  · exact noFileAhead_dashed

/-- What is written is read: groups of arguments for all parts that are set, in any order, and then
the script. -/
theorem read_spelled (hcl : cl.IsWritable) {order : List Part} (once : order.Nodup)
    (complete : ∀ p, p ∈ order ↔ p.IsSet cl) {spelling : Part → List String}
    (h : ∀ p ∈ order, p.Spells cl (spelling p)) :
    read (order.flatMap spelling ++ cl.ending) = .ok cl := by
  have fresh : ∀ p ∈ order, p.Same initial initial := fun p _ => by cases p <;> rfl
  obtain ⟨got, read_groups, script, arguments, same⟩ :=
    exists_readFrom hcl noFileAhead_ending once fresh h
  -- A part that is spelled was handed over, and any other is as it is at first.
  have told (p : Part) : p.Same got cl := by
    by_cases set : p ∈ order
    · simpa [set] using same p
    · have unset : p.Same cl initial := Classical.not_not.mp (mt (complete p).mpr set)
      have kept : p.Same got initial := by simpa [set] using same p
      exact kept.trans unset.symm
  rw [read, read_groups, ending]
  cases hs : cl.script with
  | none =>
    rw [readFrom]
    exact congrArg Except.ok (Part.eq_of_same told (script.trans hs.symm)
      (arguments.trans (hcl.arguments hs).symm))
  | some name =>
    rw [readFrom, if_pos rfl, withScript]
    refine congrArg Except.ok (Part.eq_of_same (fun p => ?_) hs.symm rfl)
    have apart : p.Same { got with script := some name, arguments := cl.arguments } got := by
      cases p <;> rfl
    exact apart.trans (told p)

/-- Values may look like options, and the script like the mark in front of it. -/
theorem read_spelled_script :
    read ["-t", "call,line", "-f", "-lstring,math", "-c", "--", "-d", "--", "--", "-p", "--"] =
      .ok ⟨none, .skip, ["string", "math"], false, some ⟨true, false, true, false⟩, some "--",
        true, some "--", ["-p", "--"]⟩ := by
  let cl : CommandLine := ⟨none, .skip, ["string", "math"], false,
    some ⟨true, false, true, false⟩, some "--", true, some "--", ["-p", "--"]⟩
  let order : List Part := [.trace, .settings, .libraries, .command, .debug]
  let spelling : Part → List String
    | .trace => ["-t", "call,line"]
    | .settings => ["-f"]
    | .libraries => ["-lstring,math"]
    | .command => ["-c", "--"]
    | _ => ["-d"]
  have writable : cl.IsWritable := by
    refine ⟨fun name hn => ?_, nofun, nofun⟩
    simp only [cl, List.mem_cons, List.not_mem_nil, or_false] at hn
    rcases hn with rfl | rfl
    all_goals
      exact ⟨by simp, by simp [Text.isComma], by simp [Text.isBlank], by simp [Text.isBlank]⟩
  have once : order.Nodup := by decide
  have complete : ∀ p, p ∈ order ↔ p.IsSet cl := by
    intro p
    cases p <;> simp [order, Part.IsSet, Part.Same, cl, initial]
  have spelled : ∀ p ∈ order, p.Spells cl (spelling p) := by
    intro p hp
    simp only [order, List.mem_cons, List.not_mem_nil, or_false] at hp
    rcases hp with rfl | rfl | rfl | rfl | rfl
    · exact .trace rfl .apart
    · exact .skip rfl
    · have names : ",".intercalate cl.libraries = "string,math" := by decide
      have text : dashed ('l' :: "string,math".toList) = "-lstring,math" := by simp [dashed]
      have attached : Valued.libraries.Spells "string,math"
          [dashed ('l' :: "string,math".toList)] := .attached (by decide)
      rw [text, ← names] at attached
      exact .libraries attached
    · exact .command rfl .apart
    · exact .debug rfl
  exact read_spelled writable once complete spelled

end CommandLine

end ScriptHost
