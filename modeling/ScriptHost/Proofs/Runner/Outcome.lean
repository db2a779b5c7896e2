import ScriptHost.Proofs.Runner.Starting
import ScriptHost.Proofs.Session.Reports

/-! How the program ends. Options that cannot be read end it at once, and so do settings with which no
bridge opens. Otherwise it runs what is asked for, one chunk after another. Its status tells whether
all went well, and each failure is reported. -/

namespace ScriptHost.Runner

open CommandLine (Item Gathers Reaches Place move lastOf)

variable {env env' : Surroundings} {told : List Item} {rest : List String} {s : Settings}
  {warnings : List Output} {w w' : World} {fault : String} {result : Result}

/-! ### Chunks -/

/-- A chunk to run, with what to show when it fails. -/
abbrev Chunk : Type := Act (Except ScriptError Unit) × (ScriptError → List Output)

variable {c : Chunk}

def commandChunk (env : Surroundings) (text : String) : Chunk :=
  (Request.exec "(command line)" (env.parse text), fun e => [complaint e])

def scriptChunk (env : Surroundings) (path : String) : Chunk :=
  (Request.execFile (shortName path)
    ((env.file? path).map fun bytes => env.parse (Text.ofBytes bytes)), failure)

def inputChunk (env : Surroundings) : Chunk := (Request.exec "stdin" (env.parse env.input), failure)

/-- What is to be run: the command, then the script, and the input if there is neither. -/
def asked (env : Surroundings) : Option String → Option String → List Chunk
  | some text, some path => [commandChunk env text, scriptChunk env path]
  | some text, none => [commandChunk env text]
  | none, some path => [scriptChunk env path]
  | none, none => [inputChunk env]

theorem chunks_eq (env : Surroundings) (cl : CommandLine) :
    chunks env cl = asked env cl.command cl.script := by
  cases hc : cl.command <;> cases hs : cl.script <;> simp [chunks, hc, hs] <;> rfl

theorem mem_asked {command script : Option String} (h : c ∈ asked env command script) :
    (∃ text, c = commandChunk env text) ∨ (∃ path, c = scriptChunk env path) ∨
      c = inputChunk env := by
  cases command <;> cases script <;>
    simp only [asked, List.mem_cons, List.not_mem_nil, or_false] at h
  case none.none => exact .inr (.inr h)
  case none.some => exact .inr (.inl ⟨_, h⟩)
  case some.none => exact .inl ⟨_, h⟩
  case some.some =>
    obtain h | h := h
    · exact .inl ⟨_, h⟩
    · exact .inr (.inl ⟨_, h⟩)

/-- What a chunk has shown, and its error if it failed. -/
structure Ran where
  output : List Output
  error? : Option ScriptError

/-- What scripts have printed since the last chunk. -/
def printed (w : World) : List Output := w.host.takeLog.1.filterMap shown

/-- The world after that was written out. -/
def writtenOut (w : World) : World := { w with host := w.host.takeLog.2 }

/-- What running a chunk comes to, and the world that it leaves. -/
inductive Runs (c : Chunk) (w : World) : Ran → World → Prop
  | succeeded {w' : World} (h : c.1 w = .ok (.ok ()) w') :
      Runs c w ⟨printed w', none⟩ (writtenOut w')
  | failed {w' : World} {e : ScriptError} (h : c.1 w = .ok (.error e) w') :
      Runs c w ⟨printed w' ++ c.2 e, some e⟩ (writtenOut w')

/-- Chunks run one after another in the same world, whether those before failed or not. -/
inductive RunsAll : World → List Chunk → List Ran → Prop
  | nil {w : World} : RunsAll w [] []
  | cons {w w' : World} {c : Chunk} {cs : List Chunk} {r : Ran} {rs : List Ran} (h : Runs c w r w')
      (rest : RunsAll w' cs rs) : RunsAll w (c :: cs) (r :: rs)

/-- One of the chunks does not end in the steps and the nested calls that it may take. -/
inductive Hangs : World → List Chunk → Prop
  | here {w : World} {c : Chunk} {cs : List Chunk} (h : c.1 w = .exhausted) : Hangs w (c :: cs)
  | later {w w' : World} {c : Chunk} {cs : List Chunk} {r : Ran} (h : Runs c w r w')
      (rest : Hangs w' cs) : Hangs w (c :: cs)

variable {cs : List Chunk} {r : Ran} {rs : List Ran}

theorem Runs.runChunk_eq (h : Runs c w r w') :
    runChunk c.1 c.2 w = (r.error?.isNone, r.output, w') := by
  cases h with
  | succeeded h | failed h =>
    rw [runChunk, h]
    rfl

theorem RunsAll.runAll_eq (h : RunsAll w cs rs) :
    runAll w cs = (rs.all (·.error?.isNone), rs.flatMap (·.output)) := by
  induction h with
  | nil => rfl
  | @cons w w' c cs r rs h _ ih =>
    obtain ⟨run, onError⟩ := c
    rw [runAll, h.runChunk_eq]
    dsimp only
    rw [ih]
    rfl

theorem catches_report {x : Act (Except ScriptError Unit)} (hx : x.Catches) :
    (Request.report x).Catches := by
  refine .bind hx fun result => ?_
  cases result with
  | ok a => exact .pure _
  | error e =>
    have recorded (event : Event) : Act.Catches (Act.record event) := fun _ _ _ h => by cases h
    refine .bind .bridge fun b => ?_
    split
    · exact .bind (recorded _) fun _ => .pure _
    · exact .pure _

theorem catches_of_mem_asked {command script : Option String} (h : c ∈ asked env command script) :
    c.1.Catches := by
  have text (name : String) (body : Block) : (Request.exec name body).Catches :=
    catches_report (Request.catches_runChunk name body)
  obtain ⟨chunk, rfl⟩ | ⟨path, rfl⟩ | rfl := mem_asked h
  · exact text _ _
  · obtain ⟨x, same, -, catches⟩ := Request.exists_execFile (shortName path)
      ((env.file? path).map fun bytes => env.parse (Text.ofBytes bytes))
    rw [scriptChunk, same]
    exact catches_report catches
  · exact text _ _

/-- Chunks end, unless one of them goes on forever. -/
theorem runs_or_hangs (hc : ∀ c ∈ cs, c.1.Catches) (w : World) :
    (∃ rs, RunsAll w cs rs) ∨ Hangs w cs := by
  induction cs generalizing w with
  | nil => exact .inl ⟨[], .nil⟩
  | cons c cs ih =>
    obtain ⟨first, others⟩ := List.forall_mem_cons.mp hc
    have goes_on {r : Ran} {w' : World} (h : Runs c w r w') :
        (∃ rs, RunsAll w (c :: cs) rs) ∨ Hangs w (c :: cs) := by
      obtain ⟨rs, runs⟩ | hangs := ih others w'
      · exact .inl ⟨r :: rs, .cons h runs⟩
      · exact .inr (.later h hangs)
    cases h : c.1 w with
    | exhausted => exact .inr (.here h)
    | raised e w' => exact absurd h (first w e w')
    | ok result w' =>
      cases result with
      | ok => exact goes_on (.succeeded h)
      | error e => exact goes_on (.failed h)

/-- The lines that speak of errors. -/
def Output.complaint? : Output → Option String
  | .complaint text => some text
  | _ => none

theorem complaints_printed (w : World) : (printed w).filterMap Output.complaint? = [] := by
  rw [List.filterMap_eq_nil_iff]
  intro output hout
  obtain ⟨event, -, seen⟩ := List.mem_filterMap.mp hout
  cases event <;> cases seen
  rfl

theorem complaints_failure (e : ScriptError) :
    (failure e).filterMap Output.complaint? = [said e.text] := by
  cases h : e.traceback <;> simp [failure, h, complaint, Output.complaint?]

theorem complaints_of_mem_asked {command script : Option String} (h : c ∈ asked env command script)
    (e : ScriptError) : (c.2 e).filterMap Output.complaint? = [said e.text] := by
  obtain ⟨text, rfl⟩ | ⟨path, rfl⟩ | rfl := mem_asked h
  · rfl
  · exact complaints_failure e
  · exact complaints_failure e

/-- Each chunk that fails is reported once, and no other. -/
theorem RunsAll.complaints (h : RunsAll w cs rs)
    (one : ∀ c ∈ cs, ∀ e, (c.2 e).filterMap Output.complaint? = [said e.text]) :
    (rs.flatMap (·.output)).filterMap Output.complaint? =
      (rs.filterMap (·.error?)).map fun e => said e.text := by
  induction h with
  | nil => rfl
  | @cons w w' c cs r rs h _ ih =>
    obtain ⟨first, others⟩ := List.forall_mem_cons.mp one
    rw [List.flatMap_cons, List.filterMap_append, ih others, List.filterMap_cons]
    cases h with
    | succeeded => rw [complaints_printed]; rfl
    | failed => rw [List.filterMap_append, complaints_printed, first]; rfl

/-! ### The program -/

/-- The input is to be run, but cannot be read. -/
structure LacksInput (env : Surroundings) (told : List Item) (rest : List String) (fault : String) :
    Prop where
  command : lastOf Item.command? told = none
  script : rest = []
  fault : env.inputFault? = some fault

/-- The chunks that the options and the arguments behind them ask for. -/
def chunksOf (env : Surroundings) (told : List Item) (rest : List String) : List Chunk :=
  asked env (lastOf Item.command? told) rest.head?

/-- The ways in which the program may end. -/
inductive Ends (env : Surroundings) : Result → Prop
  | refused {e : UsageError} (h : CommandLine.Comes env.arguments (.error e)) :
      Ends env ⟨1, [.complaint (said e.message), .complaint usage]⟩
  | unopened {told : List Item} {rest : List String} {s : Settings} {warnings : List Output}
      {refusal : Refusal} (reads : Gathers env.arguments told rest)
      (configures : Configures env told s warnings)
      (h : Bridge.openWith "main" 1 s false = .error refusal) :
      Ends env ⟨1, warnings ++ [complaint refusal.error]⟩
  | unread {told : List Item} {rest : List String} {warnings : List Output} {w : World}
      {fault : String} (starts : Starts env told rest warnings w)
      (lacks : LacksInput env told rest fault) :
      Ends env ⟨1, warnings ++ [.complaint (said ("stdin: " ++ fault))]⟩
  | ran {told : List Item} {rest : List String} {warnings : List Output} {w : World}
      {rs : List Ran} (starts : Starts env told rest warnings w)
      (has : ∀ fault, ¬ LacksInput env told rest fault)
      (runs : RunsAll w (chunksOf env told rest) rs) :
      Ends env ⟨if ∀ r ∈ rs, r.error? = none then 0 else 1, warnings ++ rs.flatMap (·.output)⟩

/-! ### What the program does -/

/-- Warnings come first, and that is all that they do. -/
theorem run_eq (reads : Gathers env.arguments told rest) (configures : Configures env told s warnings) :
    run env = ⟨(follow env (commandLine told rest) s).status,
      warnings ++ (follow env (commandLine told rest) s).output⟩ := by
  obtain ⟨same, settings⟩ := configures.eq rest
  rw [run, reads.read_eq]
  show runWith env (commandLine told rest) = _
  rw [runWith, settings_commandLine]
  dsimp only
  rw [same, settings]

theorem fault?_eq_some_iff :
    fault? env (commandLine told rest) = some fault ↔ LacksInput env told rest fault := by
  rw [fault?, readsInput, (script_commandLine told rest).1, command_commandLine]
  constructor
  · intro h
    split at h
    case isTrue nothing =>
      rw [Bool.and_eq_true, Option.isNone_iff_eq_none, Option.isNone_iff_eq_none] at nothing
      exact ⟨nothing.2, List.head?_eq_none_iff.mp nothing.1, h⟩
    case isFalse => cases h
  · rintro ⟨command, rfl, fault⟩
    rw [command]
    exact fault

theorem chunks_commandLine : chunks env (commandLine told rest) = chunksOf env told rest := by
  rw [chunks_eq, command_commandLine, (script_commandLine told rest).1, chunksOf]

theorem status_eq (rs : List Ran) :
    status (rs.all (·.error?.isNone)) = if ∀ r ∈ rs, r.error? = none then 0 else 1 := by
  simp [status]

/-- However the program may end, it ends so. -/
theorem Ends.run_eq (h : Ends env result) : run env = result := by
  -- What each step needs is determined, so the program takes the same way.
  cases h with
  | refused h =>
    rw [run, h.read_eq]
  | unopened reads configures h =>
    rw [Runner.run_eq reads configures, follow, h]
  | unread starts lacks =>
    obtain ⟨s, b, configures, opened, pushed⟩ := starts.opens
    rw [Runner.run_eq starts.reads configures, follow, opened]
    dsimp only
    rw [(script_commandLine _ _).2, pushed]
    dsimp only
    rw [fault?_eq_some_iff.mpr lacks]
  | @ran told rest warnings w rs starts has runs =>
    obtain ⟨s, b, configures, opened, pushed⟩ := starts.opens
    have no_fault : fault? env (commandLine told rest) = none := by
      rw [Option.eq_none_iff_forall_ne_some]
      exact fun fault h => has fault (fault?_eq_some_iff.mp h)
    rw [Runner.run_eq starts.reads configures, follow, opened]
    dsimp only
    rw [(script_commandLine _ _).2, pushed]
    dsimp only
    rw [no_fault]
    dsimp only
    rw [chunks_commandLine, runs.runAll_eq, status_eq]

/-- The program ends in one of these ways, unless a chunk does not end. -/
theorem ends_or_hangs (env : Surroundings) : (∃ result, Ends env result) ∨
    ∃ told rest warnings w, Starts env told rest warnings w ∧
      (∀ fault, ¬ LacksInput env told rest fault) ∧ Hangs w (chunksOf env told rest) := by
  cases hr : CommandLine.read env.arguments with
  | error e => exact .inl ⟨_, .refused (CommandLine.comes_iff.mpr hr)⟩
  | ok cl =>
    obtain ⟨told, rest, reads⟩ := CommandLine.exists_gathers hr
    have configures := configures_override env told rest
    cases ho : Bridge.openWith "main" 1
      (override (fileSettings env (choice told)).1 (commandLine told rest)) false with
    | error refusal => exact .inl ⟨_, .unopened reads configures ho⟩
    | ok b =>
      obtain ⟨w, starts⟩ := exists_starts reads configures ho
      by_cases lacks : ∃ fault, LacksInput env told rest fault
      · obtain ⟨fault, lacks⟩ := lacks
        exact .inl ⟨_, .unread starts lacks⟩
      · obtain ⟨rs, runs⟩ | hangs := runs_or_hangs (fun c => catches_of_mem_asked) w
        · exact .inl ⟨_, .ran starts (not_exists.mp lacks) runs⟩
        · exact .inr ⟨told, rest, _, w, starts, not_exists.mp lacks, hangs⟩

/-- All went well: a bridge was opened, and each chunk that was asked for succeeded. -/
def GoesWell (env : Surroundings) : Prop :=
  ∃ told rest warnings w rs, Starts env told rest warnings w ∧
    (∀ fault, ¬ LacksInput env told rest fault) ∧ RunsAll w (chunksOf env told rest) rs ∧
    ∀ r ∈ rs, r.error? = none

theorem Ends.status_eq (h : Ends env result) :
    (result.status = 0 ↔ GoesWell env) ∧ (result.status = 0 ∨ result.status = 1) := by
  have well (h' : GoesWell env) : result.status = 0 := by
    obtain ⟨told, rest, warnings, w, rs, starts, has, runs, succeeded⟩ := h'
    rw [← h.run_eq, (Ends.ran starts has runs).run_eq]
    exact if_pos succeeded
  cases h with
  | refused | unopened | unread => exact ⟨⟨nofun, well⟩, .inr rfl⟩
  | @ran told rest warnings w rs starts has runs =>
    by_cases succeeded : ∀ r ∈ rs, r.error? = none
    · have goes_well : GoesWell env := ⟨told, rest, warnings, w, rs, starts, has, runs, succeeded⟩
      exact ⟨⟨fun _ => goes_well, well⟩, .inl (well goes_well)⟩
    · have failed : (if ∀ r ∈ rs, r.error? = none then 0 else 1) = 1 := if_neg succeeded
      exact ⟨⟨fun zero => absurd (failed.symm.trans zero) (by decide), well⟩, .inr failed⟩

theorem follow_congr (asks : chunksOf env' told rest = chunksOf env told rest)
    (input : env'.inputFault? = env.inputFault?) (s : Settings) :
    follow env' (commandLine told rest) s = follow env (commandLine told rest) s := by
  rw [follow, follow, chunks_commandLine, chunks_commandLine, asks, fault?, fault?, input]

/-- What the program does with whatever it finds. -/
structure Conduct (env : Surroundings) : Prop where
  run_eq : ∀ result, Ends env result → run env = result
  ends : (∃ result, Ends env result) ∨ ∃ told rest warnings w,
    Starts env told rest warnings w ∧ (∀ fault, ¬ LacksInput env told rest fault) ∧
      Hangs w (chunksOf env told rest)
  starts : ∀ told rest s warnings b, Gathers env.arguments told rest →
    Configures env told s warnings → Bridge.openWith "main" 1 s false = .ok b →
    ∃ w, Starts env told rest warnings w
  arguments : ∀ told rest warnings w, Starts env told rest warnings w →
    w.host = default ∧ (rest.tail.length ≤ Heap.lastItem →
      Request.pull argumentsName w = .ok (.ok (.array (rest.tail.map .string))) w)
  status : ∀ result, Ends env result →
    (result.status = 0 ↔ GoesWell env) ∧ (result.status = 0 ∨ result.status = 1)
  complaints : ∀ told rest w rs, RunsAll w (chunksOf env told rest) rs →
    (rs.flatMap (·.output)).filterMap Output.complaint? =
      (rs.filterMap (·.error?)).map fun e => said e.text
  /-- Whatever is warned of, the settings in force decide. -/
  warned : ∀ env' told rest s warnings warnings', Gathers env.arguments told rest →
    env'.arguments = env.arguments → chunksOf env' told rest = chunksOf env told rest →
    env'.inputFault? = env.inputFault? → Configures env told s warnings →
    Configures env' told s warnings' → (run env').status = (run env).status ∧
      ∃ output, (run env).output = warnings ++ output ∧ (run env').output = warnings' ++ output

/-- The program opens what the options and the settings ask for, runs what they ask for, and tells
how that went. -/
theorem runs_what_is_asked (env : Surroundings) : Conduct env where
  run_eq _ h := h.run_eq
  ends := ends_or_hangs env
  starts _ _ _ _ _ reads configures opened := exists_starts reads configures opened
  arguments _ _ _ _ h := h.arguments
  status _ h := h.status_eq
  complaints _ _ _ _ runs := runs.complaints fun _ hc => complaints_of_mem_asked hc
  warned env' told rest s warnings warnings' reads same asks input configures configures' := by
    have reads' : Gathers env'.arguments told rest := same ▸ reads
    rw [Runner.run_eq reads configures, Runner.run_eq reads' configures', follow_congr asks input]
    exact ⟨rfl, _, rfl, rfl⟩

/-- Around the program there are a script that prints what kind of value `arg` is, and a settings
file with a line in error. -/
def sample (arguments : List String) : Surroundings where
  arguments := arguments
  file? path :=
    if path = "script" then some "print(type(arg))".toUTF8
    else if path = "settings" then some "bind_std = off\nbind_api = off\nwhat".toUTF8
    else none
  input := ""
  environment := none
  user := none
  parse text :=
    if text = "print(type(arg))" then
      [.perform (.call (.global "print") [.call (.global "type") [.global "arg"]])]
    else if text = "arg = nil" then [.assign "arg" .nil]
    else if text = "error('bad')" then [.raise (.string "bad".toUTF8)]
    else []

theorem reads_sample (text script : String)
    (stop : move ["-c", text, script, "a"] (.argument 2) = .stop 2) :
    Gathers ["-c", text, script, "a"] [.command text] [script, "a"] := by
  let argv : List String := ["-c", text, script, "a"]
  have step {p q : Place} {told : List Item} (t? : Option Item) (h : Reaches argv p told)
      (hm : move argv p = .on t? q) : Reaches argv q (told ++ t?.toList) := h.next hm
  have reached : Reaches argv (.argument 2) [.command text] :=
    step none (step (some (.command text)) (step none .start rfl) rfl) rfl
  exact ⟨_, 2, reached, stop, rfl⟩

theorem runs_what_is_asked_after_a_failure :
    let env := { sample ["-c", "error('bad')", "missing", "a"] with environment := some "settings" }
    let result : Result := ⟨1, [
      .complaint "luabridge: warning: settings: line 3: expected key = value, got \"what\"",
      .complaint "luabridge: runtime error: bad",
      .complaint "luabridge: runtime error: No such file or directory (os error 2)"]⟩
    Ends env result ∧ run env = result ∧ ¬ GoesWell env := by
  intro env result
  let s : Settings := ⟨.restrictive, false, false, [], .empty, 0⟩
  have configures := configures_override env [.command "error('bad')"] ["missing", "a"]
  have found : fileSettings env .search =
      (s, [warning "settings" "line 3: expected key = value, got \"what\""]) := by decide +kernel
  have overridden : override s (commandLine [.command "error('bad')"] ["missing", "a"]) = s := by
    decide +kernel
  have searched : choice [.command "error('bad')"] = .search := rfl
  rw [searched, found, overridden] at configures
  obtain ⟨_, ends, rfl⟩ : ∃ result', Ends env result' ∧ result' = result :=
    ⟨_, .ran ⟨reads_sample _ _ rfl, _, _, configures, rfl, rfl⟩ (fun _ lacks => nomatch lacks.script)
      (.cons (.failed rfl) (.cons (.failed rfl) .nil)), by decide +kernel⟩
  have conduct := runs_what_is_asked env
  obtain ⟨status, -⟩ := conduct.status _ ends
  refine ⟨ends, conduct.run_eq _ ends, fun well => ?_⟩
  have zero := status.mpr well
  revert zero
  decide +kernel

/-- The script finds what the command has left of its arguments, and input that cannot be read counts
as a failure although a bridge was opened and no chunk was run. -/
theorem chunks_may_take_the_arguments_away :
    (Gathers ["-c", "arg = nil", "script", "a"] [.command "arg = nil"] ["script", "a"] ∧
      run (sample ["-c", "arg = nil", "script", "a"]) = ⟨0, [.print "nil"]⟩ ∧
      run (sample ["script", "a"]) = ⟨0, [.print "table"]⟩) ∧
    let env := { sample [] with inputFault? := some Settings.FileError.invalidText.message }
    run env = ⟨1, [.complaint "luabridge: stdin: stream did not contain valid UTF-8"]⟩ ∧
      ∃ w, Starts env [] [] [] w := by
  refine ⟨⟨reads_sample _ _ rfl, by decide +kernel, by decide +kernel⟩, ?_⟩
  intro env
  have reads : Gathers env.arguments [] [] := ⟨_, 0, .start, rfl, rfl⟩
  have configures : Configures env [] .initial [] :=
    ⟨.initial, .none rfl, overridden_override .initial [] []⟩
  obtain ⟨b, opened⟩ : ∃ b, Bridge.openWith "main" 1 .initial false = .ok b := ⟨_, rfl⟩
  exact ⟨by decide +kernel, exists_starts reads configures opened⟩

end ScriptHost.Runner
