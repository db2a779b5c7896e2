import ScriptHost.Proofs.CommandLine.Telling
import ScriptHost.Proofs.Session.Opening
import ScriptHost.Runner

/-! How the program starts. It opens a bridge with the settings of a file as the options change them,
and gives it the arguments of the script. -/

namespace ScriptHost

open CommandLine (Item Gathers lastOf)

/-! ### Settings in force -/

/-- What options make of the settings of a file. -/
structure Settings.Overridden (file : Settings) (told : List Item) (s : Settings) : Prop where
  mode : s.mode = (lastOf Item.mode? told).getD file.mode
  standard : s.standard = true ↔ file.standard = true ∧ Item.bare ∉ told
  constructors : s.constructors = file.constructors
  libraries : s.libraries = file.libraries ++ told.flatMap Item.names
  hook : s.hook = (lastOf Item.mask? told).getD file.hook
  /-- A trace that is asked for needs an interval, and a file may have none. -/
  interval : s.interval =
    if (lastOf Item.mask? told).isSome ∧ file.interval = 0 then 1000 else file.interval

theorem Settings.Overridden.eq {file s s' : Settings} {told : List Item}
    (h : file.Overridden told s) (h' : file.Overridden told s') : s = s' := by
  obtain ⟨mode, standard, constructors, libraries, hook, interval⟩ := h
  obtain ⟨mode', standard', constructors', libraries', hook', interval'⟩ := h'
  have same : s.standard = s'.standard := Bool.eq_iff_iff.mpr (standard.trans standard'.symm)
  cases s
  cases s'
  simp_all

namespace Runner

variable {env : Surroundings} {told : List Item} {rest : List String} {file s : Settings}
  {warnings : List Output} {b : Bridge} {w : World}

/-- The command line that options come to, with what is behind them. -/
def commandLine (told : List Item) (rest : List String) : CommandLine :=
  (CommandLine.initial.tellAll told).withScript rest

theorem script_commandLine (told : List Item) (rest : List String) :
    (commandLine told rest).script = rest.head? ∧ (commandLine told rest).arguments = rest.tail := by
  cases rest with
  | nil => exact CommandLine.script_tellAll
  | cons script rest => exact ⟨rfl, rfl⟩

theorem command_commandLine (told : List Item) (rest : List String) :
    (commandLine told rest).command = lastOf Item.command? told := by
  have before : (CommandLine.initial.tellAll told).command = lastOf Item.command? told :=
    CommandLine.command_tellAll.trans Option.or_none
  cases rest <;> exact before

/-- Which settings file the options ask for. -/
def choice (told : List Item) : SettingsFile := (lastOf Item.settings? told).getD .search

theorem settings_commandLine (told : List Item) (rest : List String) :
    (commandLine told rest).settings = choice told := by
  have before : (CommandLine.initial.tellAll told).settings = choice told :=
    CommandLine.settings_tellAll
  cases rest <;> exact before

theorem override_eq (file : Settings) (cl : CommandLine) :
    override file cl =
      { mode := cl.mode.getD file.mode
        standard := file.standard && !cl.bare
        constructors := file.constructors
        libraries := file.libraries ++ cl.libraries
        hook := cl.trace.getD file.hook
        interval := if cl.trace.isSome ∧ file.interval = 0 then 1000 else file.interval } := by
  unfold override
  cases cl.trace with
  | none => simp
  | some mask => simp [traceInterval]

theorem override_withScript (file : Settings) (cl : CommandLine) (rest : List String) :
    override file (cl.withScript rest) = override file cl := by
  cases rest <;> rfl

theorem overridden_override (file : Settings) (told : List Item) (rest : List String) :
    file.Overridden told (override file (commandLine told rest)) := by
  have mode : (CommandLine.initial.tellAll told).mode = lastOf Item.mode? told :=
    CommandLine.mode_tellAll.trans Option.or_none
  have bare : (CommandLine.initial.tellAll told).bare = true ↔ Item.bare ∈ told := by
    simp [CommandLine.bare_tellAll, CommandLine.initial]
  have libraries : (CommandLine.initial.tellAll told).libraries = told.flatMap Item.names :=
    CommandLine.libraries_tellAll
  have trace : (CommandLine.initial.tellAll told).trace = lastOf Item.mask? told :=
    CommandLine.trace_tellAll.trans Option.or_none
  rw [commandLine, override_withScript, override_eq, mode, libraries, trace]
  refine ⟨rfl, ?_, rfl, rfl, rfl, rfl⟩
  rw [← bare, Bool.and_eq_true, Bool.not_eq_true', Bool.not_eq_true]

/-! ### Settings files -/

/-- What a choice of a settings file gives, with what there is to warn of. -/
inductive Found (env : Surroundings) (choice : SettingsFile) : Settings → List Output → Prop
  | none (h : settingsPath env choice = none) : Found env choice .initial []
  | unreadable {path : String} {e : Settings.FileError} (h : settingsPath env choice = some path)
      (he : Settings.fileText (env.file? path) = .error e) :
      Found env choice .initial [warning path e.message]
  | file {path text : String} (h : settingsPath env choice = some path)
      (ht : Settings.fileText (env.file? path) = .ok text) :
      Found env choice (Settings.ofText text).1
        ((Settings.ofText text).2.map fun e => warning path e.text)

theorem found_fileSettings (env : Surroundings) (choice : SettingsFile) :
    Found env choice (fileSettings env choice).1 (fileSettings env choice).2 := by
  unfold fileSettings
  cases h : settingsPath env choice with
  | none => exact .none h
  | some path =>
    cases ht : Settings.fileText (env.file? path) with
    | error e => simpa [Settings.ofFile, ht, Except.map] using Found.unreadable h ht
    | ok text => simpa [Settings.ofFile, ht, Except.map] using Found.file h ht

theorem Found.eq {choice : SettingsFile} (h : Found env choice file warnings) :
    fileSettings env choice = (file, warnings) := by
  cases h with
  | none h => rw [fileSettings, h]
  | unreadable h he => simp [fileSettings, h, Settings.ofFile, he, Except.map]
  | file h ht => simp [fileSettings, h, Settings.ofFile, ht, Except.map]

/-- The settings in force, with what there is to warn of. -/
def Configures (env : Surroundings) (told : List Item) (s : Settings) (warnings : List Output) :
    Prop :=
  ∃ file, Found env (choice told) file warnings ∧ file.Overridden told s

theorem configures_override (env : Surroundings) (told : List Item) (rest : List String) :
    Configures env told
      (override (fileSettings env (choice told)).1 (commandLine told rest))
      (fileSettings env (choice told)).2 :=
  ⟨_, found_fileSettings env (choice told), overridden_override _ told rest⟩

theorem Configures.eq (h : Configures env told s warnings) (rest : List String) :
    (fileSettings env (choice told)).2 = warnings ∧
      override (fileSettings env (choice told)).1 (commandLine told rest) = s := by
  obtain ⟨file, found, overridden⟩ := h
  rw [found.eq]
  exact ⟨rfl, (overridden_override file told rest).eq overridden⟩

/-! ### Arguments of a script -/

theorem encodeItems_strings (owner : Nat) (args : List String) (h : Heap) :
    Heap.encodeItems owner (args.map .string) h = (.ok (args.map .ofString), h) := by
  induction args with
  | nil => rw [List.map_nil, Heap.encodeItems, List.map_nil]
  | cons arg args ih =>
    rw [List.map_cons, Heap.encodeItems, Heap.encode]
    dsimp only
    rw [ih]
    rfl

theorem storable_strings {owner holes : Nat} {args : List String}
    (bound : args.length ≤ Heap.lastItem) :
    (Variant.array (args.map .string)).Storable owner holes := by
  refine .array (fun v hv => ?_) ?_ (by simpa using bound)
  · obtain ⟨arg, -, rfl⟩ := List.mem_map.mp hv
    exact .leaf rfl nofun
  · have none_nil : (args.map Variant.string).countP Variant.isNil = 0 := by
      rw [List.countP_eq_zero]
      intro v hv
      obtain ⟨arg, -, rfl⟩ := List.mem_map.mp hv
      exact Bool.false_ne_true
    rw [none_nil]
    exact Nat.zero_le _

theorem levels_strings (args : List String) :
    (Variant.array (args.map .string)).levels ≤ depthLimit := by
  show _ ≤ 127 + 1
  rw [Variant.levels_array_le]
  intro v hv
  obtain ⟨arg, -, rfl⟩ := List.mem_map.mp hv
  exact Nat.zero_le _

/-- Strings leave nothing to rearrange. -/
theorem eq_of_rearranged {args : List String} {v : Variant}
    (h : (Variant.array (args.map .string)).Rearranged v) : v = .array (args.map .string) := by
  generalize hx : args.map Variant.string = xs at h
  cases h with
  | refl => rfl
  | @array _ ys hs =>
    subst hx
    rw [List.forall₂_map_left_iff] at hs
    congr 1
    induction hs with
    | nil => rfl
    | cons first _ ih =>
      cases first
      rw [List.map_cons, ih]

/-- Arguments are put into a new interpreter, and are read from there as they are. -/
theorem exists_push (host : Host) (hb : b.heap.OpenGlobals) (args : List String) :
    ∃ w, Request.push argumentsName (.array (args.map .string)) ⟨host, b⟩ = .ok (.ok ()) w ∧
      w.host = host ∧ (args.length ≤ Heap.lastItem →
        Request.pull argumentsName w = .ok (.ok (.array (args.map .string))) w) := by
  let w : World := ⟨host, b⟩
  let h := (b.heap.newTable (Heap.arrayTable (args.map .ofString))).2
  let g := h.set Heap.globals (.ofString argumentsName) (.table b.heap.tables.size)
  have encoded : b.heap.encode b.id (.array (args.map .string)) =
      (.ok (.table b.heap.tables.size), h) := by
    rw [Heap.encode, encodeItems_strings]
    rfl
  have opened : h.OpenGlobals := hb.kept (.newTable b.heap _)
  have written : Request.reentry.onGlobals (·.setGlobal argumentsName (.table b.heap.tables.size))
      (w.withHeap h) = .ok () (w.withHeap g) :=
    (Request.reentry.onGlobals_of_no_meta opened.meta? _).trans
      (Request.reentry.setGlobal_eq _ (.inr (opened.lack _)))
  refine ⟨w.withHeap g, Request.reentry.pushGlobal_eq encoded written, rfl, fun bound => ?_⟩
  have get : g.get Heap.globals (.ofString argumentsName) = .table b.heap.tables.size := by
    rw [Heap.get, Heap.table_set opened.size, Table.get_set]
  have found : Request.reentry.onGlobals (·.global argumentsName) (w.withHeap g) =
      .ok (.table b.heap.tables.size) (w.withHeap g) := by
    have settled : g.OpenGlobals := opened.set _ _ _
    rw [Request.reentry.onGlobals_of_no_meta settled.meta?]
    exact (Request.reentry.global_eq (.inr (settled.lack _))).trans
      (congrArg (Outcome.ok · (w.withHeap g)) get)
  -- What is read again is what was stored up to the order of entries, and here there are none.
  obtain ⟨x, h', stored, -, reads⟩ := Heap.decode_encode (levels_strings args)
    (storable_strings bound) b.heap
  cases encoded.symm.trans stored
  obtain ⟨v, strict, -, rearranged⟩ := reads g (.setGlobal h hb.size _ _)
  obtain rfl := eq_of_rearranged rearranged
  rw [Request.pull, Request.reentry.pullGlobal_eq found]
  exact congrArg (fun d => Outcome.ok (d.mapError Refusal.error) _) strict

/-! ### Starts -/

/-- A bridge was opened as the options and the settings ask, and was given the arguments. -/
structure Starts (env : Surroundings) (told : List Item) (rest : List String)
    (warnings : List Output) (w : World) : Prop where
  reads : Gathers env.arguments told rest
  opens : ∃ s b, Configures env told s warnings ∧ Bridge.openWith "main" 1 s false = .ok b ∧
    Request.push argumentsName (.array (rest.tail.map .string)) ⟨default, { b with prints := true }⟩ =
      .ok (.ok ()) w

theorem exists_starts (reads : Gathers env.arguments told rest)
    (configures : Configures env told s warnings)
    (opened : Bridge.openWith "main" 1 s false = .ok b) :
    ∃ w, Starts env told rest warnings w := by
  have globals : b.heap.OpenGlobals := Heap.OpenGlobals.furnishes.openWith .initial opened
  obtain ⟨w, pushed, -⟩ := exists_push (b := { b with prints := true }) default globals rest.tail
  exact ⟨w, reads, s, b, configures, opened, pushed⟩

theorem Starts.arguments (h : Starts env told rest warnings w) :
    w.host = default ∧ (rest.tail.length ≤ Heap.lastItem →
      Request.pull argumentsName w = .ok (.ok (.array (rest.tail.map .string))) w) := by
  obtain ⟨s, b, -, opened, pushed⟩ := h.opens
  have globals : b.heap.OpenGlobals := Heap.OpenGlobals.furnishes.openWith .initial opened
  obtain ⟨w', pushed', given⟩ :=
    exists_push (b := { b with prints := true }) default globals rest.tail
  cases pushed.symm.trans pushed'
  exact given

end Runner

end ScriptHost
