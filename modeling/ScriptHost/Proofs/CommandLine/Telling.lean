import ScriptHost.Proofs.CommandLine.Positions

/-! What a list of options comes to. Each option speaks of one part of the command line: the last
one that does counts, but libraries add up. -/

namespace ScriptHost.CommandLine

namespace Item

def mode? : Item → Option AccessMode
  | .mode m => some m
  | _ => none

def mask? : Item → Option Mask
  | .trace mask => some mask
  | _ => none

def command? : Item → Option String
  | .command text => some text
  | _ => none

def settings? : Item → Option SettingsFile
  | .settings file => some file
  | _ => none

def names : Item → List String
  | .libraries names => names
  | _ => []

end Item

/-- What the last of the options says that say something. -/
def lastOf {α : Type} (part? : Item → Option α) (told : List Item) : Option α :=
  (told.filterMap part?).getLast?

variable {cl : CommandLine} {told : List Item} {t : Item} {rest : List String}

theorem lastOf_cons {α : Type} {part? : Item → Option α} :
    lastOf part? (t :: told) = (lastOf part? told).or (part? t) := by
  rw [lastOf, lastOf, List.filterMap_cons]
  cases part? t with
  | none => simp
  | some a => rw [List.getLast?_cons]; cases (told.filterMap part?).getLast? <;> rfl

/-- A part that each option replaces or leaves is what the last one says, or what it was. -/
theorem tellAll_part {α : Type} (part : CommandLine → Option α) (part? : Item → Option α)
    (h : ∀ cl t, part (cl.tell t) = (part? t).or (part cl)) (cl : CommandLine) (told : List Item) :
    part (cl.tellAll told) = (lastOf part? told).or (part cl) := by
  induction told generalizing cl with
  | nil => rfl
  | cons t told ih =>
    rw [tellAll, List.foldl_cons, ← tellAll, ih, h, lastOf_cons, Option.or_assoc]

theorem mode_tellAll : (cl.tellAll told).mode = (lastOf Item.mode? told).or cl.mode :=
  tellAll_part CommandLine.mode Item.mode? (fun _ t => by cases t <;> rfl) cl told

theorem trace_tellAll : (cl.tellAll told).trace = (lastOf Item.mask? told).or cl.trace :=
  tellAll_part CommandLine.trace Item.mask? (fun _ t => by cases t <;> rfl) cl told

theorem command_tellAll : (cl.tellAll told).command = (lastOf Item.command? told).or cl.command :=
  tellAll_part CommandLine.command Item.command? (fun _ t => by cases t <;> rfl) cl told

theorem settings_tellAll :
    (cl.tellAll told).settings = (lastOf Item.settings? told).getD cl.settings := by
  have found := tellAll_part (fun cl => some cl.settings) Item.settings?
    (fun _ t => by cases t <;> rfl) cl told
  cases h : lastOf Item.settings? told <;> simpa [h] using found

theorem bare_tellAll : (cl.tellAll told).bare = true ↔ cl.bare = true ∨ Item.bare ∈ told := by
  induction told generalizing cl with
  | nil => simp [tellAll]
  | cons t told ih =>
    rw [tellAll, List.foldl_cons, ← tellAll, ih]
    cases t <;> simp [tell]

theorem libraries_tellAll :
    (cl.tellAll told).libraries = cl.libraries ++ told.flatMap Item.names := by
  induction told generalizing cl with
  | nil => simp [tellAll]
  | cons t told ih =>
    rw [tellAll, List.foldl_cons, ← tellAll, ih]
    cases t <;> simp [tell, Item.names]

/-- Options say nothing about the script and its arguments. -/
theorem script_tellAll : (cl.tellAll told).script = cl.script ∧
    (cl.tellAll told).arguments = cl.arguments := by
  induction told generalizing cl with
  | nil => exact ⟨rfl, rfl⟩
  | cons t told ih =>
    rw [tellAll, List.foldl_cons, ← tellAll, ih.1, ih.2]
    cases t <;> exact ⟨rfl, rfl⟩

/-- The options tell these things, and these arguments are behind them. -/
def Gathers (argv : List String) (told : List Item) (rest : List String) : Prop :=
  ∃ p k, Reaches argv p told ∧ move argv p = .stop k ∧ rest = argv.drop k

theorem Gathers.read_eq {argv : List String} (h : Gathers argv told rest) :
    read argv = .ok ((initial.tellAll told).withScript rest) := by
  obtain ⟨p, k, reached, stop, rfl⟩ := h
  exact (Comes.stop reached stop).read_eq

theorem exists_gathers {argv : List String} (h : read argv = .ok cl) :
    ∃ told rest, Gathers argv told rest := by
  cases comes_iff.mpr h with
  | stop reached stop => exact ⟨_, _, _, _, reached, stop, rfl⟩

end ScriptHost.CommandLine
