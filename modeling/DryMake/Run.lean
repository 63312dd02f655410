import DryMake.Build
import DryMake.CommandLine
import DryMake.Database.Dump
import DryMake.Environment
import DryMake.Fault
import DryMake.Reading

/-!
A whole run: the database is set up from the rules file, the environment and the makefile, the
targets are built, and the trace and, if it is asked for, the database are written. Of several
faults the first that is met ends the run; the trace of what was built before it is still written.
-/

namespace DryMake

/-- What a run takes from outside its command line. -/
structure Surroundings where
  environment : Environment
  program : String
  files : FileSystem

namespace Run

def programMacro : String := "MAKE"

abbrev Setup := ExceptT Fault (StateM Workspace)

def readsStandardInput (line : CommandLine) : Bool :=
  (line.file.bind Argument.path?).any fun file => file.components == (Path.mk "-").components

def givenPath (line : CommandLine) (option : PathOption) : Except Fault (Option Path) :=
  match line.path? option with
  | none => .ok none
  | some argument =>
      match argument.path? with
      | none => .error (.notText option argument)
      | some path => .ok (some path)

/-- The makefile: the one that is asked for, or else the one of two names that exists. -/
def makefile (base? given? : Option Path) (files : FileSystem) : Path :=
  match given? with
  | some file => Path.resolveIn base? file
  | none =>
      if files.contains (Path.resolveIn base? ⟨"makefile"⟩) then Path.resolveIn base? ⟨"makefile"⟩
      else Path.resolveIn base? ⟨"Makefile"⟩

def readStart (reader : Reader) (role : FileRole) (path : Path) : Setup Unit := do
  if !reader.files.contains path then throw (.setup (.missingFile path role))
  (reader.readMakefile path).adapt (.reading role path)

/-- Whether the environment wins, unless a feature is asked for that there is not. -/
def environmentWins (line : CommandLine) (environment : Environment) :
    Except Fault Bool :=
  match environment.inheritedOverride with
  | .error failure => .error (.setup failure)
  | .ok inherited =>
      if readsStandardInput line then .error (.setup (.unsupported .standardInput))
      else .ok (inherited || line.environmentOverrides)

def readRules (line : CommandLine) (settings : Environment) (reader : Reader) : Setup Unit := do
  if line.noBuiltinRules then Update.note .rulesSkipped
  else
    let given? ← givenPath line .rules
    readStart reader .rules (Path.resolveIn reader.base? (settings.rulesFile given?))

def readGiven (line : CommandLine) (reader : Reader) : Setup Unit := do
  let given? ← givenPath line .file
  readStart reader .makefile (makefile reader.base? given? reader.files)

/-- Sets up a database in which nothing is defined, with paths seen from a directory. What variables
say of the run itself is looked up in `settings`; the variables of the surroundings become macros. -/
def prepareIn (line : CommandLine) (settings : Environment) (surroundings : Surroundings)
    (base? : Option Path) : Setup Unit := do
  let reader : Reader := ⟨surroundings.files, base?⟩
  Update.modifyMacros fun macros => macros.importVariable programMacro surroundings.program
  readRules line settings reader
  Update.note (.environmentImported (← surroundings.environment.importAll))
  readGiven line reader

def prepare (line : CommandLine) (settings : Environment) (surroundings : Surroundings) :
    Setup Unit := do
  prepareIn line settings surroundings (← givenPath line .directory)

end Run

structure Outcome where
  output : String
  fault? : Option Fault
  log : Array Event

def Outcome.exitStatus (outcome : Outcome) : Nat :=
  (outcome.fault?.map Fault.exitStatus).getD 0

namespace Run

/-- Builds the targets. If the trace cannot be shown, the program breaks off. -/
def build (line : CommandLine) (workspace : Workspace) : Option Outcome := do
  let (record, built) :=
    workspace.database.buildAllInto true ⟨#[], workspace.log⟩ line.targets
  let shown ← Trace.shown? record.steps.toList
  match built with
  | .error failure => return ⟨shown, some (.building failure), record.log⟩
  | .ok () =>
      let dump := if line.printDatabase then workspace.database.dump else ""
      return ⟨shown ++ dump, none, record.log⟩

end Run

/-- Carries out a command line; there is no outcome if the program breaks off. -/
def run (line : CommandLine) (surroundings : Surroundings) : Option Outcome :=
  match Run.environmentWins line surroundings.environment with
  | .error fault => some ⟨"", some fault, #[]⟩
  | .ok environmentWins =>
      let setup := Run.prepare line surroundings.environment surroundings
      match setup.run (.empty environmentWins) with
      | (.error fault, workspace) => some ⟨"", some fault, workspace.log⟩
      | (.ok (), workspace) => Run.build line workspace

end DryMake
