import DryMake.Budget
import DryMake.FileSystem
import DryMake.Line
import DryMake.LogicalLine
import DryMake.Reading.Error
import DryMake.Text.Lines
import DryMake.Workspace

/-!
Reading makefiles into a workspace. The logical lines of a file take effect one after the other, so
each line sees what those before it defined. A definition stays open, gathering rules, until the
next definition or inclusion or the end of its file; then it is added to the plan. An included file
is read in the place of the line that names it. A failure ends all reading, and the workspace keeps
what was done before it.

A file that is being read may not be included again, by any path that is the same. There are
finitely many paths, so the chain of files being read comes to an end.
-/

namespace DryMake

/-- A change of a workspace that may fail; what it did before the failure stays done. -/
abbrev Reading := ExceptT ReadError (StateM Workspace)

/-- What stays the same while makefiles are read: the files, and the directory from which relative
paths in makefiles are seen. -/
structure Reader where
  files : FileSystem
  base? : Option Path

namespace Reader

def close (open? : Option Definition) : Reading Unit :=
  match open? with
  | none => pure ()
  | some definition => Update.commit definition

def expand (location : Location) (line part : String) : Reading String := do
  match (← get).database.global.expand part with
  | .ok expansion =>
      Update.note (.expanded part expansion)
      return expansion
  | .error cause => throw (.expansion location line cause)

def splitAssignment (assignment : String) : Option (String × String) :=
  let characters := assignment.toList
  match characters.dropWhile (· != '=') with
  | _ :: value =>
      some (String.ofList (Text.trim (characters.takeWhile (· != '='))),
        String.ofList (Text.trim value))
  | [] => none

/-- Lets one line take effect, where `readIncluded` reads a file that the line names. The result is
the definition that is open after the line. -/
def apply (reader : Reader) (readIncluded : Location → Path → Reading Unit) (file : Path)
    (open? : Option Definition) (line : LogicalLine) : Reading (Option Definition) := do
  let location : Location := ⟨file, line.number⟩
  let expand := expand location line.text
  match Line.ofString line.text with
  | .blank => return open?
  | .comment => return open?
  | .rule command =>
      match open? with
      | some definition => return some (definition.addRule command)
      | none => throw (.ruleOutsideTarget location command)
  | .inclusion operand =>
      close open?
      let operand ← expand operand
      let path := Path.resolveIn reader.base? ⟨Text.trimmed operand⟩
      Update.note (.inclusion location.render path.text)
      readIncluded location path
      return none
  | .definition targets deps =>
      close open?
      let names := Text.words (← expand targets)
      let deps := Text.words (← expand deps)
      Update.note (.targetDefined location.render names deps)
      return some (.start names deps)
  | .conditional targets assignment =>
      match splitAssignment assignment with
      | none => throw (.malformedConditional location line.text)
      | some (name, value) =>
          let targets := Text.words (← expand targets)
          targets.forM fun target => Update.assignConditional target name value
          return open?
  | .append name value =>
      let name := Text.trimmed (← expand name)
      discard <| Update.append (← get).database.environmentWins name value
      return open?
  | .assign name value =>
      let name := Text.trimmed (← expand name)
      if name.toList.head? = some '#' then
        Update.note (.commentAssigned location.render name)
      else
        discard <| Update.assign (← get).database.environmentWins name value
      return open?
  | .unknown =>
      Update.note (.unrecognised location.render line.text)
      return open?

def readLogicalLines (reader : Reader) (readIncluded : Location → Path → Reading Unit)
    (file : Path) (lines : List LogicalLine) : Reading Unit := do
  close (← lines.foldlM (reader.apply readIncluded file) none)

def readPhysicalLines (reader : Reader) (readIncluded : Location → Path → Reading Unit)
    (file : Path) (lines : List String) : Reading Unit :=
  reader.readLogicalLines readIncluded file (LogicalLine.ofPhysical lines)

def readContents (reader : Reader) (readIncluded : Location → Path → Reading Unit) (path : Path)
    (contents : Contents) : Reading Unit := do
  match contents with
  | .directory => throw (.unreadable path .isDirectory)
  | .binary => throw (.unreadable path .notText)
  | .text text =>
      Update.note (.reading path.text)
      reader.readPhysicalLines readIncluded path (Text.lines text)

def isReading (chain : List Path) (path : Path) : Bool :=
  decide (path.components ∈ chain.map Path.components)

/-- How many of the paths that name something are not on the chain. -/
noncomputable def remaining (reader : Reader) (chain : List Path) : Nat :=
  Budget.unused reader.files.finite.choose (chain.map Path.components)

theorem remaining_cons_lt {reader : Reader} {chain : List Path} {path : Path}
    {contents : Contents} (found : reader.files.lookup path = some contents)
    (fresh : ¬ isReading chain path = true) :
    reader.remaining (path :: chain) < reader.remaining chain := by
  apply Budget.unused_cons_lt
  · exact reader.files.finite.choose_spec path (by rw [found]; rfl)
  · simpa [isReading] using fresh

def readIncluded (reader : Reader) (chain : List Path) (location : Location) (path : Path) :
    Reading Unit :=
  match _found : reader.files.lookup path with
  | none => throw (.missingFile path (some location))
  | some contents =>
      if _reading : isReading chain path then throw (.inclusionCycle path location)
      else
        reader.readContents
          (fun location next => reader.readIncluded (path :: chain) location next) path contents
termination_by reader.remaining chain
decreasing_by exact remaining_cons_lt _found _reading

def readMakefile (reader : Reader) (path : Path) : Reading Unit :=
  match reader.files.lookup path with
  | none => throw (.missingFile path none)
  | some contents => reader.readContents (reader.readIncluded [path]) path contents

def readLines (reader : Reader) (name : Path) (lines : List String) : Reading Unit :=
  reader.readPhysicalLines (reader.readIncluded []) name lines

def readText (reader : Reader) (name : Path) (text : String) : Reading Unit :=
  reader.readLines name (Text.lines text)

end Reader

end DryMake
