import DryMake.Expansion.Error
import DryMake.Path

/-!
The ways in which the reading of a makefile fails, and the places in makefiles that they name.
-/

namespace DryMake

structure Location where
  file : Path
  line : Nat
deriving DecidableEq, Repr

def Location.render (location : Location) : String :=
  location.file.text ++ ":" ++ toString location.line

inductive FileFault where
  | isDirectory
  | notText
deriving DecidableEq, Repr

def FileFault.message : FileFault → String
  | isDirectory => "Is a directory (os error 21)"
  | notText => "stream did not contain valid UTF-8"

inductive ReadError where
  | expansion (location : Location) (line : String) (cause : ExpansionError)
  | ruleOutsideTarget (location : Location) (rule : String)
  | malformedConditional (location : Location) (line : String)
  | missingFile (path : Path) (location? : Option Location)
  | inclusionCycle (path : Path) (location : Location)
  | unreadable (path : Path) (fault : FileFault)
deriving DecidableEq, Repr

namespace ReadError

def message : ReadError → String
  | expansion location line _ => location.render ++ ": cannot expand `" ++ line ++ "`"
  | ruleOutsideTarget location rule =>
      location.render ++ ": rule outside target: `" ++ rule ++ "`"
  | malformedConditional location line =>
      location.render ++ ": malformed conditional assignment `" ++ line ++ "`"
  | missingFile path none => "could not find " ++ path.text
  | missingFile path (some location) =>
      "could not find " ++ path.text ++ " (included from " ++ location.render ++ ")"
  | inclusionCycle path location =>
      location.render ++ ": " ++ path.text ++ " is already being read"
  | unreadable path _ => "failed to read " ++ path.text

def diagnostic : ReadError → Diagnostic
  | expansion .. => .plain "nmake::parse::expand"
  | ruleOutsideTarget .. =>
      .withHelp "nmake::parse::rule_outside_target" "rules must follow a `target: deps` line"
  | malformedConditional .. =>
      .withHelp "nmake::parse::conditional"
        "conditional assignments take the form `targets := NAME=value`"
  | missingFile .. => .plain "nmake::parse::missing_file"
  | inclusionCycle .. => .plain "nmake::parse::include_cycle"
  | unreadable .. => .plain "nmake::parse::read"

def cause? : ReadError → Option String
  | expansion _ _ cause => some cause.message
  | unreadable _ fault => some fault.message
  | _ => none

end ReadError

end DryMake
