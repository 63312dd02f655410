import DryMake.Build.Error
import DryMake.CommandLine
import DryMake.Reading.Error

/-!
What ends a run before it is done, the messages that are given for it, and the exit status.
-/

namespace DryMake

inductive FileRole where
  | makefile
  | rules
deriving DecidableEq, Repr

def FileRole.label : FileRole → String
  | makefile => "makefile"
  | rules => "rules file"

inductive Feature where
  /-- Flags inherited from the environment, other than the one for overrides. -/
  | inheritedFlags (flags : String)
  | standardInput
deriving DecidableEq, Repr

def Feature.label : Feature → String
  | inheritedFlags flags => "MAKEFLAGS=" ++ flags
  | standardInput => "reading the makefile from standard input"

inductive SetupError where
  | missingFile (path : Path) (role : FileRole)
  | unsupported (feature : Feature)
deriving DecidableEq, Repr

namespace SetupError

def message : SetupError → String
  | missingFile path role => "could not find " ++ role.label ++ " " ++ path.text
  | unsupported feature => "unsupported feature: " ++ feature.label

def diagnostic : SetupError → Diagnostic
  | missingFile _ .makefile =>
      .withHelp "nmake::runner::missing_file"
        "pass -f FILE or run from a directory containing a makefile"
  | missingFile _ .rules =>
      .withHelp "nmake::runner::missing_file"
        "pass --rules FILE, set NMAKE_RULES, or skip it with -r"
  | unsupported _ => .plain "nmake::runner::unsupported"

end SetupError

def PathOption.label : PathOption → String
  | file => "makefile"
  | directory => "directory"
  | rules => "rules file"

inductive Fault where
  | setup (failure : SetupError)
  /-- The path of an option is not a text. -/
  | notText (option : PathOption) (path : Argument)
  | reading (role : FileRole) (path : Path) (failure : ReadError)
  | building (failure : BuildError)
deriving DecidableEq, Repr

namespace Fault

def chain : Fault → List String
  | setup failure => [failure.message]
  | notText option path => [option.label ++ " path " ++ path.shown ++ " is not valid UTF-8"]
  | reading role path failure =>
      ("reading " ++ role.label ++ " " ++ path.text) :: failure.message :: failure.cause?.toList
  | building failure => failure.message :: failure.cause?.toList

def missingPath? : Fault → Option Path
  | setup (.missingFile path _) => some path
  | reading _ _ (.missingFile path _) => some path
  | _ => none

def exitStatus : Fault → Nat
  | setup (.missingFile ..) => 5
  | setup (.unsupported _) => 4
  | notText .. => 1
  | reading _ _ (.missingFile ..) => 5
  | reading .. => 2
  | building _ => 3

end Fault

end DryMake
