import DryMake.Expansion.Error

/-!
The ways in which a build fails.
-/

namespace DryMake

inductive BuildError where
  | unknownTarget (target : String) (neededBy? : Option String)
  | expansion (target rule : String) (cause : ExpansionError)
  /-- A target depends on itself. The cycle starts and ends with its name. -/
  | dependencyCycle (cycle : List String)
deriving DecidableEq, Repr

namespace BuildError

def message : BuildError → String
  | unknownTarget target none => "don't know how to build target `" ++ target ++ "`"
  | unknownTarget target (some parent) =>
      "don't know how to build target `" ++ target ++ "` (needed by `" ++ parent ++ "`)"
  | expansion target rule _ => "cannot expand rule `" ++ rule ++ "` of target `" ++ target ++ "`"
  | dependencyCycle cycle => "dependency cycle: " ++ " -> ".intercalate cycle

def diagnostic : BuildError → Diagnostic
  | unknownTarget .. => .plain "nmake::build::unknown_target"
  | expansion .. => .plain "nmake::build::expand"
  | dependencyCycle .. => .plain "nmake::build::cycle"

def cause? : BuildError → Option String
  | expansion _ _ cause => some cause.message
  | _ => none

end BuildError

end DryMake
