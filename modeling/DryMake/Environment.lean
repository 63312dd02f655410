import DryMake.Fault
import DryMake.Workspace

/-!
The environment of a run: its variables, which of them become macros, and what two of them say about
the run itself.
-/

namespace DryMake

abbrev Environment := List (String × String)

namespace Environment

def flagsVariable : String := "MAKEFLAGS"

def rulesVariable : String := "NMAKE_RULES"

def standardRules : Path := ⟨"/usr/share/lib/make/make.rules"⟩

def ignored : List String :=
  ["HOST_ARCH", "HOST_MACH", "TARGET_MACH", flagsVariable, "SHELL", "_"]

def isIgnored (name : String) : Bool :=
  ignored.contains name

def value? (environment : Environment) (name : String) : Option String :=
  environment.lookup name

/-- Whether the inherited flags let the environment win. There is one flag that does, and no other
that is understood. -/
def inheritedOverride (environment : Environment) : Except SetupError Bool :=
  match (environment.value? flagsVariable).getD "" with
  | "" => .ok false
  | "e" => .ok true
  | flags => .error (.unsupported (.inheritedFlags flags))

def rulesFile (environment : Environment) (asked? : Option Path) : Path :=
  match asked? with
  | some asked => asked
  | none =>
      match environment.value? rulesVariable with
      | none => standardRules
      | some named => if named = "" then standardRules else ⟨named⟩

def importVariable (name value : String) : Update Bool := do
  if isIgnored name then
    Update.note (.variableSkipped name)
    return false
  else
    Update.modifyMacros fun macros => macros.importVariable name value
    return true

def importAll : Environment → Update Nat
  | [] => return 0
  | (name, value) :: rest => do
      let imported ← importVariable name value
      let others ← importAll rest
      return if imported then others + 1 else others

end Environment

end DryMake
