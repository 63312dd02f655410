import DryMake.Database

/-!
The written form of a database: its macros with a value that is not empty, its conditional macros
and its targets, in three sections that an empty line sets apart. Each section is in the order of
its names, so the text does not hang on the order in which things were defined.
-/

namespace DryMake.Database

def dumpMacro (name : String) (known : Macro) : String :=
  if known.value = "" then "" else name ++ "= " ++ known.value ++ "\n"

def dumpConditional (target name value : String) : String :=
  target ++ " := " ++ name ++ " = " ++ value ++ "\n"

def dumpTarget (name : String) (body : Target) : String :=
  let deps := if body.deps = [] then "" else " " ++ " ".intercalate body.deps
  name ++ ":" ++ deps ++ "\n" ++ String.join (body.rules.map fun rule => "\t" ++ rule ++ "\n")

def dumpMacros (macros : MacroTable) : String :=
  String.join (macros.sorted.map fun (name, known) => dumpMacro name known)

def dumpConditionals (conditionals : ConditionalTable) : String :=
  String.join (conditionals.sorted.map fun (target, known) =>
    String.join (known.sorted.map fun (name, value) => dumpConditional target name value))

def dumpPlan (plan : Plan) : String :=
  String.join (plan.sorted.map fun (name, body) => dumpTarget name body)

def dump (database : Database) : String :=
  dumpMacros database.macros ++ "\n" ++ dumpConditionals database.conditionals ++ "\n" ++
    dumpPlan database.plan

end DryMake.Database
