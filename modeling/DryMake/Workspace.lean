import DryMake.Database
import DryMake.Event

/-!
A workspace is a database that is being changed and the log of what was noted so far. Updates are
the changes that makefile lines and the environment make; each notes what it did.
-/

namespace DryMake

/-- A database and the events noted so far, the first one first. -/
structure Workspace where
  database : Database
  log : Array Event

def Workspace.empty (environmentWins : Bool) : Workspace where
  database := .empty environmentWins
  log := #[]

abbrev Update := StateM Workspace

namespace Update

def note (event : Event) : Update Unit :=
  modify fun workspace => { workspace with log := workspace.log.push event }

def modifyMacros (change : MacroTable → MacroTable) : Update Unit :=
  modify fun workspace =>
    { workspace with
      database := { workspace.database with macros := change workspace.database.macros } }

def assignmentEvent (macros : MacroTable) (environmentWins : Bool) (name value : String) : Event :=
  if macros.isProtected environmentWins name then
    .assignmentIgnored name value ((macros.value? name).getD "")
  else .assigned name value

def appendEvent (macros : MacroTable) (environmentWins : Bool) (name value : String) : Event :=
  if macros.isProtected environmentWins name then
    .appendIgnored name value ((macros.value? name).getD "")
  else .appended name value

def assign (environmentWins : Bool) (name value : String) : Update Assignment := do
  let macros := (← get).database.macros
  note (assignmentEvent macros environmentWins name value)
  modifyMacros fun macros => macros.assign environmentWins name value
  return macros.assignment environmentWins name

def append (environmentWins : Bool) (name value : String) : Update Assignment := do
  let macros := (← get).database.macros
  note (appendEvent macros environmentWins name value)
  modifyMacros fun macros => macros.append environmentWins name value
  return macros.assignment environmentWins name

def assignConditional (target name value : String) : Update Unit := do
  note (.conditionalAssigned target name value)
  modify fun workspace =>
    { workspace with
      database := { workspace.database with
        conditionals := workspace.database.conditionals.assign target name value } }

def commit (definition : Definition) : Update Unit := do
  definition.names.forM fun name => note (.targetCommitted name)
  modify fun workspace =>
    { workspace with
      database := { workspace.database with
        plan := workspace.database.plan.commit definition } }

end Update

end DryMake
