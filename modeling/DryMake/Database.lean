import DryMake.Expansion
import DryMake.Plan

/-!
The database: all that makefiles and the environment have defined so far, and whether the
environment wins over makefile assignments.
-/

namespace DryMake

structure Database where
  macros : MacroTable
  conditionals : ConditionalTable
  plan : Plan
  environmentWins : Bool
deriving DecidableEq, Repr

namespace Database

def empty (environmentWins : Bool) : Database where
  macros := .empty
  conditionals := .empty
  plan := .empty
  environmentWins

instance : Inhabited Database := ⟨empty false⟩

def global (database : Database) : Expansion.Bindings where
  macros := database.macros
  conditional := .empty

def bindingsFor (database : Database) (target : String) : Expansion.Bindings where
  macros := database.macros
  conditional := (database.conditionals.get? target).getD .empty

end Database

end DryMake
