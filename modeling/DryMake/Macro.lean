import DryMake.Table

/-!
Named values and where they came from. A makefile assigns and extends macros; the environment
imports them. When the environment wins, a value that came from the environment withstands both
kinds of makefile assignment.
-/

namespace DryMake

inductive Origin where
  | file
  /-- It was imported from the environment, or given by the program itself. -/
  | environment
deriving DecidableEq, Repr

/-- A value, not yet expanded, and where it came from. -/
structure Macro where
  value : String
  origin : Origin
deriving DecidableEq, Repr

inductive Assignment where
  | created
  | updated
  | suppressed
deriving DecidableEq, Repr

abbrev MacroTable := Table Macro

namespace MacroTable

def value? (macros : MacroTable) (name : String) : Option String :=
  (macros.get? name).map Macro.value

def importVariable (macros : MacroTable) (name value : String) : MacroTable :=
  macros.insert name { value, origin := .environment }

def isProtected (macros : MacroTable) (environmentWins : Bool) (name : String) : Bool :=
  environmentWins && (macros.get? name).any fun known => known.origin == .environment

def assignment (macros : MacroTable) (environmentWins : Bool) (name : String) : Assignment :=
  if macros.isProtected environmentWins name then .suppressed
  else if macros.contains name then .updated
  else .created

/-- Changes the value of a macro from a makefile, unless it is protected. A new macro comes from
the file; an existing one keeps its origin. -/
def revise (macros : MacroTable) (environmentWins : Bool) (name : String)
    (change : Option String → String) : MacroTable :=
  if macros.isProtected environmentWins name then macros
  else macros.upsert name fun known =>
    { value := change (known.map Macro.value)
      origin := (known.map Macro.origin).getD .file }

def assign (macros : MacroTable) (environmentWins : Bool) (name value : String) : MacroTable :=
  macros.revise environmentWins name fun _ => value

def extended (value : String) : Option String → String
  | none => value
  | some old => old ++ " " ++ value

def append (macros : MacroTable) (environmentWins : Bool) (name value : String) : MacroTable :=
  macros.revise environmentWins name (extended value)

theorem revise_of_isProtected {macros : MacroTable} {environmentWins : Bool} {name : String}
    (guarded : macros.isProtected environmentWins name = true) (change : Option String → String) :
    macros.revise environmentWins name change = macros := by
  rw [revise, if_pos guarded]

theorem isProtected_of_found {macros : MacroTable} {name : String} {known : Macro}
    (found : macros.get? name = some known) (environmentWins : Bool) :
    macros.isProtected environmentWins name =
      (environmentWins && known.origin == .environment) := by
  rw [isProtected, found, Option.any_some]

theorem get?_revise_of_absent {macros : MacroTable} {name : String}
    (absent : macros.get? name = none) (environmentWins : Bool) (change : Option String → String) :
    (macros.revise environmentWins name change).get? name = some ⟨change none, .file⟩ := by
  have unguarded : macros.isProtected environmentWins name = false := by
    rw [isProtected, absent, Option.any_none, Bool.and_false]
  rw [revise, unguarded, if_neg Bool.false_ne_true, Table.get?_upsert_self, absent]
  rfl

theorem get?_revise_of_ne (macros : MacroTable) (environmentWins : Bool) {name other : String}
    (different : other ≠ name) (change : Option String → String) :
    (macros.revise environmentWins name change).get? other = macros.get? other := by
  unfold revise
  split
  · rfl
  · exact Table.get?_upsert_of_ne macros different _

/-- Where a value came from is settled when its macro is created. -/
theorem origin_revise {macros : MacroTable} {name : String} {known : Macro}
    (found : macros.get? name = some known) (environmentWins : Bool) (other : String)
    (change : Option String → String) :
    ((macros.revise environmentWins other change).get? name).map Macro.origin =
      some known.origin := by
  by_cases same : name = other
  · subst same
    unfold revise
    split
    · simp [found]
    · simp [found]
  · rw [get?_revise_of_ne macros environmentWins same, found, Option.map_some]

end MacroTable

end DryMake
