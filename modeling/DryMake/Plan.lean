import DryMake.Table

/-!
The build plan: what each target depends on and which rules it runs. A target may be described
piecemeal, so a further definition adds its dependencies and rules after those already there.
-/

namespace DryMake

/-- The dependency that only separates its neighbours; nothing is built for it. -/
def waitMarker : String := ".WAIT"

/-- Dependencies and unexpanded rules, each in the order in which they were declared. -/
structure Target where
  deps : List String
  rules : List String
deriving DecidableEq, Repr

namespace Target

def extend (earlier later : Target) : Target where
  deps := earlier.deps ++ later.deps
  rules := earlier.rules ++ later.rules

end Target

/-- A definition: the names it declares, and what it says of each of them. -/
structure Definition where
  names : List String
  body : Target
deriving DecidableEq, Repr

namespace Definition

def start (names deps : List String) : Definition where
  names
  body := { deps, rules := [] }

def addRule (definition : Definition) (rule : String) : Definition :=
  { definition with
    body := { definition.body with rules := definition.body.rules ++ [rule] } }

end Definition

/-- The targets defined so far, in the order of their first definitions. -/
abbrev Plan := Table Target

namespace Plan

def commitName (plan : Plan) (name : String) (body : Target) : Plan :=
  plan.upsert name fun
    | none => body
    | some known => known.extend body

/-- Adds a definition to each target that it names; one named twice gets it twice. -/
def commit (plan : Plan) (definition : Definition) : Plan :=
  definition.names.foldl (fun plan name => plan.commitName name definition.body) plan

theorem get?_commitName (plan : Plan) (name : String) (body : Target) :
    (plan.commitName name body).get? name =
      some (match plan.get? name with
        | none => body
        | some known => known.extend body) := by
  rw [commitName, Table.get?_upsert_self]

theorem get?_commitName_of_ne (plan : Plan) {name other : String} (different : other ≠ name)
    (body : Target) : (plan.commitName name body).get? other = plan.get? other :=
  Table.get?_upsert_of_ne plan different _

end Plan

end DryMake
