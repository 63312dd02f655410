/-!
The trace of a build: what would be done, step by step. A step has the depth of its target, one for
a target that was asked for, and is shown indented by three columns for each level.
-/

namespace DryMake

inductive Step where
  /-- A target is begun. Its conditional macros are in the order of their names. -/
  | enter (target : String) (depth : Nat) (conditionals : List (String × String))
  | command (target : String) (depth : Nat) (command : String)
  | leave (target : String) (depth : Nat)
deriving DecidableEq, Repr

namespace Step

def target : Step → String
  | enter name .. => name
  | command name .. => name
  | leave name .. => name

def depth : Step → Nat
  | enter _ level _ => level
  | command _ level _ => level
  | leave _ level => level

def indent (step : Step) : Nat :=
  3 * step.depth

/-- The widest indentation that a text can have. -/
def widthLimit : Nat := 65535

def pad (step : Step) : String :=
  String.ofList (List.replicate step.indent ' ')

/-- The text of a step; a target that is begun has a line for each conditional macro. -/
def render (step : Step) : String :=
  match step with
  | enter name _ conditionals =>
      step.pad ++ " --> " ++ name ++ String.join (conditionals.map fun (key, value) =>
        "\n" ++ step.pad ++ "      \\ " ++ key ++ "= " ++ value)
  | command _ _ text => step.pad ++ "      : " ++ text
  | leave name _ => step.pad ++ " <-- " ++ name

def isTooWide (step : Step) : Bool :=
  widthLimit < step.indent

def shown? (step : Step) : Option String :=
  if step.isTooWide then none else some step.render

end Step

abbrev Trace := List Step

namespace Trace

def render (trace : Trace) : String :=
  String.join (trace.map fun step => step.render ++ "\n")

/-- The trace as it is shown, unless one of its steps is too wide. -/
def shown? (trace : Trace) : Option String :=
  if trace.any Step.isTooWide then none else some trace.render

theorem shown?_eq_some_render {trace : Trace}
    (narrow : ∀ step ∈ trace, step.indent ≤ Step.widthLimit) :
    trace.shown? = some trace.render := by
  refine if_neg fun someTooWide => ?_
  obtain ⟨step, member, tooWide⟩ := List.any_eq_true.mp someTooWide
  exact Nat.not_lt_of_le (narrow step member) (of_decide_eq_true tooWide)

def commands (trace : Trace) : List String :=
  trace.filterMap fun
    | .command _ _ text => some text
    | _ => none

def commandsFor (trace : Trace) (name : String) : List String :=
  trace.filterMap fun
    | .command target _ text => if target = name then some text else none
    | _ => none

def entered (trace : Trace) : List String :=
  trace.filterMap fun
    | .enter target _ _ => some target
    | _ => none

theorem entered_append (earlier later : Trace) :
    entered (earlier ++ later) = entered earlier ++ entered later :=
  List.filterMap_append

theorem mem_entered_iff {trace : Trace} {name : String} :
    name ∈ trace.entered ↔ ∃ depth conditionals, .enter name depth conditionals ∈ trace := by
  constructor
  · intro member
    obtain ⟨step, inTrace, shown⟩ := List.mem_filterMap.mp member
    cases step with
    | enter target depth conditionals => exact ⟨depth, conditionals, Option.some.inj shown ▸ inTrace⟩
    | command | leave => cases shown
  · rintro ⟨depth, conditionals, inTrace⟩
    exact List.mem_filterMap.mpr ⟨_, inTrace, rfl⟩

end Trace

end DryMake
