import DryMake.Text.Quoted

/-!
The log: what is noted while makefiles are read and targets are built. An event says what happened;
its level, its wording and its fields are derived from it in one place.
-/

namespace DryMake

inductive Level where
  | trace
  | debug
  | warn
deriving DecidableEq, Repr

def Level.name : Level → String
  | trace => "trace"
  | debug => "debug"
  | warn => "warn"

/-- Something that is noted. A place is a file and a line number, as it is shown in messages. -/
inductive Event where
  | expanded (input output : String)
  | assigned (name value : String)
  | assignmentIgnored (name ignored kept : String)
  | appended (name value : String)
  | appendIgnored (name ignored kept : String)
  | commentAssigned (place name : String)
  | conditionalAssigned (target name value : String)
  | targetCommitted (name : String)
  | targetDefined (place : String) (names deps : List String)
  | inclusion (place file : String)
  | unrecognised (place line : String)
  | reading (file : String)
  | entered (name : String) (depth : Nat)
  | ruleExpanded (name command : String)
  | left (name : String) (deps : List String)
  | variableSkipped (name : String)
  | environmentImported (count : Nat)
  | rulesSkipped
  | requested (name : String)
deriving DecidableEq, Repr

namespace Event

def level : Event → Level
  | expanded .. => .trace
  | unrecognised .. => .warn
  | _ => .debug

def message : Event → String
  | expanded .. => "expanded"
  | assigned .. => "set"
  | assignmentIgnored .. => "ignore set"
  | appended .. => "additive set"
  | appendIgnored .. => "ignore additive set"
  | commentAssigned .. => "comment set"
  | conditionalAssigned .. => "conditional macro"
  | targetCommitted .. => "commit target"
  | targetDefined .. => "target definition"
  | inclusion .. => "include"
  | unrecognised .. => "unrecognised line"
  | reading .. => "reading makefile"
  | entered .. => "enter target"
  | ruleExpanded .. => "rule"
  | left .. => "leave target"
  | variableSkipped .. => "skip environment variable"
  | environmentImported .. => "imported environment"
  | rulesSkipped => "skipping rules file"
  | requested .. => "build request"

def fields : Event → List (String × String)
  | expanded input output => [("input", input), ("output", output)]
  | assigned name value => [("name", name), ("value", value)]
  | assignmentIgnored name ignored kept => [("name", name), ("ignored", ignored), ("kept", kept)]
  | appended name value => [("name", name), ("value", value)]
  | appendIgnored name ignored kept => [("name", name), ("ignored", ignored), ("kept", kept)]
  | commentAssigned place name => [("at", place), ("name", name)]
  | conditionalAssigned target name value =>
      [("target_name", target), ("name", name), ("value", value)]
  | targetCommitted name => [("name", name)]
  | targetDefined place names deps =>
      [("at", place), ("names", Text.quoteList names), ("deps", Text.quoteList deps)]
  | inclusion place file => [("at", place), ("file", file)]
  | unrecognised place line => [("at", place), ("line", line)]
  | reading file => [("file", file)]
  | entered name depth => [("name", name), ("depth", toString depth)]
  | ruleExpanded name command => [("name", name), ("command", command)]
  | left name deps => [("name", name), ("deps", " ".intercalate deps)]
  | variableSkipped name => [("name", name)]
  | environmentImported count => [("imported", toString count)]
  | rulesSkipped => []
  | requested name => [("name", name)]

def render (event : Event) : String :=
  let fields := event.fields.map fun (name, value) => " " ++ name ++ "=" ++ Text.quote value
  event.level.name ++ ": " ++ event.message ++ String.join fields

end Event

end DryMake
