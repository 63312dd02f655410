import DryMake.Argument

/-!
The command line: options that take a path, flags, and targets. Short flags may be written in one
cluster, at the end of which may stand an option with its path. A long option has its path after an
equals sign or in the next argument. After a double hyphen everything is a target. A path may be any
argument, a target has to be a text.

An option with its path, and targets that follow each other, wait until the next argument is
understood, and only then are they checked, so an argument that is not understood is reported before
a path that is missing or empty and before a target that is no text.
-/

namespace DryMake

inductive PathOption where
  | file
  | directory
  | rules
deriving DecidableEq, Repr

inductive Flag where
  | environmentOverrides
  | noBuiltinRules
  | printDatabase
  | verbose
deriving DecidableEq, Repr

structure CommandLine where
  file : Option Argument
  directory : Option Argument
  rules : Option Argument
  environmentOverrides : Bool
  noBuiltinRules : Bool
  printDatabase : Bool
  verbose : Bool
  targets : List String
deriving DecidableEq, Repr

inductive Refusal where
  | unknownArgument
  | conflict
  | invalidValue
  | invalidText
  | tooManyValues
  | help
  | version
deriving DecidableEq, Repr

def Refusal.exitStatus : Refusal → Nat
  | help => 0
  | version => 0
  | _ => 2

namespace CommandLine

def empty : CommandLine where
  file := none
  directory := none
  rules := none
  environmentOverrides := false
  noBuiltinRules := false
  printDatabase := false
  verbose := false
  targets := []

def path? (line : CommandLine) : PathOption → Option Argument
  | .file => line.file
  | .directory => line.directory
  | .rules => line.rules

def setPath (line : CommandLine) (option : PathOption) (path : Argument) : CommandLine :=
  match option with
  | .file => { line with file := some path }
  | .directory => { line with directory := some path }
  | .rules => { line with rules := some path }

def isSet (line : CommandLine) : Flag → Bool
  | .environmentOverrides => line.environmentOverrides
  | .noBuiltinRules => line.noBuiltinRules
  | .printDatabase => line.printDatabase
  | .verbose => line.verbose

def setFlag (line : CommandLine) (flag : Flag) : CommandLine :=
  match flag with
  | .environmentOverrides => { line with environmentOverrides := true }
  | .noBuiltinRules => { line with noBuiltinRules := true }
  | .printDatabase => { line with printDatabase := true }
  | .verbose => { line with verbose := true }

inductive Name where
  | path (option : PathOption)
  | flag (flag : Flag)
  | refusal (refusal : Refusal)

def Name.ofLetter? : Char → Option Name
  | 'f' => some (.path .file)
  | 'C' => some (.path .directory)
  | 'e' => some (.flag .environmentOverrides)
  | 'r' => some (.flag .noBuiltinRules)
  | 'p' => some (.flag .printDatabase)
  | 'v' => some (.flag .verbose)
  | 'h' => some (.refusal .help)
  | 'V' => some (.refusal .version)
  | _ => none

def Name.ofWord? : String → Option Name
  | "file" => some (.path .file)
  | "directory" => some (.path .directory)
  | "rules" => some (.path .rules)
  | "environment-overrides" => some (.flag .environmentOverrides)
  | "no-builtin-rules" => some (.flag .noBuiltinRules)
  | "print-database" => some (.flag .printDatabase)
  | "verbose" => some (.flag .verbose)
  | "help" => some (.refusal .help)
  | "version" => some (.refusal .version)
  | _ => none

/-- What is not checked yet. -/
inductive Waiting where
  | nothing
  | option (option : PathOption) (path? : Option Argument)
  | targets (targets : List Argument)
deriving DecidableEq, Repr

structure Partial where
  line : CommandLine
  waiting : Waiting

def give (line : CommandLine) (option : PathOption) (path? : Option Argument) :
    Except Refusal CommandLine :=
  match path? with
  | none => .error .invalidValue
  | some path =>
      if (line.path? option).isSome then .error .conflict
      else if path.bytes = [] then .error .invalidValue
      else .ok (line.setPath option path)

def addTargets (line : CommandLine) (targets : List Argument) : Except Refusal CommandLine :=
  match targets.mapM Argument.text? with
  | none => .error .invalidText
  | some texts => .ok { line with targets := line.targets ++ texts }

def Partial.settle (read : Partial) : Except Refusal CommandLine :=
  match read.waiting with
  | .nothing => .ok read.line
  | .option option path? => read.line.give option path?
  | .targets targets => read.line.addTargets targets

def Partial.takeFlag (read : Partial) (flag : Flag) : Except Refusal Partial := do
  let line ← read.settle
  if line.isSet flag then throw .conflict
  return ⟨line.setFlag flag, .nothing⟩

def Partial.takeOption (read : Partial) (option : PathOption) (attached? : Option Argument) :
    Except Refusal Partial := do
  let line ← read.settle
  match attached? with
  | none => return ⟨line, .option option none⟩
  | some path => return ⟨← line.give option (some path), .nothing⟩

def Partial.takeTarget (read : Partial) (target : Argument) : Except Refusal Partial :=
  match read.waiting with
  | .targets earlier => .ok { read with waiting := .targets (earlier ++ [target]) }
  | _ => do return ⟨← read.settle, .targets [target]⟩

/-- Gives up for a reason that an argument names. What waits comes first. -/
def Partial.refuse (read : Partial) (refusal : Refusal) : Except Refusal Partial := do
  let _ ← read.settle
  throw refusal

def hyphen : UInt8 := '-'.toUInt8

def equalsSign : UInt8 := '='.toUInt8

/-- The path that the rest of a cluster gives to an option: nothing, or all of it but for one
equals sign at its start. -/
def attachedPath? (rest : List UInt8) : Option Argument :=
  match rest with
  | [] => none
  | first :: path => if first = equalsSign then some ⟨path⟩ else some ⟨first :: path⟩

def Partial.takeCluster (read : Partial) : List UInt8 → Except Refusal Partial
  | [] => .ok read
  | letter :: rest =>
      match Name.ofLetter? (Char.ofNat letter.toNat) with
      | none => .error .unknownArgument
      | some (.refusal refusal) => read.refuse refusal
      | some (.path option) => read.takeOption option (attachedPath? rest)
      | some (.flag flag) =>
          match read.takeFlag flag with
          | .error refusal => .error refusal
          | .ok read => read.takeCluster rest

def Partial.takeLong (read : Partial) (bytes : List UInt8) : Except Refusal Partial :=
  let word := Argument.mk (bytes.takeWhile (· != equalsSign))
  let attached? := (bytes.dropWhile (· != equalsSign)).tail?.map Argument.mk
  match word.text?.bind Name.ofWord? with
  | none => .error .unknownArgument
  | some (.path option) => read.takeOption option attached?
  | some (.flag flag) =>
      match attached? with
      | some _ => .error .tooManyValues
      | none => read.takeFlag flag
  | some (.refusal refusal) =>
      match attached? with
      | some _ => .error .tooManyValues
      | none => read.refuse refusal

/-- Takes an argument that is not an option: the path of the option that waits for one, or else a
target. -/
def Partial.takePlain (read : Partial) (argument : Argument) : Except Refusal Partial :=
  match read.waiting with
  | .option option none => .ok { read with waiting := .option option (some argument) }
  | _ => read.takeTarget argument

def Partial.take (read : Partial) (argument : Argument) : Except Refusal Partial :=
  match argument.bytes with
  | first :: second :: rest =>
      if first = hyphen then
        if second = hyphen then read.takeLong rest else read.takeCluster (second :: rest)
      else read.takePlain argument
  | _ => read.takePlain argument

def Partial.takeAll (read : Partial) : List Argument → Except Refusal CommandLine
  | [] => read.settle
  | argument :: rest =>
      if argument.bytes = [hyphen, hyphen] then
        match rest.foldlM Partial.takeTarget read with
        | .error refusal => .error refusal
        | .ok read => read.settle
      else
        match read.take argument with
        | .error refusal => .error refusal
        | .ok read => read.takeAll rest

def ofArguments (arguments : List Argument) : Except Refusal CommandLine :=
  Partial.takeAll ⟨empty, .nothing⟩ arguments

end CommandLine

end DryMake
