import DryMake.Run

/-!
The program. It reads its arguments, its environment and files, carries out the command line, and
writes what comes of it.

Which files a run asks for is known only as it goes. So the run is carried out with the files read
so far; when it misses one that was not looked for yet, that file is read and the run carried out
again. Each time around adds a path, and a run without a new one is the answer.
-/

namespace DryMake

def usage : String :=
  "Usage: drymake [OPTIONS] [TARGET]...\n\n" ++
  "Shows how targets would be built, without building them.\n\n" ++
  "  -f, --file FILE               makefile to read; otherwise makefile, then Makefile\n" ++
  "  -C, --directory DIR           look for makefiles from this directory\n" ++
  "      --rules FILE              rules file to read before the makefile\n" ++
  "  -e, --environment-overrides   let the environment win over makefile assignments\n" ++
  "  -r, --no-builtin-rules        read no rules file\n" ++
  "  -p, --print-database          print macros and targets after building\n" ++
  "  -v, --verbose                 print the log\n" ++
  "  -h, --help                    print this text\n" ++
  "  -V, --version                 print the version\n"

def programVersion : String :=
  "drymake 0.1.0"

def Refusal.message : Refusal → String
  | unknownArgument => "error: unexpected argument\n\n" ++ usage
  | conflict => "error: an argument cannot be used twice\n\n" ++ usage
  | invalidValue => "error: an option needs a path\n\n" ++ usage
  | invalidText => "error: a target is not valid UTF-8\n\n" ++ usage
  | tooManyValues => "error: a flag takes no value\n\n" ++ usage
  | help => usage
  | version => programVersion ++ "\n"

def Environment.ofBytes (bytes : ByteArray) : Environment :=
  (bytes.toList.splitOnP (· == 0)).filterMap fun shown => do
    let characters := (← String.fromUTF8? ⟨shown.toArray⟩).toList
    match characters.dropWhile (· != '=') with
    | _ :: value => some (String.ofList (characters.takeWhile (· != '=')), String.ofList value)
    | [] => none

def Argument.lastOfBytes (bytes : ByteArray) (count : Nat) : List Argument :=
  let shown := (bytes.toList.splitOnP (· == 0)).dropLast
  (shown.drop (shown.length - count)).map Argument.mk

def fetch (path : Path) : IO (Option Contents) := do
  try
    let bytes ← IO.FS.readBinFile path.text
    match String.fromUTF8? bytes with
    | some text => return some (.text text)
    | none => return some .binary
  catch
    | .inappropriateType _ 21 _ => return some .directory
    | _ => return none

def fetchEnvironment : IO Environment := do
  try
    return Environment.ofBytes (← IO.FS.readBinFile "/proc/self/environ")
  catch _ => return []

/-- Reads the arguments from where the system shows them with all their bytes. The texts that are
given for them stand in if the system does not. -/
def fetchArguments (texts : List String) : IO (List Argument) := do
  try
    let shown := Argument.lastOfBytes (← IO.FS.readBinFile "/proc/self/cmdline") texts.length
    return if shown.length = texts.length then shown else texts.map .ofText
  catch _ => return texts.map .ofText

/-- Carries out a run, reading the files that it turns out to need. -/
partial def attempt (line : CommandLine) (environment : Environment) (program : String)
    (fetched : List (String × Option Contents)) : IO (Option Outcome) := do
  let files := FileSystem.ofLookup fun path => (fetched.lookup path.text).join
  let outcome? := run line ⟨environment, program, files⟩
  match outcome?.bind fun outcome => outcome.fault?.bind Fault.missingPath? with
  | none => return outcome?
  | some path =>
      if (fetched.lookup path.text).isSome then return outcome?
      attempt line environment program ((path.text, ← fetch path) :: fetched)

def writeOutput (stream : IO.FS.Stream) (text : String) : IO Unit := do
  try
    stream.putStr text
    stream.flush
  catch
    | .resourceVanished .. => return
    | failure => throw failure

def start (texts : List String) : IO UInt32 := do
  let output ← IO.getStdout
  let errors ← IO.getStderr
  match CommandLine.ofArguments (← fetchArguments texts) with
  | .error refusal =>
      writeOutput (if refusal.exitStatus = 0 then output else errors) refusal.message
      return UInt32.ofNat refusal.exitStatus
  | .ok line =>
      let environment ← fetchEnvironment
      let program := (← IO.appPath).toString
      let preferred := Path.resolveIn (line.directory.bind Argument.path?) ⟨"makefile"⟩
      match ← attempt line environment program [(preferred.text, ← fetch preferred)] with
      | none =>
          writeOutput errors "Formatting argument out of range\n"
          return 101
      | some outcome =>
          if line.verbose then
            writeOutput errors
              (String.join (outcome.log.toList.map fun event => event.render ++ "\n"))
          writeOutput output outcome.output
          if let some fault := outcome.fault? then
            writeOutput errors ("error: " ++ ": ".intercalate fault.chain ++ "\n")
          return UInt32.ofNat outcome.exitStatus

end DryMake

def main (texts : List String) : IO UInt32 :=
  DryMake.start texts
