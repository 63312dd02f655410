import DryMake.Proofs.Build.Requests
import DryMake.Proofs.Reading.Failure
import DryMake.Proofs.Reading.Protection

/-!
What a run prints, and with which status it ends. The faults that a run can meet stand in a fixed
order, each one looked for in the database that the parts of the run before it leave. The first that
is there ends the run; what is printed hangs on which of them it is.
-/

namespace DryMake

def ReadError.OfLine (failure : ReadError) : Prop :=
  ∀ path, failure ≠ .missingFile path none

private theorem ReadError.ofLine_of_location {failure : ReadError} {location : Location}
    (located : failure.location? = some location) : failure.OfLine := by
  rintro path rfl
  cases located

namespace Effect

private def FailsOfLine {Value : Type} (effect : Effect Value) : Prop :=
  ∀ database failure later, effect database = (.error failure, later) → failure.OfLine

variable {Value Result : Type}

private theorem failsOfLine_pure (value : Value) : FailsOfLine (pure value) := by
  intro database failure later failed
  cases failed

private theorem failsOfLine_close (open? : Option Definition) : FailsOfLine (close open?) := by
  intro database failure later failed
  cases failed

private theorem failsOfLine_fail {failure : ReadError} (ofLine : failure.OfLine) :
    FailsOfLine (fail failure : Effect Value) := by
  intro database other later failed
  cases failed
  exact ofLine

private theorem FailsOfLine.andThen {first : Effect Value} {next : Value → Effect Result}
    (before : FailsOfLine first) (after : ∀ value, FailsOfLine (next value)) :
    FailsOfLine (first.andThen next) := by
  intro database failure later failed
  rcases andThen_eq_error_iff.mp failed with inFirst | ⟨value, between, -, inNext⟩
  · exact before database failure later inFirst
  · exact after value between failure later inNext

variable {base? : Option Path} {included : Location → Path → Effect Unit}

private theorem failsOfLine_ofLine
    (within : ∀ location path, FailsOfLine (included location path))
    (file : Path) (open? : Option Definition) (line : LogicalLine) :
    FailsOfLine (ofLine base? included file open? line) := by
  intro database failure later failed
  obtain ⟨action, move⟩ := exists_move base? file open? line database
  rw [move.ofLine_eq] at failed
  cases action with
  | goOn | begin | update => cases failed
  | enter path =>
      have entering := (within ⟨file, line.number⟩ path).andThen fun _ =>
        failsOfLine_pure (none : Option Definition)
      exact (failsOfLine_close open?).andThen (fun _ => entering) database failure later failed
  | refuse closes cause =>
      cases failed
      exact ReadError.ofLine_of_location move.of_refuse.1

private theorem failsOfLine_ofLines
    (within : ∀ location path, FailsOfLine (included location path))
    (file : Path) (open? : Option Definition) (lines : List LogicalLine) :
    FailsOfLine (ofLines base? included file open? lines) := by
  induction lines generalizing open? with
  | nil => exact failsOfLine_close open?
  | cons line rest inductionHypothesis =>
      exact (failsOfLine_ofLine within file open? line).andThen inductionHypothesis

private theorem failsOfLine_ofContents
    (within : ∀ location path, FailsOfLine (included location path))
    (path : Path) (contents : Contents) :
    FailsOfLine (ofContents base? included path contents) := by
  cases contents with
  | directory | binary => exact failsOfLine_fail fun path impossible => by cases impossible
  | text text => exact failsOfLine_ofLines within path none _

end Effect

namespace Reader

private theorem failsOfLine_included (reader : Reader) (chain : List Path) :
    ∀ location path, Effect.FailsOfLine (reader.included chain location path) := by
  induction chain using chain_induction reader with
  | step chain longer =>
      intro location path
      rcases reader.included_cases chain path with
        missing | cycle | ⟨contents, found, fresh, reads⟩
      · rw [missing]
        exact Effect.failsOfLine_fail fun path impossible => by cases impossible
      · rw [cycle]
        exact Effect.failsOfLine_fail fun path impossible => by cases impossible
      · rw [reads]
        exact Effect.failsOfLine_ofContents (longer path contents found fresh) path contents

private theorem ofLine_of_readMakefile {reader : Reader} {path : Path}
    {database later : Database} {failure : ReadError}
    (present : reader.files.contains path = true)
    (failed : effectOf (reader.readMakefile path) database = (.error failure, later)) :
    failure.OfLine := by
  have does : Does (reader.readMakefile path) (reader.ofSource (.makefile path)) :=
    reader.does_read (.makefile path)
  rw [does.effectOf_eq, ofSource] at failed
  obtain ⟨contents, found⟩ := Option.isSome_iff_exists.mp present
  rw [found] at failed
  exact Effect.failsOfLine_ofContents (reader.failsOfLine_included [path]) path contents database
    failure later failed

end Reader

namespace Run

def reader (line : CommandLine) (surroundings : Surroundings) : Reader :=
  ⟨surroundings.files, line.directory.bind Argument.path?⟩

def rulesPath (line : CommandLine) (surroundings : Surroundings) : Path :=
  Path.resolveIn (reader line surroundings).base?
    (surroundings.environment.rulesFile (line.rules.bind Argument.path?))

def makefilePath (line : CommandLine) (surroundings : Surroundings) : Path :=
  makefile (reader line surroundings).base? (line.file.bind Argument.path?) surroundings.files

def seeded (line : CommandLine) (surroundings : Surroundings) : Database :=
  { Database.empty (surroundings.environment.value? Environment.flagsVariable == some "e" ||
      line.environmentOverrides) with
    macros := MacroTable.importVariable .empty programMacro surroundings.program }

def ruled (line : CommandLine) (surroundings : Surroundings) : Database :=
  if line.noBuiltinRules then seeded line surroundings
  else
    (Reader.effectOf ((reader line surroundings).readMakefile (rulesPath line surroundings))
      (seeded line surroundings)).2

def imported (line : CommandLine) (surroundings : Surroundings) : Database :=
  { ruled line surroundings with
    macros := surroundings.environment.importedInto (ruled line surroundings).macros }

def parsed (line : CommandLine) (surroundings : Surroundings) : Database :=
  (Reader.effectOf
    ((reader line surroundings).readMakefile (makefilePath line surroundings))
    (imported line surroundings)).2

/-! ### The faults of a run -/

def flagsFaults (environment : Environment) : List Fault :=
  match environment.value? Environment.flagsVariable with
  | none => []
  | some flags =>
      if flags = "" ∨ flags = "e" then [] else [.setup (.unsupported (.inheritedFlags flags))]

def inputFaults (line : CommandLine) : List Fault :=
  if readsStandardInput line then [.setup (.unsupported .standardInput)] else []

/-- The fault of a path that is given and is not a text. -/
def pathFaults (line : CommandLine) (option : PathOption) : List Fault :=
  match line.path? option with
  | none => []
  | some path => if path.text? = none then [.notText option path] else []

/-- The faults of a file that is read at the start: there is none, or it cannot be read. -/
def startFaults (reader : Reader) (role : FileRole) (path : Path) (database : Database) :
    List Fault :=
  if reader.files.contains path then
    match Reader.effectOf (reader.readMakefile path) database with
    | (.ok (), _) => []
    | (.error failure, _) => [.reading role path failure]
  else [.setup (.missingFile path role)]

def rulesFaults (line : CommandLine) (surroundings : Surroundings) : List Fault :=
  if line.noBuiltinRules then []
  else
    pathFaults line .rules ++
      startFaults (reader line surroundings) .rules (rulesPath line surroundings)
        (seeded line surroundings)

def makefileFaults (line : CommandLine) (surroundings : Surroundings) : List Fault :=
  pathFaults line .file ++
    startFaults (reader line surroundings) .makefile (makefilePath line surroundings)
      (imported line surroundings)

/-- The faults of the setup in the order in which they are looked for. -/
def setupFaults (line : CommandLine) (surroundings : Surroundings) : List Fault :=
  flagsFaults surroundings.environment ++ inputFaults line ++ pathFaults line .directory ++
    rulesFaults line surroundings ++ makefileFaults line surroundings

def buildFaults (visit : Build.Visit) : List Fault :=
  match visit.result with
  | .ok () => []
  | .error failure => [.building failure]

def ending (faults : List Fault) : Except Fault Unit :=
  match faults with
  | [] => .ok ()
  | fault :: _ => .error fault

private theorem givenPath_eq (line : CommandLine) (option : PathOption) :
    givenPath line option =
      (ending (pathFaults line option)).map fun _ => (line.path? option).bind Argument.path? := by
  unfold givenPath pathFaults
  cases line.path? option with
  | none => rfl
  | some argument =>
      have decodes : argument.path? = argument.text?.map Path.mk := rfl
      dsimp only
      rw [Option.bind_some, decodes]
      cases argument.text? <;> rfl

/-! ### The setup -/

/-- A part of the setup ends with the first of the faults, or leaves the database if there is none.
-/
private def Ends (ran : Except Fault Unit × Workspace) (faults : List Fault)
    (database : Database) : Prop :=
  ran.1 = ending faults ∧ (faults = [] → ran.2.database = database)

private theorem ends_andThen {first : Setup Unit} (next : Setup Unit) {workspace : Workspace}
    {faults others : List Fault} {between database : Database}
    (before : Ends (first.run workspace) faults between)
    (after : ∀ later : Workspace, later.database = between →
      Ends (next.run later) others database) :
    Ends ((first >>= fun _ => next).run workspace) (faults ++ others) database := by
  obtain ⟨ended, left⟩ := before
  rw [run_bind]
  cases ran : first.run workspace with
  | mk result later =>
      rw [ran] at ended left
      cases faults with
      | nil =>
          cases ended
          exact after later (left rfl)
      | cons fault rest =>
          cases ended
          exact ⟨rfl, fun impossible => by cases impossible⟩

private theorem ends_givenPath {line : CommandLine} {option : PathOption}
    {next : Option Path → Setup Unit} {workspace : Workspace} {faults : List Fault}
    {database : Database}
    (after : Ends ((next ((line.path? option).bind Argument.path?)).run workspace) faults
      database) :
    Ends (((do next (← givenPath line option)) : Setup Unit).run workspace)
      (pathFaults line option ++ faults) database := by
  rw [run_givenPath_bind, givenPath_eq]
  cases pathFaults line option with
  | nil => exact after
  | cons fault rest => exact ⟨rfl, fun impossible => by cases impossible⟩

private theorem ends_readStart (reader : Reader) (role : FileRole) (path : Path)
    (workspace : Workspace) :
    Ends ((readStart reader role path).run workspace)
      (startFaults reader role path workspace.database)
      (Reader.effectOf (reader.readMakefile path) workspace.database).2 := by
  have does : Reader.Does (reader.readMakefile path) _ := reader.does_read (.makefile path)
  have effect := does workspace
  rw [← does.effectOf_eq] at effect
  unfold readStart startFaults
  by_cases present : reader.files.contains path = true
  · rw [if_pos present, present, ← effect]
    change Ends ((((reader.readMakefile path).run workspace).1).mapError (Fault.reading role path),
      ((reader.readMakefile path).run workspace).2) _ _
    cases ((reader.readMakefile path).run workspace).1 with
    | error failure => exact ⟨rfl, fun impossible => by cases impossible⟩
    | ok value => exact ⟨rfl, fun _ => rfl⟩
  · rw [if_neg present, Bool.eq_false_of_not_eq_true present]
    exact ⟨rfl, fun impossible => by cases impossible⟩

private theorem ends_readRules (line : CommandLine) (surroundings : Surroundings)
    (workspace : Workspace) (seed : workspace.database = seeded line surroundings) :
    Ends ((readRules line surroundings.environment (reader line surroundings)).run workspace)
      (rulesFaults line surroundings) (ruled line surroundings) := by
  unfold readRules rulesFaults ruled
  split
  · exact ⟨rfl, fun _ => seed⟩
  · rw [← seed]
    exact ends_givenPath (ends_readStart _ .rules (rulesPath line surroundings) workspace)

private theorem ends_readGiven (line : CommandLine) (surroundings : Surroundings)
    (workspace : Workspace) (isImported : workspace.database = imported line surroundings) :
    Ends ((readGiven line (reader line surroundings)).run workspace)
      (makefileFaults line surroundings) (parsed line surroundings) := by
  unfold makefileFaults parsed
  rw [← isImported]
  exact ends_givenPath (ends_readStart _ .makefile (makefilePath line surroundings) workspace)

/-- The setup ends with the first fault of the directory, the rules file and the makefile, or with
all files read. -/
private theorem ends_prepare (line : CommandLine) (surroundings : Surroundings) :
    Ends ((prepare line surroundings.environment surroundings).run
        (.empty (seeded line surroundings).environmentWins))
      (pathFaults line .directory ++
        (rulesFaults line surroundings ++ makefileFaults line surroundings))
      (parsed line surroundings) := by
  refine ends_givenPath ?_
  have rules := ends_readRules line surroundings ⟨seeded line surroundings, #[]⟩ rfl
  let others : Setup Unit := do
    Update.note (.environmentImported (← surroundings.environment.importAll))
    readGiven line (reader line surroundings)
  refine ends_andThen others rules fun later left => ?_
  have isImported : (surroundings.environment.importAll.run later).2.database =
      imported line surroundings := by
    rw [Environment.database_importAll, left]
    rfl
  exact ends_readGiven line surroundings ⟨_, _⟩ isImported

private theorem environmentWins_eq (line : CommandLine) (surroundings : Surroundings) :
    environmentWins line surroundings.environment =
      (ending (flagsFaults surroundings.environment ++ inputFaults line)).map
        fun _ => (seeded line surroundings).environmentWins := by
  have afterFlags : ∀ inherited : Bool,
      surroundings.environment.inheritedOverride = .ok inherited →
      (surroundings.environment.value? Environment.flagsVariable == some "e") = inherited →
      environmentWins line surroundings.environment =
        (ending (inputFaults line)).map fun _ => (seeded line surroundings).environmentWins := by
    intro inherited accepted same
    unfold environmentWins inputFaults seeded
    rw [accepted, same]
    dsimp only
    split <;> rfl
  unfold flagsFaults
  cases flagged : surroundings.environment.value? Environment.flagsVariable with
  | none =>
      apply afterFlags false
      · rw [Environment.inheritedOverride, flagged]
        rfl
      · rw [flagged]
        rfl
  | some flags =>
      by_cases understood : flags = "" ∨ flags = "e"
      · simp only [if_pos understood]
        apply afterFlags (flags == "e")
        · rw [Environment.inheritedOverride, flagged]
          rcases understood with rfl | rfl <;> rfl
        · rw [flagged]
          rfl
      · have refused : surroundings.environment.inheritedOverride =
            .error (.unsupported (.inheritedFlags flags)) := by
          obtain ⟨notEmpty, notOverride⟩ := not_or.mp understood
          rw [Environment.inheritedOverride, flagged, Option.getD_some]
          split
          · contradiction
          · contradiction
          · rfl
        rw [environmentWins, refused]
        simp only [if_neg understood]
        rfl

end Run

private theorem Fault.exitStatus_ne_zero (fault : Fault) : fault.exitStatus ≠ 0 := by
  unfold exitStatus
  split <;> decide

private theorem Fault.exitStatus_eq_one_iff (fault : Fault) :
    fault.exitStatus = 1 ↔ ∃ option path, fault = .notText option path := by
  cases fault with
  | notText option path => exact iff_of_true rfl ⟨option, path, rfl⟩
  | setup failure =>
      refine iff_of_false ?_ nofun
      cases failure <;> simp [exitStatus]
  | reading role path failure =>
      refine iff_of_false ?_ nofun
      cases failure <;> simp [exitStatus]
  | building failure => exact iff_of_false (by simp [exitStatus]) nofun

private theorem Outcome.exitStatus_eq_zero_iff (outcome : Outcome) :
    outcome.exitStatus = 0 ↔ outcome.fault? = none := by
  unfold exitStatus
  cases outcome.fault? with
  | none => exact iff_of_true rfl rfl
  | some fault => exact iff_of_false fault.exitStatus_ne_zero (Option.some_ne_none fault)

private theorem Outcome.exitStatus_eq_one_iff (outcome : Outcome) :
    outcome.exitStatus = 1 ↔ ∃ option path, outcome.fault? = some (.notText option path) := by
  unfold exitStatus
  cases outcome.fault? with
  | none => exact iff_of_false (by decide) nofun
  | some fault =>
      simp only [Option.map_some, Option.getD_some, Option.some.injEq]
      exact fault.exitStatus_eq_one_iff

private theorem Outcome.exitStatus_eq {outcome : Outcome}
    (ofLine : ∀ role path failure, outcome.fault? = some (.reading role path failure) →
      failure.OfLine) :
    outcome.exitStatus =
      (match outcome.fault? with
      | none => 0
      | some (.setup (.unsupported _)) => 4
      | some (.notText ..) => 1
      | some (.setup (.missingFile ..)) => 5
      | some (.reading _ _ (.missingFile _ (some _))) => 5
      | some (.reading ..) => 2
      | some (.building _) => 3) := by
  unfold exitStatus
  cases ended : outcome.fault? with
  | none => rfl
  | some fault =>
      cases fault with
      | setup failure => cases failure <;> rfl
      | notText | building => rfl
      | reading role path failure =>
          cases failure with
          | missingFile missing location? =>
              cases location? with
              | none => exact absurd rfl (ofLine role path _ ended missing)
              | some location => rfl
          | _ => rfl

namespace Run

/-- A setup with a fault ends the run; otherwise the targets are built. Neither the targets nor the
printing of the database play a part in it. -/
private theorem run_cases (line : CommandLine) (surroundings : Surroundings) :
    (∃ fault others log, setupFaults line surroundings = fault :: others ∧
      ∀ targets printDatabase,
        run { line with targets, printDatabase } surroundings = some ⟨"", some fault, log⟩) ∨
    (∃ workspace : Workspace, setupFaults line surroundings = [] ∧
      workspace.database = parsed line surroundings ∧
      ∀ targets printDatabase, run { line with targets, printDatabase } surroundings =
        build { line with targets, printDatabase } workspace) := by
  have wins := environmentWins_eq line surroundings
  obtain ⟨ended, database⟩ := ends_prepare line surroundings
  unfold setupFaults
  rw [List.append_assoc _ (rulesFaults _ _), List.append_assoc _ (pathFaults _ _)]
  cases early : flagsFaults surroundings.environment ++ inputFaults line with
  | cons fault others =>
      rw [early] at wins
      refine Or.inl ⟨fault, _, #[], rfl, fun targets printDatabase => ?_⟩
      have same : environmentWins { line with targets, printDatabase } surroundings.environment =
          .error fault := wins
      rw [run, same]
  | nil =>
      rw [early] at wins
      let prepared := (prepare line surroundings.environment surroundings).run
        (.empty (seeded line surroundings).environmentWins)
      have same : ∀ targets printDatabase,
          environmentWins { line with targets, printDatabase } surroundings.environment =
            .ok (seeded line surroundings).environmentWins := fun _ _ => wins
      have alike : ∀ targets printDatabase, (prepare { line with targets, printDatabase }
          surroundings.environment surroundings).run
            (.empty (seeded line surroundings).environmentWins) = prepared := fun _ _ => rfl
      rw [List.nil_append]
      cases late : pathFaults line .directory ++
          (rulesFaults line surroundings ++ makefileFaults line surroundings) with
      | cons fault others =>
          rw [late] at ended
          have failed : prepared = (.error fault, prepared.2) := Prod.ext ended rfl
          refine Or.inl ⟨fault, others, prepared.2.log, rfl, fun targets printDatabase => ?_⟩
          rw [run, same]
          dsimp only
          rw [alike, failed]
      | nil =>
          rw [late] at ended
          have succeeded : prepared = (.ok (), prepared.2) := Prod.ext ended rfl
          refine Or.inr ⟨prepared.2, rfl, database late, fun targets printDatabase => ?_⟩
          rw [run, same]
          dsimp only
          rw [alike, succeeded]

private theorem ofLine_of_mem_startFaults {reader : Reader} {role role' : FileRole}
    {path path' : Path} {database : Database} {failure : ReadError}
    (member : .reading role' path' failure ∈ startFaults reader role path database) :
    failure.OfLine := by
  unfold startFaults at member
  split at member
  · rename_i present
    split at member
    · cases member
    · rename_i cause later failed
      cases List.mem_singleton.mp member
      exact Reader.ofLine_of_readMakefile present failed
  · cases List.mem_singleton.mp member

private theorem notMem_pathFaults (line : CommandLine) (option : PathOption) (role : FileRole)
    (path : Path) (failure : ReadError) :
    .reading role path failure ∉ pathFaults line option := by
  intro member
  unfold pathFaults at member
  split at member
  · cases member
  · split at member
    · cases List.mem_singleton.mp member
    · cases member

private theorem ofLine_of_mem_setupFaults {line : CommandLine} {surroundings : Surroundings}
    {role : FileRole} {path : Path} {failure : ReadError}
    (member : .reading role path failure ∈ setupFaults line surroundings) : failure.OfLine := by
  unfold setupFaults at member
  simp only [List.mem_append] at member
  rcases member with (((inFlags | inInput) | inDirectory) | inRules) | inMakefile
  · unfold flagsFaults at inFlags
    split at inFlags
    · cases inFlags
    · split at inFlags
      · cases inFlags
      · cases List.mem_singleton.mp inFlags
  · unfold inputFaults at inInput
    split at inInput
    · cases List.mem_singleton.mp inInput
    · cases inInput
  · exact absurd inDirectory (notMem_pathFaults _ _ _ _ _)
  · unfold rulesFaults at inRules
    split at inRules
    · cases inRules
    · exact (List.mem_append.mp inRules).elim
        (fun inPath => absurd inPath (notMem_pathFaults _ _ _ _ _)) ofLine_of_mem_startFaults
  · exact (List.mem_append.mp inMakefile).elim
      (fun inPath => absurd inPath (notMem_pathFaults _ _ _ _ _)) ofLine_of_mem_startFaults

private theorem ofLine_of_mem_faults {line : CommandLine} {surroundings : Surroundings}
    {visit : Build.Visit} {role : FileRole} {path : Path} {failure : ReadError}
    (member : .reading role path failure ∈ setupFaults line surroundings ++ buildFaults visit) :
    failure.OfLine := by
  rcases List.mem_append.mp member with inSetup | inBuild
  · exact ofLine_of_mem_setupFaults inSetup
  · unfold buildFaults at inBuild
    split at inBuild
    · cases inBuild
    · cases List.mem_singleton.mp inBuild

private theorem exists_outcome_of_build {line : CommandLine} {workspace : Workspace}
    (narrow : ∀ step ∈ (Build.requestAll workspace.database line.targets).steps,
      step.indent ≤ Step.widthLimit) :
    let built := Build.requestAll workspace.database line.targets
    ∃ outcome, build line workspace = some outcome ∧
      outcome.fault? = (buildFaults built).head? ∧
      outcome.output = Trace.render built.steps ++
        if buildFaults built = [] ∧ line.printDatabase = true then workspace.database.dump
        else "" := by
  intro built
  obtain ⟨steps, result⟩ := Build.buildAllInto_eq_requestAll workspace.database true
    ⟨#[], workspace.log⟩ line.targets
  have shown : Trace.shown? built.steps = some (Trace.render built.steps) :=
    Trace.shown?_eq_some_render narrow
  unfold build buildFaults
  cases ended : workspace.database.buildAllInto true ⟨#[], workspace.log⟩ line.targets with
  | mk record outcome =>
      rw [ended] at steps result
      have sameSteps : record.steps.toList = built.steps := steps
      have sameResult : built.result = outcome := result.symm
      dsimp only
      rw [sameSteps, shown, sameResult]
      cases outcome with
      | error failure => exact ⟨_, rfl, rfl, String.append_empty.symm⟩
      | ok value =>
          refine ⟨_, rfl, rfl, ?_⟩
          cases line.printDatabase <;> rfl

private theorem build_append_of_failed {workspace : Workspace} {tried : List String}
    (failed : (Build.requestAll workspace.database tried).result ≠ .ok ()) (line : CommandLine)
    (others : List String) (printDatabase : Bool) :
    build { line with targets := tried ++ others, printDatabase } workspace =
      build { line with targets := tried } workspace := by
  obtain ⟨-, result⟩ :=
    Build.buildAllInto_eq_requestAll workspace.database true ⟨#[], workspace.log⟩ tried
  unfold build
  dsimp only
  rw [Build.buildAllInto_append_of_failed failed]
  cases ended : workspace.database.buildAllInto true ⟨#[], workspace.log⟩ tried with
  | mk record outcome =>
      rw [ended] at result
      cases outcome with
      | error failure => rfl
      | ok value => exact absurd result.symm failed

end Run

/-- One rule says what a run prints and with which status it ends, if the trace can be shown. The
faults of the setup come in their order before that of the first request that fails, and the first
fault there is ends the run. Nothing is printed if it is one of the setup; otherwise the steps of the
requests are, those of a request that fails included, and after them the database, if it is asked for
and there is no fault. So neither the requests after one that fails nor the printing of the database
matter. -/
theorem run_obeys_precedence (line : CommandLine) (surroundings : Surroundings)
    (narrow : Run.setupFaults line surroundings = [] →
      ∀ step ∈ (Build.requestAll (Run.parsed line surroundings) line.targets).steps,
        step.indent ≤ Step.widthLimit) :
    let setup := Run.setupFaults line surroundings
    let database := Run.parsed line surroundings
    let built := Build.requestAll database line.targets
    let faults := setup ++ Run.buildFaults built
    ∃ outcome, run line surroundings = some outcome ∧
      outcome.fault? = faults.head? ∧
      outcome.output =
        (if setup = [] then
          Trace.render built.steps ++
            if faults = [] ∧ line.printDatabase = true then database.dump else ""
        else "") ∧
      outcome.exitStatus =
        (match outcome.fault? with
        | none => 0
        | some (.setup (.unsupported _)) => 4
        | some (.notText ..) => 1
        | some (.setup (.missingFile ..)) => 5
        | some (.reading _ _ (.missingFile _ (some _))) => 5
        | some (.reading ..) => 2
        | some (.building _) => 3) ∧
      (outcome.exitStatus = 0 ↔ outcome.fault? = none) ∧
      (outcome.exitStatus = 1 ↔ ∃ option path, outcome.fault? = some (.notText option path)) ∧
      ∀ tried rest others printDatabase, line.targets = tried ++ rest →
        (Build.requestAll database tried).result ≠ .ok () →
        run { line with targets := tried ++ others, printDatabase } surroundings =
          some outcome := by
  intro setup database built faults
  have ofLine : ∀ outcome : Outcome, outcome.fault? = faults.head? →
      ∀ role path failure, outcome.fault? = some (.reading role path failure) →
        failure.OfLine := by
    intro outcome first role path failure ended
    rw [first] at ended
    exact Run.ofLine_of_mem_faults (List.mem_of_mem_head? ended)
  rcases Run.run_cases line surroundings with
    ⟨first, others, log, setupFails, ran⟩ | ⟨workspace, setupEnds, same, ran⟩
  · have someFault : setup ≠ [] := by
      rw [show setup = _ from setupFails]
      exact List.cons_ne_nil _ _
    have fault? : some first = faults.head? := by
      rw [show faults = (first :: others) ++ _ from congrArg (· ++ _) setupFails]
      rfl
    let outcome : Outcome := ⟨"", some first, log⟩
    refine ⟨outcome, ran line.targets line.printDatabase, fault?, (if_neg someFault).symm,
      outcome.exitStatus_eq (ofLine outcome fault?), outcome.exitStatus_eq_zero_iff,
      outcome.exitStatus_eq_one_iff, ?_⟩
    intro tried rest others printDatabase _ _
    exact ran _ _
  · have onlyBuild : faults = Run.buildFaults built := congrArg (· ++ _) setupEnds
    obtain ⟨outcome, builds, fault?, output⟩ :=
      Run.exists_outcome_of_build (same.symm ▸ narrow setupEnds)
    rw [same, ← onlyBuild] at fault? output
    refine ⟨outcome, (ran line.targets line.printDatabase).trans builds, fault?, ?_,
      outcome.exitStatus_eq (ofLine outcome fault?), outcome.exitStatus_eq_zero_iff,
      outcome.exitStatus_eq_one_iff, ?_⟩
    · rw [if_pos setupEnds, output]
    · intro tried rest others printDatabase split failed
      have failedThere : (Build.requestAll workspace.database tried).result ≠ .ok () := by
        rw [same]
        exact failed
      have cut := Run.build_append_of_failed failedThere line
      have whole : { line with targets := tried ++ rest, printDatabase := line.printDatabase } =
          line := by
        rw [← split]
      rw [ran, cut others printDatabase, ← cut rest line.printDatabase, whole, builds]

/-- A request that fails hides the one after it and the printing of the database. -/
theorem run_obeys_precedence_of_unknown :
    let files : FileSystem := .ofLookup fun path =>
      if path.text = "Makefile" then some (.text "one:\n\techo $(CC)\nall: one gone\n") else none
    let surroundings : Surroundings := ⟨[("CC", "cc")], "nmake", files⟩
    let line : CommandLine :=
      { CommandLine.empty with
        noBuiltinRules := true, printDatabase := true, targets := ["one", "all", "two"] }
    let tried := ["one", "all"]
    let steps := (Build.requestAll (Run.parsed line surroundings) line.targets).steps
    (∀ step ∈ steps, step.indent ≤ Step.widthLimit) ∧
      line.targets = tried ++ ["two"] ∧
      (Build.requestAll (Run.parsed line surroundings) tried).result =
        .error (.unknownTarget "gone" (some "all")) ∧
      ∃ outcome, run line surroundings = some outcome ∧
        outcome.fault? = some (.building (.unknownTarget "gone" (some "all"))) ∧
        run { line with targets := tried ++ [], printDatabase := false } surroundings =
          some outcome := by
  intro files surroundings line tried steps
  have failed : (Build.requestAll (Run.parsed line surroundings) tried).result =
      .error (.unknownTarget "gone" (some "all")) := by
    subst tried line surroundings files
    cbv
  have depths : steps.map Step.depth = [1, 1, 1, 1, 2, 2, 2] := by
    subst steps tried line surroundings files
    cbv
  have first : (Run.setupFaults line surroundings ++ Run.buildFaults
      (Build.requestAll (Run.parsed line surroundings) line.targets)).head? =
        some (.building (.unknownTarget "gone" (some "all"))) := by
    subst steps tried line surroundings files
    cbv
  have narrow : ∀ step ∈ steps, step.indent ≤ Step.widthLimit := by
    intro step member
    have listed : step.depth ∈ [1, 1, 1, 1, 2, 2, 2] := depths ▸ List.mem_map_of_mem member
    have shallow : ∀ depth ∈ [1, 1, 1, 1, 2, 2, 2], 3 * depth ≤ Step.widthLimit := by decide
    exact shallow step.depth listed
  obtain ⟨outcome, ran, fault?, -, -, -, -, cut⟩ :=
    run_obeys_precedence line surroundings fun _ => narrow
  refine ⟨narrow, rfl, failed, outcome, ran, fault?.trans first, cut tried ["two"] [] false rfl ?_⟩
  rw [failed]
  intro impossible
  cases impossible

/-- Not all faults are those that are documented. A directory that is not a text ends the run with a
status of its own, and a path that is not quite the sentinel for standard input is taken for it. -/
theorem run_meets_undocumented_faults :
    let files : FileSystem := .ofLookup fun path =>
      if path.text = "Makefile" then some (.text "all:\n")
      else if path.text = "-/" then some .directory
      else none
    let surroundings : Surroundings := ⟨[], "nmake", files⟩
    let exit := fun arguments : List Argument =>
      match CommandLine.ofArguments arguments with
      | .ok line => (run line surroundings).map Outcome.exitStatus
      | .error _ => none
    exit [.ofText "-r", .ofText "-C", ⟨[0xFF]⟩] = some 1 ∧
      exit [.ofText "-r", .ofText "--file=-/"] = some 4 := by
  constructor
  · cbv
  · cbv

end DryMake
