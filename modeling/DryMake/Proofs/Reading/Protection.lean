import DryMake.Proofs.Reading.Stability
import DryMake.Run

/-!
Where the values of macros come from, over whole runs. A macro keeps the origin with which it was
created, makefiles create macros of their own only, and while the environment wins its macros keep
their values too. So a run in which the environment wins ends with the values that its variables
had, whatever its makefiles assign.
-/

namespace DryMake

/-- What becomes of macros in makefiles: none loses its origin, new ones come from a file, and those
of an environment that wins stay as they are. -/
structure MacrosKept (earlier later : Database) : Prop where
  sameRule : later.environmentWins = earlier.environmentWins
  origin : ∀ name known, earlier.macros.get? name = some known →
    (later.macros.get? name).map Macro.origin = some known.origin
  created : ∀ name known, earlier.macros.get? name = none →
    later.macros.get? name = some known → known.origin = .file
  guarded : earlier.environmentWins = true → ∀ name known,
    earlier.macros.get? name = some known → known.origin = .environment →
      later.macros.get? name = some known

private theorem macrosKept_of_same {earlier later : Database}
    (sameMacros : later.macros = earlier.macros)
    (sameRule : later.environmentWins = earlier.environmentWins) :
    MacrosKept earlier later := by
  constructor
  · exact sameRule
  · intro name known found
    rw [sameMacros, found, Option.map_some]
  · intro name known absent found
    rw [sameMacros, absent] at found
    cases found
  · intro wins name known found imported
    rw [sameMacros, found]

theorem MacrosKept.trans {first second third : Database} (before : MacrosKept first second)
    (after : MacrosKept second third) : MacrosKept first third := by
  constructor
  · exact after.sameRule.trans before.sameRule
  · intro name known found
    obtain ⟨between, foundBetween, sameOrigin⟩ :=
      Option.map_eq_some_iff.mp (before.origin name known found)
    rw [after.origin name between foundBetween, sameOrigin]
  · intro name known absent found
    cases foundBetween : second.macros.get? name with
    | none => exact after.created name known foundBetween found
    | some between =>
        have sameOrigin := after.origin name between foundBetween
        rw [found, Option.map_some] at sameOrigin
        rw [Option.some.inj sameOrigin]
        exact before.created name between absent foundBetween
  · intro wins name known found imported
    have stays := before.guarded wins name known found imported
    exact after.guarded (before.sameRule.trans wins) name known stays imported

private theorem macrosKept_revise (database : Database) (name : String)
    (change : Option String → String) :
    MacrosKept database
      { database with macros := database.macros.revise database.environmentWins name change } := by
  constructor
  · rfl
  · intro other known found
    exact MacroTable.origin_revise found _ _ change
  · intro other known absent found
    by_cases same : other = name
    · subst same
      rw [MacroTable.get?_revise_of_absent absent] at found
      cases found
      rfl
    · rw [MacroTable.get?_revise_of_ne _ _ same, absent] at found
      cases found
  · intro wins other known found imported
    by_cases same : other = name
    · subst same
      have protects : database.macros.isProtected database.environmentWins other = true := by
        rw [MacroTable.isProtected_of_found found, wins, imported]
        rfl
      rw [MacroTable.revise_of_isProtected protects, found]
    · rw [MacroTable.get?_revise_of_ne _ _ same, found]

theorem stable_macrosKept : Stable MacrosKept := by
  constructor
  · intro database
    exact macrosKept_of_same rfl rfl
  · intro first second third
    exact MacrosKept.trans
  · intro database open?
    exact macrosKept_of_same rfl rfl
  · intro database target name value
    exact macrosKept_of_same rfl rfl
  · intro database name value
    exact macrosKept_revise database name fun _ => value
  · intro database name value
    exact macrosKept_revise database name (MacroTable.extended value)

/-- Reads one source after the other, each with its own files and directory. A reading that fails
does not keep the next one from being done. -/
def readAll (calls : List (Reader × Reader.Source)) (workspace : Workspace) : Workspace :=
  calls.foldl (fun workspace call => ((call.1.read call.2).run workspace).2) workspace

private theorem macrosKept_readAll (calls : List (Reader × Reader.Source)) (workspace : Workspace) :
    MacrosKept workspace.database (readAll calls workspace).database := by
  induction calls generalizing workspace with
  | nil => exact macrosKept_of_same rfl rfl
  | cons call rest inductionHypothesis =>
      have first := stable_macrosKept.related_read call.1 call.2 workspace
      exact first.trans (inductionHypothesis _)

namespace Environment

def importedInto (environment : Environment) (macros : MacroTable) : MacroTable :=
  environment.foldl (fun macros entry =>
    if isIgnored entry.1 then macros else macros.importVariable entry.1 entry.2) macros

theorem database_importAll (environment : Environment) (workspace : Workspace) :
    (environment.importAll.run workspace).2.database =
      { workspace.database with macros := environment.importedInto workspace.database.macros } := by
  induction environment generalizing workspace with
  | nil => rfl
  | cons entry rest inductionHypothesis =>
      obtain ⟨name, value⟩ := entry
      have onRest := inductionHypothesis (importVariable name value |>.run workspace).2
      have first : ((importVariable name value).run workspace).2.database =
          { workspace.database with
            macros := importedInto [(name, value)] workspace.database.macros } := by
        unfold importVariable importedInto
        by_cases skipped : isIgnored name = true
        · simp only [if_pos skipped, List.foldl_cons, List.foldl_nil]
          rfl
        · simp only [if_neg skipped, List.foldl_cons, List.foldl_nil]
          rfl
      rw [first] at onRest
      exact onRest

private theorem get?_importedInto_of_absent {environment : Environment} {name : String}
    (absent : ∀ entry ∈ environment, entry.1 ≠ name) (macros : MacroTable) :
    (environment.importedInto macros).get? name = macros.get? name := by
  unfold importedInto
  induction environment generalizing macros with
  | nil => rfl
  | cons entry rest inductionHypothesis =>
      obtain ⟨different, onRest⟩ := List.forall_mem_cons.mp absent
      rw [List.foldl_cons, inductionHypothesis onRest]
      split
      · rfl
      · exact Table.get?_insert_of_ne _ (Ne.symm different) _

theorem get?_importedInto_of_last {before after : Environment} {name : String}
    (last : ∀ entry ∈ after, entry.1 ≠ name) (kept : isIgnored name = false) (value : String)
    (macros : MacroTable) :
    (importedInto (before ++ (name, value) :: after) macros).get? name =
      some ⟨value, .environment⟩ := by
  have parts : importedInto (before ++ (name, value) :: after) macros =
      importedInto after ((importedInto before macros).importVariable name value) := by
    unfold importedInto
    rw [List.foldl_append, List.foldl_cons]
    simp only [kept, Bool.false_eq_true, if_false]
  rw [parts, get?_importedInto_of_absent last]
  exact Table.get?_insert_self _ _ _

end Environment

/-! ### The setup of a run -/

namespace Run

def Prepares (line : CommandLine) (settings : Environment) (surroundings : Surroundings)
    (workspace : Workspace) : Prop :=
  ∃ wins, environmentWins line settings = .ok wins ∧
    (prepare line settings surroundings).run (.empty wins) = (.ok (), workspace)

theorem run_givenPath_bind (line : CommandLine) (option : PathOption)
    (next : Option Path → Setup Unit) (workspace : Workspace) :
    ((do next (← givenPath line option)) : Setup Unit).run workspace =
      match givenPath line option with
      | .error fault => (.error fault, workspace)
      | .ok given? => (next given?).run workspace := by
  cases givenPath line option <;> rfl

private theorem macrosKept_readStart (reader : Reader) (role : FileRole) (path : Path)
    (workspace : Workspace) :
    MacrosKept workspace.database ((readStart reader role path).run workspace).2.database := by
  unfold readStart
  by_cases missing : (!reader.files.contains path) = true
  · rw [if_pos missing]
    exact macrosKept_of_same rfl rfl
  · rw [if_neg missing]
    exact stable_macrosKept.related_read reader (.makefile path) workspace

private theorem macrosKept_givenPath_bind {line : CommandLine} {option : PathOption}
    {next : Option Path → Setup Unit} {workspace : Workspace}
    (kept : ∀ given?, MacrosKept workspace.database ((next given?).run workspace).2.database) :
    MacrosKept workspace.database
      (((do next (← givenPath line option)) : Setup Unit).run workspace).2.database := by
  rw [run_givenPath_bind]
  cases givenPath line option with
  | error fault => exact macrosKept_of_same rfl rfl
  | ok given? => exact kept given?

private theorem macrosKept_readRules (line : CommandLine) (settings : Environment) (reader : Reader)
    (workspace : Workspace) :
    MacrosKept workspace.database ((readRules line settings reader).run workspace).2.database := by
  unfold readRules
  split
  · exact macrosKept_of_same rfl rfl
  · exact macrosKept_givenPath_bind fun _ => macrosKept_readStart reader .rules _ workspace

private theorem macrosKept_readGiven (line : CommandLine) (reader : Reader)
    (workspace : Workspace) :
    MacrosKept workspace.database ((readGiven line reader).run workspace).2.database :=
  macrosKept_givenPath_bind fun _ => macrosKept_readStart reader .makefile _ workspace

/-- A setup that succeeds gives the program its macro, reads the rules, imports the environment and
reads the makefile. -/
theorem of_prepare {line : CommandLine} {settings : Environment} {surroundings : Surroundings}
    {wins : Bool} {workspace : Workspace}
    (prepared : (prepare line settings surroundings).run (.empty wins) = (.ok (), workspace)) :
    ∃ ruled : Database,
      MacrosKept
        { Database.empty wins with
          macros := MacroTable.importVariable .empty programMacro surroundings.program } ruled ∧
      MacrosKept
        { ruled with macros := surroundings.environment.importedInto ruled.macros }
        workspace.database := by
  rw [prepare, run_givenPath_bind] at prepared
  cases directory : givenPath line .directory with
  | error fault =>
      rw [directory] at prepared
      cases prepared
  | ok base? =>
      rw [directory] at prepared
      let reader : Reader := ⟨surroundings.files, base?⟩
      let seeded : Workspace :=
        ⟨{ Database.empty wins with
            macros := MacroTable.importVariable .empty programMacro surroundings.program }, #[]⟩
      have afterSeed : ((readRules line settings reader) >>= fun _ => do
          Update.note (.environmentImported (← surroundings.environment.importAll))
          readGiven line reader).run seeded = (.ok (), workspace) := prepared
      have rules := macrosKept_readRules line settings reader seeded
      rw [run_bind] at afterSeed
      cases ended : (readRules line settings reader).run seeded with
      | mk result ruled =>
          rw [ended] at afterSeed rules
          cases result with
          | error fault => cases afterSeed
          | ok value =>
              let imports := surroundings.environment.importAll.run ruled
              let between : Workspace :=
                ⟨imports.2.database, imports.2.log.push (.environmentImported imports.1)⟩
              have afterImport : (readGiven line reader).run between = (.ok (), workspace) :=
                afterSeed
              have makefileRead := macrosKept_readGiven line reader between
              rw [afterImport, Environment.database_importAll] at makefileRead
              exact ⟨ruled.database, rules, makefileRead⟩

private theorem environmentWins_eq_true {line : CommandLine} {settings : Environment} {wins : Bool}
    (accepted : environmentWins line settings = .ok wins)
    (on : settings.value? Environment.flagsVariable = some "e" ∨
      line.environmentOverrides = true) : wins = true := by
  unfold environmentWins at accepted
  cases inherited : settings.inheritedOverride with
  | error failure =>
      rw [inherited] at accepted
      cases accepted
  | ok flag =>
      rw [inherited] at accepted
      dsimp only at accepted
      split at accepted
      · cases accepted
      · cases accepted
        rcases on with flagged | asked
        · simp only [Environment.inheritedOverride, flagged, Option.getD_some] at inherited
          cases inherited
          rfl
        · rw [asked, Bool.or_true]

end Run

/-- Makefiles cannot override an environment that wins. Over any sequence of readings, whatever they
read and whether they fail, its macros keep their values; and whether it wins or not, no macro
changes its origin and every new one comes from a file. So when a run is set up whose flags let the
environment win, each variable that is not ignored has given its macro the last value that it has,
and the program has its own macro unless a variable is called so. -/
theorem environment_withstands :
    (∀ (calls : List (Reader × Reader.Source)) (workspace : Workspace),
      let earlier := workspace.database
      let later := (readAll calls workspace).database
      (earlier.environmentWins = true → ∀ name known, earlier.macros.get? name = some known →
        known.origin = .environment → later.macros.get? name = some known) ∧
      (∀ name known, earlier.macros.get? name = some known →
        (later.macros.get? name).map Macro.origin = some known.origin) ∧
      (∀ name known, earlier.macros.get? name = none →
        later.macros.get? name = some known → known.origin = .file)) ∧
    (∀ (line : CommandLine) (settings : Environment) (surroundings : Surroundings)
      (workspace : Workspace),
      (settings.value? Environment.flagsVariable = some "e" ∨ line.environmentOverrides = true) →
      Run.Prepares line settings surroundings workspace →
      (∀ before name value after, surroundings.environment = before ++ (name, value) :: after →
        (∀ entry ∈ after, entry.1 ≠ name) → Environment.isIgnored name = false →
        workspace.database.macros.get? name = some ⟨value, .environment⟩) ∧
      ((∀ entry ∈ surroundings.environment, entry.1 ≠ Run.programMacro) →
        workspace.database.macros.get? Run.programMacro =
          some ⟨surroundings.program, .environment⟩)) := by
  constructor
  · intro calls workspace earlier later
    have kept := macrosKept_readAll calls workspace
    exact ⟨kept.guarded, kept.origin, kept.created⟩
  · rintro line settings surroundings workspace on ⟨wins, accepted, prepared⟩
    rw [Run.environmentWins_eq_true accepted on] at prepared
    obtain ⟨ruled, rules, makefileRead⟩ := Run.of_prepare prepared
    have stillWins : ruled.environmentWins = true := rules.sameRule
    constructor
    · intro before name value after split last kept
      have imported : (surroundings.environment.importedInto ruled.macros).get? name =
          some ⟨value, .environment⟩ := by
        rw [split]
        exact Environment.get?_importedInto_of_last last kept value ruled.macros
      exact makefileRead.guarded stillWins name _ imported rfl
    · intro absent
      have seeded := rules.guarded rfl Run.programMacro ⟨surroundings.program, .environment⟩
        (Table.get?_insert_self _ _ _) rfl
      have imported :
          (surroundings.environment.importedInto ruled.macros).get? Run.programMacro =
            some ⟨surroundings.program, .environment⟩ := by
        rw [Environment.get?_importedInto_of_absent absent, seeded]
      exact makefileRead.guarded stillWins Run.programMacro _ imported rfl

theorem environment_withstands_makefile :
    let files : FileSystem := .ofLookup fun path =>
      if path.text = "Makefile" then some (.text "N = CC\n$(N) += -g\nCC = cc\nMAKE += x\n")
      else none
    let line : CommandLine := { CommandLine.empty with noBuiltinRules := true }
    let surroundings : Surroundings :=
      ⟨[("CC", "gcc"), ("SHELL", "sh"), ("CC", "clang")], "nmake", files⟩
    ∃ workspace, Run.Prepares line [("MAKEFLAGS", "e")] surroundings workspace ∧
      workspace.database.macros.get? "CC" = some ⟨"clang", .environment⟩ ∧
      workspace.database.macros.get? "MAKE" = some ⟨"nmake", .environment⟩ := by
  intro files line surroundings
  have prepared : ((Run.prepare line [("MAKEFLAGS", "e")] surroundings).run (.empty true)).1 =
      .ok () := by
    subst surroundings line files
    cbv
  have prepares : Run.Prepares line [("MAKEFLAGS", "e")] surroundings _ :=
    ⟨true, rfl, Prod.ext prepared rfl⟩
  obtain ⟨values, program⟩ :=
    environment_withstands.2 line [("MAKEFLAGS", "e")] surroundings _ (Or.inl rfl) prepares
  exact ⟨_, prepares,
    values [("CC", "gcc"), ("SHELL", "sh")] "CC" "clang" [] rfl (by simp) (by decide),
    program (by decide)⟩

end DryMake
