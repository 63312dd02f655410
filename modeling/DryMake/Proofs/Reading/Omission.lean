import DryMake.Proofs.Reading.Grouping
import DryMake.Proofs.Reading.Settings

/-!
What a reading leaves of the macros and the conditional macros, name by name. No line sees the
values that hold for a target alone, so the lines that set them can be left out of all files, and
the rest ends as it did.
-/

namespace DryMake

def Line.isConditional : Line → Bool
  | .conditional .. => true
  | _ => false

def withoutConditionals (lines : List String) : List String :=
  LogicalLine.leaveOut (fun text => (Line.ofString text).isConditional) lines

inductive Contents.Omits : Contents → Contents → Prop where
  | directory : Omits .directory .directory
  | binary : Omits .binary .binary
  | text {long short : String}
      (lines : Text.lines short = withoutConditionals (Text.lines long)) :
      Omits (.text long) (.text short)

def FileSystem.Omits (files shorter : FileSystem) : Prop :=
  ∀ path, Option.Rel Contents.Omits (files.lookup path) (shorter.lookup path)

inductive Reader.Source.Omits : Source → Source → Prop where
  | makefile (path : Path) : Omits (.makefile path) (.makefile path)
  | text (name : Path) {long short : String}
      (lines : Text.lines short = withoutConditionals (Text.lines long)) :
      Omits (.text name long) (.text name short)
  | lines (name : Path) (lines : List String) :
      Omits (.lines name lines) (.lines name (withoutConditionals lines))

private theorem exists_text_withoutConditionals (long : String) :
    ∃ short, Text.lines short = withoutConditionals (Text.lines long) := by
  let kept := withoutConditionals (Text.lines long)
  have fromFile : kept ⊆ Text.lines long := (LogicalLine.leaveOut_subset _ _)
  let written := kept.map (· ++ "\r")
  have whole : ∀ line ∈ written, '\n' ∉ line.toList := by
    intro line member
    obtain ⟨part, isKept, rfl⟩ := List.mem_map.mp member
    rw [String.toList_append, List.mem_append, not_or]
    exact ⟨Text.newline_notMem_lines (fromFile isKept), by decide⟩
  refine ⟨String.join (written.map (· ++ "\n")), ?_⟩
  rw [Text.lines_join whole, List.map_map]
  refine (List.map_congr_left fun part _ => ?_).trans kept.map_id
  rw [Function.comp_apply, String.toList_append]
  exact (congrArg String.ofList (Text.dropFinalReturn_append_return part.toList)).trans
    String.ofList_toList

private theorem Contents.exists_omits (contents : Contents) :
    ∃ shorter, contents.Omits shorter := by
  cases contents with
  | directory => exact ⟨_, .directory⟩
  | binary => exact ⟨_, .binary⟩
  | text long =>
      obtain ⟨short, lines⟩ := exists_text_withoutConditionals long
      exact ⟨_, .text lines⟩

private theorem FileSystem.exists_omits (files : FileSystem) : ∃ shorter, files.Omits shorter := by
  choose omitted omits using Contents.exists_omits
  obtain ⟨known, complete⟩ := files.finite
  refine ⟨⟨fun path => (files.lookup path).map omitted, known, fun path named => ?_⟩,
    fun path => ?_⟩
  · rw [Option.isSome_map] at named
    exact complete path named
  · dsimp only
    cases files.lookup path with
    | none => exact .none
    | some contents => exact .some (omits contents)

private theorem Reader.Source.exists_omits (source : Source) : ∃ shorter, source.Omits shorter := by
  cases source with
  | makefile path => exact ⟨_, .makefile path⟩
  | text name long =>
      obtain ⟨short, lines⟩ := exists_text_withoutConditionals long
      exact ⟨_, .text name lines⟩
  | lines name lines => exact ⟨_, .lines name lines⟩

/-! ### Conditional macros are not seen -/

namespace Effect

variable {Value Result : Type}

/-- Where the effect succeeds, the shorter one does on any conditional macros, which it leaves as
they are. All else is the same. -/
def Spares (effect shorter : Effect Value) : Prop :=
  ∀ database value later, effect database = (.ok value, later) →
    ∀ conditionals : ConditionalTable,
      shorter { database with conditionals } = (.ok value, { later with conditionals })

private theorem spares_pure (value : Value) : Spares (pure value) (pure value) := by
  rintro database _ _ ⟨⟩ conditionals
  rfl

private theorem spares_fail (failure : ReadError) (shorter : Effect Value) :
    Spares (fail failure) shorter := by
  rintro database _ _ ⟨⟩

private theorem Spares.andThen {first firstShorter : Effect Value}
    {next nextShorter : Value → Effect Result} (before : Spares first firstShorter)
    (after : ∀ value, Spares (next value) (nextShorter value)) :
    Spares (first.andThen next) (firstShorter.andThen nextShorter) := by
  intro database value later succeeded conditionals
  obtain ⟨middle, between, here, further⟩ := andThen_eq_ok_iff.mp succeeded
  exact andThen_eq_ok_iff.mpr ⟨middle, { between with conditionals },
    before database middle between here conditionals,
    after middle between value later further conditionals⟩

private theorem spares_close (open? : Option Definition) : Spares (close open?) (close open?) := by
  rintro database _ _ ⟨⟩ conditionals
  rfl

variable {base? : Option Path} {included shorter : Location → Path → Effect Unit}

/-- A line that does not set conditional macros does the same on any of them, wherever it stands. -/
theorem spares_ofLine
    (spares : ∀ location other path, Spares (included location path) (shorter other path))
    (file : Path) (open? : Option Definition) {line other : LogicalLine}
    (sameText : other.text = line.text)
    (unconditional : (Line.ofString line.text).isConditional = false) :
    Spares (ofLine base? included file open? line) (ofLine base? shorter file open? other) := by
  intro database next later succeeded conditionals
  obtain ⟨action, move⟩ := exists_move base? file open? line database
  have alike := move.elsewhere file other sameText { database with conditionals } rfl
  rw [move.ofLine_eq] at succeeded
  rw [alike.ofLine_eq]
  cases move with
  | @inclusion _ expansion =>
      have inFile := spares ⟨file, line.number⟩ ⟨file, other.number⟩
        (Path.resolveIn base? ⟨Text.trimmed expansion⟩)
      exact ((spares_close open?).andThen fun _ => inFile.andThen fun _ => spares_pure none)
        database next later succeeded conditionals
  | conditional shape =>
      rw [shape] at unconditional
      cases unconditional
  | strayRule | malformed | unexpanded => cases succeeded
  | _ =>
      cases succeeded
      rfl

private theorem of_ofLine_of_isConditional {file : Path} {open? next : Option Definition}
    {line : LogicalLine} {database later : Database}
    (conditional : (Line.ofString line.text).isConditional = true)
    (succeeded : ofLine base? included file open? line database = (.ok next, later)) :
    next = open? ∧ ∃ conditionals, later = { database with conditionals } := by
  obtain ⟨action, move⟩ := exists_move base? file open? line database
  rw [move.ofLine_eq] at succeeded
  cases move with
  | idle | conditional =>
      cases succeeded
      exact ⟨rfl, _, rfl⟩
  | strayRule | malformed | unexpanded => cases succeeded
  | rule shape | inclusion shape | definition shape | append shape | assign shape
  | commentedOut shape =>
      rw [shape] at conditional
      cases conditional

private theorem spares_ofLines
    (spares : ∀ location other path, Spares (included location path) (shorter other path))
    (file : Path) (open? : Option Definition) {lines others : List LogicalLine}
    (kept : others.map LogicalLine.text =
      (lines.map LogicalLine.text).filter fun text => !(Line.ofString text).isConditional) :
    Spares (ofLines base? included file open? lines) (ofLines base? shorter file open? others) := by
  induction lines generalizing open? others with
  | nil =>
      rw [List.map_nil, List.filter_nil, List.map_eq_nil_iff] at kept
      rw [kept]
      exact spares_close open?
  | cons line rest inductionHypothesis =>
      rw [List.map_cons, List.filter_cons] at kept
      cases conditional : (Line.ofString line.text).isConditional with
      | true =>
          rw [conditional, Bool.not_true, if_neg Bool.false_ne_true] at kept
          intro database value later succeeded conditionals
          obtain ⟨next, between, here, further⟩ := andThen_eq_ok_iff.mp succeeded
          obtain ⟨rfl, _, rfl⟩ := of_ofLine_of_isConditional conditional here
          exact inductionHypothesis next kept _ _ _ further conditionals
      | false =>
          rw [conditional, Bool.not_false, if_pos rfl] at kept
          obtain ⟨other, further, rfl, sameText, onRest⟩ := List.map_eq_cons_iff.mp kept
          exact (spares_ofLine spares file open? sameText conditional).andThen fun next =>
            inductionHypothesis next onRest

private theorem spares_ofContents
    (spares : ∀ location other path, Spares (included location path) (shorter other path))
    (path : Path) {long short : Contents} (omits : long.Omits short) :
    Spares (ofContents base? included path long) (ofContents base? shorter path short) := by
  cases omits with
  | directory | binary => exact spares_fail _ _
  | text lines =>
      refine spares_ofLines spares path none ?_
      rw [lines]
      exact LogicalLine.texts_leaveOut _ _

end Effect

namespace Reader

variable {reader : Reader} {files : FileSystem}

private theorem spares_included (omits : reader.files.Omits files) (chain : List Path) :
    ∀ location other path, Effect.Spares (reader.included chain location path)
      ((Reader.mk files reader.base?).included chain other path) := by
  induction chain using chain_induction reader with
  | step chain longer =>
      intro location other path
      rcases reader.included_cases chain path with
        missing | cycle | ⟨contents, found, fresh, reads⟩
      · rw [missing]
        exact Effect.spares_fail _ _
      · rw [cycle]
        exact Effect.spares_fail _ _
      · have omitsPath := omits path
        rw [found] at omitsPath
        cases shorterFound : files.lookup path with
        | none =>
            rw [shorterFound] at omitsPath
            cases omitsPath
        | some short =>
            rw [shorterFound] at omitsPath
            cases omitsPath with
            | some omitsContents =>
                let shortened : Reader := ⟨files, reader.base?⟩
                have shortReads : shortened.included chain other path = _ :=
                  included_of_found shorterFound fresh other
                rw [reads, shortReads]
                exact Effect.spares_ofContents (longer path contents found fresh) path
                  omitsContents

private theorem spares_ofSource (omits : reader.files.Omits files) {source shorter : Source}
    (omitsSource : source.Omits shorter) :
    Effect.Spares (reader.ofSource source)
      ((Reader.mk files reader.base?).ofSource shorter) := by
  cases omitsSource with
  | makefile path =>
      have omitsPath := omits path
      unfold ofSource
      dsimp only
      generalize reader.files.lookup path = found at omitsPath
      generalize files.lookup path = shorterFound at omitsPath
      cases omitsPath with
      | none => exact Effect.spares_fail _ _
      | some omitsContents =>
          exact Effect.spares_ofContents (spares_included omits [path]) path omitsContents
  | text name lines =>
      refine Effect.spares_ofLines (spares_included omits []) name none ?_
      rw [lines]
      exact LogicalLine.texts_leaveOut _ _
  | lines name lines =>
      exact Effect.spares_ofLines (spares_included omits []) name none
        (LogicalLine.texts_leaveOut _ _)

/-- What the assignments of a reading that comes to its end leave. A macro that the environment
guards stays as it is. Any other has the value of its last plain assignment and of the additive ones
after it, or else its old value and those of its additive ones, joined by single spaces. A
conditional macro has the value that its target was given last. And without the lines that set
conditional macros the reading ends in the same way, but that the conditional macros are as they
were. -/
theorem settings_of_read {source : Source} {workspace later : Workspace}
    (finished : (reader.read source).run workspace = (.ok (), later)) :
    let settings := reader.settingsOf source workspace.database
    let before := workspace.database
    let after := later.database
    (∀ name, before.guards name = true → after.macros.get? name = before.macros.get? name) ∧
    (∀ name, before.guards name = false →
      let changes := settings.filterMap (Setting.changeFor name)
      (changes = [] → after.macros.get? name = before.macros.get? name) ∧
      (∀ values, values ≠ [] → changes = values.map .additive →
        after.macros.value? name =
          some (" ".intercalate ((before.macros.value? name).toList ++ values))) ∧
      (∀ earlier value values, changes = earlier ++ .plain value :: values.map .additive →
        after.macros.value? name = some (" ".intercalate (value :: values)))) ∧
    (∀ target name, after.conditionals.value? target name =
      (settings.filterMap (Setting.valueFor target name)).getLast?.or
        (before.conditionals.value? target name)) ∧
    (∃ files, reader.files.Omits files) ∧ (∃ shorter, source.Omits shorter) ∧
    ∀ files shorter, reader.files.Omits files → source.Omits shorter →
      let outcome := ((Reader.mk files reader.base?).read shorter).run workspace
      outcome.1 = .ok () ∧
        outcome.2.database = { after with conditionals := before.conditionals } := by
  intro settings before after
  have tables : after.tables = settings.foldl Database.set before.tables :=
    tables_of_finished finished
  have macros : after.macros = (settings.foldl Database.set before.tables).macros :=
    (congrArg Database.macros tables :)
  have conditionals : after.conditionals =
      (settings.foldl Database.set before.tables).conditionals :=
    (congrArg Database.conditionals tables :)
  refine ⟨fun name guarded => ?_, fun name unguarded => ?_, fun target name => ?_,
    reader.files.exists_omits, source.exists_omits, fun files shorter omits omitsSource => ?_⟩
  · unfold Database.guards MacroTable.isProtected at guarded
    rw [Bool.and_eq_true, Option.any_eq_true] at guarded
    obtain ⟨wins, known, found, imported⟩ := guarded
    have kept := stable_macrosKept.related_read reader source workspace
    rw [finished] at kept
    exact (kept.guarded wins name known found (eq_of_beq imported)).trans found.symm
  · intro changes
    have value : after.macros.value? name =
        changes.foldl ValueChange.apply (before.macros.value? name) := by
      have tablesUnguarded : before.tables.guards name = false := unguarded
      rw [macros]
      exact Database.value?_foldl_set tablesUnguarded settings
    refine ⟨fun unchanged => ?_, fun values nonempty additions => ?_,
      fun earlier first values lastPlain => ?_⟩
    · rw [macros]
      exact Database.get?_foldl_set_of_unchanged unchanged before.tables
    · rw [value, additions]
      exact ValueChange.foldl_apply_additive nonempty _
    · rw [value, lastPlain, List.foldl_append, List.foldl_cons]
      exact ValueChange.foldl_apply_additive_some first values
  · rw [conditionals]
    exact Database.conditionalValue?_foldl_set before.tables settings target name
  · intro outcome
    have ended := reader.does_read source workspace
    rw [finished] at ended
    have shorterEnded := (Reader.mk files reader.base?).does_read shorter workspace
    have spared := spares_ofSource omits omitsSource before () after ended.symm
      before.conditionals
    exact Prod.mk.inj (shorterEnded.trans spared)

/-- A computed name, an addition and a conditional macro in an included file, a conditional line
that goes on in the next one, and a variable that the environment guards. -/
theorem settings_of_read_nested :
    let files : FileSystem := .ofLookup fun path =>
      if path.text = "m" then some (.text "X += b\nall := K = w\nCC = cc\n")
      else none
    let reader : Reader := ⟨files, none⟩
    let source : Source := .lines ⟨"Makefile"⟩
      ["N = X", "all:", "$(N) = a", "all := K = u \\", " v", "\tx", "include m"]
    let macros := MacroTable.importVariable .empty "CC" "gcc"
    let conditionals := ConditionalTable.assign .empty "lib" "KIND" "static"
    let workspace : Workspace := ⟨⟨macros, conditionals, .empty, true⟩, #[]⟩
    let outcome := (reader.read source).run workspace
    outcome.1 = .ok () ∧
      outcome.2.database.macros.get? "CC" = some ⟨"gcc", .environment⟩ ∧
      outcome.2.database.macros.value? "X" = some "a b" ∧
      outcome.2.database.conditionals.value? "all" "K" = some "w" ∧
      outcome.2.database.conditionals.value? "lib" "KIND" = some "static" ∧
      ∃ shortFiles short, files.Omits shortFiles ∧ source.Omits short ∧
        let shortOutcome := ((Reader.mk shortFiles none).read short).run workspace
        shortOutcome.1 = .ok () ∧ shortOutcome.2.database.plan = outcome.2.database.plan := by
  intro files reader source macros conditionals workspace outcome
  have succeeded : outcome.1 = .ok () := by
    subst outcome workspace conditionals macros source reader files
    cbv
  have finished : (reader.read source).run workspace = (.ok (), outcome.2) :=
    Prod.ext succeeded rfl
  have settings : reader.settingsOf source workspace.database =
      [.assign "N" "X", .assign "X" "a", .conditional ["all"] "K" "u v", .append "X" "b",
        .conditional ["all"] "K" "w", .assign "CC" "cc"] := by
    subst workspace conditionals macros source reader files
    cbv
  obtain ⟨guarded, changed, conditional, ⟨shortFiles, omits⟩, ⟨short, omitsSource⟩, spared⟩ :=
    settings_of_read finished
  rw [settings] at changed conditional
  obtain ⟨ended, database⟩ := spared shortFiles short omits omitsSource
  exact ⟨succeeded, guarded "CC" rfl,
    (changed "X" rfl).2.2 [] "a" ["b"] rfl, conditional "all" "K", conditional "lib" "KIND",
    shortFiles, short, omits, omitsSource, ended, (congrArg Database.plan database :)⟩

end Reader

end DryMake
