import DryMake.Proofs.Reading.Protection

/-!
The macros and conditional macros as the assignment lines say. Which macro a line assigns hangs on
the macros as they are when the line is read, so the lines of a reading are listed in the order in
which they are read, included files in their places, each with the database that it meets. The
assignments among them, applied in this order, leave the tables that the reading leaves.
-/

namespace DryMake

structure LineRead where
  line : Line
  database : Database

namespace Reader

/-- The lines that are read from here on in a file, in order, where `within` gives those of a file
that a line names. -/
def linesFrom (reader : Reader) (chain : List Path) (within : Path → Database → List LineRead)
    (file : Path) : Option Definition → List LogicalLine → Database → List LineRead
  | _, [], _ => []
  | open?, line :: rest, database =>
      ⟨Line.ofString line.text, database⟩ ::
        (match Line.ofString line.text with
          | .inclusion operand =>
              match database.global.expand operand with
              | .ok expansion =>
                  within (Path.resolveIn reader.base? ⟨Text.trimmed expansion⟩)
                    (database.closed open?)
              | .error _ => []
          | _ => []) ++
        match effectOf (reader.apply (reader.readIncluded chain) file open? line) database with
        | (.ok next, later) => reader.linesFrom chain within file next rest later
        | (.error _, _) => []

def linesOfContents (reader : Reader) (chain : List Path) (within : Path → Database → List LineRead)
    (path : Path) (contents : Contents) (database : Database) : List LineRead :=
  match contents with
  | .directory => []
  | .binary => []
  | .text text =>
      reader.linesFrom chain within path none (LogicalLine.ofPhysical (Text.lines text)) database

def includedLines (reader : Reader) (chain : List Path) (path : Path) (database : Database) :
    List LineRead :=
  match _found : reader.files.lookup path with
  | none => []
  | some contents =>
      if _reading : isReading chain path then []
      else
        reader.linesOfContents (path :: chain)
          (fun next between => reader.includedLines (path :: chain) next between) path contents
          database
termination_by reader.remaining chain
decreasing_by exact remaining_cons_lt _found _reading

/-- The lines that the reading of a source reads, in order, included files in their places. -/
def linesOf (reader : Reader) : Source → Database → List LineRead
  | .makefile path =>
      match reader.files.lookup path with
      | none => fun _ => []
      | some contents => reader.linesOfContents [path] (reader.includedLines [path]) path contents
  | .text name text =>
      reader.linesFrom [] (reader.includedLines []) name none
        (LogicalLine.ofPhysical (Text.lines text))
  | .lines name lines =>
      reader.linesFrom [] (reader.includedLines []) name none (LogicalLine.ofPhysical lines)

end Reader

inductive Setting where
  | assign (name value : String)
  | append (name value : String)
  | conditional (targets : List String) (name value : String)
deriving DecidableEq, Repr

def Reader.nameIn (database : Database) (side : String) : String :=
  match database.global.expand side with
  | .ok expansion => Text.trimmed expansion
  | .error _ => ""

/-- What a line sets, if it is an assignment. A plain one to a name that begins like a comment sets
nothing. -/
def LineRead.setting? (read : LineRead) : Option Setting :=
  match read.line with
  | .assign name value =>
      let name := Reader.nameIn read.database name
      if name.toList.head? = some '#' then none else some (.assign name value)
  | .append name value => some (.append (Reader.nameIn read.database name) value)
  | .conditional targets assignment =>
      (Reader.splitAssignment assignment).map fun (name, value) =>
        .conditional (Reader.wordsIn read.database targets) name value
  | _ => none

def Reader.settingsOf (reader : Reader) (source : Source) (database : Database) : List Setting :=
  (reader.linesOf source database).filterMap LineRead.setting?

namespace Database

def set (database : Database) : Setting → Database
  | .assign name value =>
      { database with macros := database.macros.assign database.environmentWins name value }
  | .append name value =>
      { database with macros := database.macros.append database.environmentWins name value }
  | .conditional targets name value =>
      { database with
        conditionals := targets.foldl (fun conditionals target =>
          conditionals.assign target name value) database.conditionals }

def tables (database : Database) : Database :=
  { database with plan := .empty }

private theorem tables_closed (database : Database) (open? : Option Definition) :
    (database.closed open?).tables = database.tables :=
  rfl

end Database

/-! ### What readings set -/

/-- A line that succeeds and includes no file leaves the tables as it sets them. -/
theorem Effect.tables_of_ofLine {base? : Option Path} {included : Location → Path → Effect Unit}
    {file : Path} {open? next : Option Definition} {line : LogicalLine} {database later : Database}
    (succeeded : ofLine base? included file open? line database = (.ok next, later))
    (plain : ∀ operand, Line.ofString line.text ≠ .inclusion operand) :
    later.tables =
      (LineRead.mk (Line.ofString line.text) database).setting?.toList.foldl Database.set
        database.tables := by
  obtain ⟨action, move⟩ := exists_move base? file open? line database
  rw [move.ofLine_eq] at succeeded
  unfold LineRead.setting?
  cases move with
  | @idle kind shape idle =>
      cases succeeded
      rw [shape]
      cases kind with
      | blank | comment | unknown => rfl
      | _ => cases idle
  | rule shape | definition shape =>
      cases succeeded
      rw [shape]
      rfl
  | inclusion shape => exact absurd shape (plain _)
  | conditional shape sides expanded =>
      cases succeeded
      simp only [shape, sides, Option.map_some, Reader.wordsIn, expanded]
      rfl
  | append shape expanded =>
      cases succeeded
      simp only [shape, Reader.nameIn, expanded]
      rfl
  | assign shape expanded noComment =>
      cases succeeded
      simp only [shape, Reader.nameIn, expanded, if_neg noComment]
      rfl
  | commentedOut shape expanded comment =>
      cases succeeded
      simp only [shape, Reader.nameIn, expanded, if_pos comment]
      rfl
  | strayRule | malformed | unexpanded => cases succeeded

namespace Reader

/-- The lines whose assignments an effect applies to the tables whenever it comes to its end. -/
def Sets (effect : Effect Unit) (lines : Database → List LineRead) : Prop :=
  ∀ database later, effect database = (.ok (), later) →
    later.tables =
      ((lines database).filterMap LineRead.setting?).foldl Database.set database.tables

variable {reader : Reader} {chain : List Path} {within : Path → Database → List LineRead}

private theorem sets_ofLines
    (included : ∀ location path, Sets (reader.included chain location path) (within path))
    (file : Path) (open? : Option Definition) (lines : List LogicalLine) :
    Sets (.ofLines reader.base? (reader.included chain) file open? lines)
      (reader.linesFrom chain within file open? lines) := by
  intro database later succeeded
  induction lines generalizing open? database with
  | nil =>
      cases succeeded
      rfl
  | cons line rest inductionHypothesis =>
      obtain ⟨next, between, first, further⟩ := Effect.andThen_eq_ok_iff.mp succeeded
      have onRest := inductionHypothesis next between further
      rw [linesFrom, effectOf_apply, first]
      cases shape : Line.ofString line.text with
      | inclusion operand =>
          have step := Effect.plan_of_ofLine first
          rw [shape] at step
          obtain ⟨expansion, expanded, rfl, entered⟩ := step
          have inFile := included _ _ _ _ entered
          rw [Database.tables_closed] at inFile
          simp only [expanded, List.cons_append, List.filterMap_cons, List.filterMap_append,
            LineRead.setting?, List.foldl_append]
          rw [onRest, inFile]
      | _ =>
          have step := Effect.tables_of_ofLine first (by simp [shape])
          rw [shape] at step
          rw [onRest, step]
          simp only [List.cons_append, List.nil_append, List.filterMap_cons]
          cases (LineRead.mk _ database).setting? <;> rfl

private theorem sets_ofContents
    (included : ∀ location path, Sets (reader.included chain location path) (within path))
    (path : Path) (contents : Contents) :
    Sets (.ofContents reader.base? (reader.included chain) path contents)
      (reader.linesOfContents chain within path contents) := by
  cases contents with
  | directory | binary =>
      intro database later succeeded
      cases succeeded
  | text text => exact sets_ofLines included path none _

private theorem sets_included (reader : Reader) (chain : List Path) :
    ∀ location path,
      Sets (reader.included chain location path) (reader.includedLines chain path) := by
  induction chain using chain_induction reader with
  | step chain longer =>
      intro location path database later succeeded
      rw [includedLines]
      split
      · rename_i missing
        rw [included, readIncluded_of_missing missing] at succeeded
        cases succeeded
      · rename_i contents found
        split
        · rename_i reading
          rw [included, readIncluded_of_isReading found reading] at succeeded
          cases succeeded
        · rename_i fresh
          rw [included_of_found found fresh] at succeeded
          exact sets_ofContents (longer path contents found fresh) path contents database later
            succeeded

private theorem sets_ofSource (reader : Reader) (source : Source) :
    Sets (reader.ofSource source) (reader.linesOf source) := by
  cases source with
  | makefile path =>
      simp only [ofSource, linesOf]
      cases reader.files.lookup path with
      | none =>
          intro database later succeeded
          cases succeeded
      | some contents => exact sets_ofContents (reader.sets_included [path]) path contents
  | text name _ | lines name _ => exact sets_ofLines (reader.sets_included []) name none _

theorem tables_of_finished {source : Source} {workspace later : Workspace}
    (finished : (reader.read source).run workspace = (.ok (), later)) :
    later.database.tables =
      (reader.settingsOf source workspace.database).foldl Database.set
        workspace.database.tables := by
  have ended := reader.does_read source workspace
  rw [finished] at ended
  exact reader.sets_ofSource source workspace.database later.database ended.symm

end Reader

/-! ### Macros by name -/

namespace MacroTable

private theorem isProtected_revise (macros : MacroTable) (environmentWins : Bool)
    (name other : String) (change : Option String → String) :
    (macros.revise environmentWins other change).isProtected environmentWins name =
      macros.isProtected environmentWins name := by
  cases found : macros.get? name with
  | some known =>
      have sameOrigin := origin_revise found environmentWins other change
      obtain ⟨revised, foundRevised, same⟩ := Option.map_eq_some_iff.mp sameOrigin
      rw [isProtected_of_found foundRevised, isProtected_of_found found, same]
  | none =>
      by_cases same : name = other
      · subst same
        rw [isProtected_of_found (get?_revise_of_absent found environmentWins change),
          isProtected, found]
        rfl
      · rw [isProtected, isProtected, get?_revise_of_ne macros environmentWins same]

private theorem value?_revise {macros : MacroTable} {environmentWins : Bool} {name : String}
    (unguarded : macros.isProtected environmentWins name = false)
    (change : Option String → String) :
    (macros.revise environmentWins name change).value? name =
      some (change (macros.value? name)) := by
  unfold value?
  rw [revise, unguarded, if_neg Bool.false_ne_true, Table.get?_upsert_self]
  rfl

end MacroTable

inductive ValueChange where
  | plain (value : String)
  | additive (value : String)
deriving DecidableEq, Repr

def ValueChange.apply (known? : Option String) : ValueChange → Option String
  | plain value => some value
  | additive value => some (MacroTable.extended value known?)

def Setting.changeFor (name : String) : Setting → Option ValueChange
  | assign other value => if other = name then some (.plain value) else none
  | append other value => if other = name then some (.additive value) else none
  | conditional .. => none

theorem ValueChange.foldl_apply_additive_some (value : String) (further : List String) :
    (further.map additive).foldl apply (some value) =
      some (" ".intercalate (value :: further)) := by
  induction further generalizing value with
  | nil => rfl
  | cons next rest inductionHypothesis => exact inductionHypothesis (value ++ " " ++ next)

theorem ValueChange.foldl_apply_additive {values : List String} (nonempty : values ≠ [])
    (known? : Option String) :
    (values.map additive).foldl apply known? =
      some (" ".intercalate (known?.toList ++ values)) := by
  cases known? with
  | some value => exact foldl_apply_additive_some value values
  | none =>
      cases values with
      | nil => exact absurd rfl nonempty
      | cons value rest => exact foldl_apply_additive_some value rest

namespace Database

def guards (database : Database) (name : String) : Bool :=
  database.macros.isProtected database.environmentWins name

private theorem guards_set (database : Database) (name : String) (setting : Setting) :
    (database.set setting).guards name = database.guards name := by
  cases setting with
  | assign other value => exact database.macros.isProtected_revise _ name other _
  | append other value => exact database.macros.isProtected_revise _ name other _
  | conditional targets other value => rfl

private theorem get?_set_of_unchanged {setting : Setting} {name : String}
    (unchanged : setting.changeFor name = none) (database : Database) :
    (database.set setting).macros.get? name = database.macros.get? name := by
  cases setting with
  | assign other value | append other value =>
      have different : name ≠ other := by
        rintro rfl
        simp [Setting.changeFor] at unchanged
      exact MacroTable.get?_revise_of_ne _ _ different _
  | conditional targets other value => rfl

private theorem value?_set {database : Database} {name : String}
    (unguarded : database.guards name = false) (setting : Setting) :
    (database.set setting).macros.value? name =
      (setting.changeFor name).toList.foldl ValueChange.apply (database.macros.value? name) := by
  cases change : setting.changeFor name with
  | none => exact congrArg _ (get?_set_of_unchanged change database)
  | some found =>
      cases setting with
      | assign other value | append other value =>
          simp only [Setting.changeFor] at change
          split at change
          · rename_i same
            subst same
            cases change
            exact MacroTable.value?_revise unguarded _
          · cases change
      | conditional targets other value => cases change

theorem get?_foldl_set_of_unchanged {settings : List Setting} {name : String}
    (unchanged : settings.filterMap (Setting.changeFor name) = []) (database : Database) :
    (settings.foldl set database).macros.get? name = database.macros.get? name := by
  induction settings generalizing database with
  | nil => rfl
  | cons setting rest inductionHypothesis =>
      rw [List.filterMap_cons] at unchanged
      split at unchanged
      · rename_i here
        rw [List.foldl_cons, inductionHypothesis unchanged, get?_set_of_unchanged here]
      · cases unchanged

/-- A macro that is not protected has the value that its assignments give it, one after the other.
-/
theorem value?_foldl_set {database : Database} {name : String}
    (unguarded : database.guards name = false) (settings : List Setting) :
    (settings.foldl set database).macros.value? name =
      (settings.filterMap (Setting.changeFor name)).foldl ValueChange.apply
        (database.macros.value? name) := by
  induction settings generalizing database with
  | nil => rfl
  | cons setting rest inductionHypothesis =>
      have stillUnguarded := (database.guards_set name setting).trans unguarded
      rw [List.foldl_cons, inductionHypothesis stillUnguarded, value?_set unguarded,
        List.filterMap_cons]
      cases setting.changeFor name <;> rfl

end Database

namespace ConditionalTable

private theorem value?_foldl_assign (conditionals : ConditionalTable) (targets : List String)
    (target name key value : String) :
    (targets.foldl (fun conditionals other => conditionals.assign other key value)
        conditionals).value? target name =
      if key = name ∧ target ∈ targets then some value else conditionals.value? target name := by
  induction targets generalizing conditionals with
  | nil => simp
  | cons other rest inductionHypothesis =>
      rw [List.foldl_cons, inductionHypothesis, value?_assign]
      by_cases sameName : key = name
      · by_cases inRest : target ∈ rest
        · simp [sameName, inRest]
        · simp [sameName, inRest]
      · simp [sameName]

end ConditionalTable

def Setting.valueFor (target name : String) : Setting → Option String
  | conditional targets other value =>
      if other = name ∧ target ∈ targets then some value else none
  | _ => none

theorem Database.conditionalValue?_foldl_set (database : Database) (settings : List Setting)
    (target name : String) :
    (settings.foldl set database).conditionals.value? target name =
      (settings.filterMap (Setting.valueFor target name)).getLast?.or
        (database.conditionals.value? target name) := by
  induction settings generalizing database with
  | nil => rfl
  | cons setting rest inductionHypothesis =>
      have here : (database.set setting).conditionals.value? target name =
          (setting.valueFor target name).or (database.conditionals.value? target name) := by
        cases setting with
        | assign other value | append other value => rfl
        | conditional targets other value =>
            simp only [set, ConditionalTable.value?_foldl_assign, Setting.valueFor]
            split <;> rfl
      rw [List.foldl_cons, inductionHypothesis, here, List.filterMap_cons]
      cases setting.valueFor target name with
      | none => rw [Option.none_or]
      | some value => simp only [List.getLast?_cons, Option.some_or, Option.or_some]

end DryMake
