import DryMake.Reading

/-!
What readings do to a database, without the log. A reading notes what it does, but nothing that it
does depends on the log; so it has an effect, a function of the database alone, and the effect of
reading lines is composed of the effects of the lines.
-/

namespace DryMake

def Database.closed (database : Database) (open? : Option Definition) : Database :=
  { database with plan := open?.elim database.plan database.plan.commit }

/-- A change of a database that may fail; what it did before the failure stays done. -/
abbrev Effect (Value : Type) := Database → Except ReadError Value × Database

namespace Effect

variable {Value Result : Type}

def pure (value : Value) : Effect Value := fun database => (.ok value, database)

def fail (failure : ReadError) : Effect Value := fun database => (.error failure, database)

def change (update : Database → Database) : Effect Unit := fun database => (.ok (), update database)

def andThen (first : Effect Value) (next : Value → Effect Result) : Effect Result :=
  fun database =>
    match first database with
    | (.ok value, later) => next value later
    | (.error failure, later) => (.error failure, later)

def expand (location : Location) (line part : String) : Effect String := fun database =>
  (match database.global.expand part with
    | .ok expansion => pure expansion
    | .error cause => fail (.expansion location line cause)) database

def close (open? : Option Definition) : Effect Unit :=
  change fun database => database.closed open?

def reviseMacros (revise : MacroTable → Bool → MacroTable) : Effect Unit :=
  change fun database =>
    { database with macros := revise database.macros database.environmentWins }

def assignConditionals (name value : String) (targets : List String) : Effect Unit :=
  change fun database =>
    { database with
      conditionals := targets.foldl (fun conditionals target =>
        conditionals.assign target name value) database.conditionals }

theorem close_andThen (open? : Option Definition) (next : Unit → Effect Result)
    (database : Database) : (close open?).andThen next database = next () (database.closed open?) :=
  rfl

theorem expand_andThen (location : Location) (line part : String) (next : String → Effect Result)
    (database : Database) :
    (expand location line part).andThen next database =
      match database.global.expand part with
      | .ok expansion => next expansion database
      | .error cause => (.error (.expansion location line cause), database) := by
  unfold andThen expand
  cases database.global.expand part with
  | ok expansion => rfl
  | error cause => rfl

theorem andThen_eq_ok_iff {first : Effect Value} {next : Value → Effect Result} {value : Result}
    {database later : Database} :
    first.andThen next database = (.ok value, later) ↔
      ∃ middle between, first database = (.ok middle, between) ∧
        next middle between = (.ok value, later) := by
  unfold andThen
  cases first database with
  | mk result between =>
      cases result with
      | error failure => simp
      | ok middle =>
          constructor
          · intro further
            exact ⟨middle, between, rfl, further⟩
          · rintro ⟨other, same, sameFirst, further⟩
            cases sameFirst
            exact further

theorem andThen_eq_error_iff {first : Effect Value} {next : Value → Effect Result}
    {failure : ReadError} {database later : Database} :
    first.andThen next database = (.error failure, later) ↔
      first database = (.error failure, later) ∨
        ∃ middle between, first database = (.ok middle, between) ∧
          next middle between = (.error failure, later) := by
  unfold andThen
  cases first database with
  | mk result between =>
      cases result with
      | error failure => simp
      | ok middle =>
          constructor
          · intro further
            exact Or.inr ⟨middle, between, rfl, further⟩
          · rintro (impossible | ⟨other, same, sameFirst, further⟩)
            · cases impossible
            · cases sameFirst
              exact further

/-- The effect of a line, where `included` is the effect of a file that the line names. -/
def ofLine (base? : Option Path) (included : Location → Path → Effect Unit) (file : Path)
    (open? : Option Definition) (line : LogicalLine) : Effect (Option Definition) :=
  let location : Location := ⟨file, line.number⟩
  let expand := expand location line.text
  match Line.ofString line.text with
  | .blank => pure open?
  | .comment => pure open?
  | .unknown => pure open?
  | .rule command =>
      match open? with
      | some definition => pure (some (definition.addRule command))
      | none => fail (.ruleOutsideTarget location command)
  | .inclusion operand =>
      (close open?).andThen fun _ =>
        (expand operand).andThen fun operand =>
          (included location (Path.resolveIn base? ⟨Text.trimmed operand⟩)).andThen fun _ =>
            pure none
  | .definition targets deps =>
      (close open?).andThen fun _ =>
        (expand targets).andThen fun names =>
          (expand deps).andThen fun deps =>
            pure (some (.start (Text.words names) (Text.words deps)))
  | .conditional targets assignment =>
      match Reader.splitAssignment assignment with
      | none => fail (.malformedConditional location line.text)
      | some (name, value) =>
          (expand targets).andThen fun targets =>
            (assignConditionals name value (Text.words targets)).andThen fun _ => pure open?
  | .append name value =>
      (expand name).andThen fun name =>
        (reviseMacros fun macros environmentWins =>
          macros.append environmentWins (Text.trimmed name) value).andThen fun _ => pure open?
  | .assign name value =>
      (expand name).andThen fun name =>
        if (Text.trimmed name).toList.head? = some '#' then pure open?
        else
          (reviseMacros fun macros environmentWins =>
            macros.assign environmentWins (Text.trimmed name) value).andThen fun _ => pure open?

def ofLines (base? : Option Path) (included : Location → Path → Effect Unit) (file : Path) :
    Option Definition → List LogicalLine → Effect Unit
  | open?, [] => close open?
  | open?, line :: rest =>
      (ofLine base? included file open? line).andThen fun next =>
        ofLines base? included file next rest

def ofContents (base? : Option Path) (included : Location → Path → Effect Unit) (path : Path) :
    Contents → Effect Unit
  | .directory => fail (.unreadable path .isDirectory)
  | .binary => fail (.unreadable path .notText)
  | .text text => ofLines base? included path none (LogicalLine.ofPhysical (Text.lines text))

end Effect

theorem run_bind {Failure State Value Result : Type} (first : ExceptT Failure (StateM State) Value)
    (next : Value → ExceptT Failure (StateM State) Result) (state : State) :
    (first >>= next).run state =
      match first.run state with
      | (.ok value, later) => (next value).run later
      | (.error failure, later) => (.error failure, later) := by
  rw [ExceptT.run_bind]
  show StateT.bind _ _ _ = _
  unfold StateT.bind
  cases first.run state with
  | mk result later => cases result <;> rfl

namespace Reader

/-! ### Readings and their effects -/

/-- The reading has the effect, whatever the log is. -/
def Does {Value : Type} (reading : Reading Value) (effect : Effect Value) : Prop :=
  ∀ workspace : Workspace,
    ((reading.run workspace).1, (reading.run workspace).2.database) = effect workspace.database

section

variable {Value Result : Type}

private theorem Does.bind {first : Reading Value} {next : Value → Reading Result}
    {effect : Effect Value} {nextEffect : Value → Effect Result} (firstDoes : Does first effect)
    (nextDoes : ∀ value, Does (next value) (nextEffect value)) :
    Does (first >>= next) (effect.andThen nextEffect) := by
  intro workspace
  have here := firstDoes workspace
  rw [run_bind, Effect.andThen, ← here]
  cases first.run workspace with
  | mk result later =>
      cases result with
      | error failure => rfl
      | ok value => exact nextDoes value later

theorem Does.after {first : Reading Unit} {next : Unit → Reading Result} {effect : Effect Result}
    (firstDoes : Does first (.pure ())) (nextDoes : Does (next ()) effect) :
    Does (first >>= next) effect :=
  firstDoes.bind fun _ => nextDoes

theorem does_pure (value : Value) : Does (pure value) (.pure value) := by
  intro workspace
  rfl

theorem does_throw (failure : ReadError) : Does (throw failure : Reading Value) (.fail failure) := by
  intro workspace
  rfl

private theorem does_note (event : Event) : Does (Update.note event : Reading Unit) (.pure ()) := by
  intro workspace
  rfl

end

private theorem does_expansion (location : Location) (line part : String)
    (result : Except ExpansionError String) :
    Does (match result with
      | .ok expansion => do
          Update.note (.expanded part expansion)
          return expansion
      | .error cause => throw (.expansion location line cause))
      (match result with
      | .ok expansion => Effect.pure expansion
      | .error cause => Effect.fail (.expansion location line cause)) := by
  cases result with
  | ok expansion => exact (does_note _).after (does_pure expansion)
  | error cause => exact does_throw _

private theorem does_expand (location : Location) (line part : String) :
    Does (expand location line part) (.expand location line part) := by
  intro workspace
  exact does_expansion location line part (workspace.database.global.expand part) workspace

private theorem database_noteAll (events : String → Event) (names : List String)
    (workspace : Workspace) :
    ((names.forM fun name => Update.note (events name)).run workspace).2.database =
      workspace.database := by
  induction names generalizing workspace with
  | nil => rfl
  | cons name rest inductionHypothesis => exact inductionHypothesis _

theorem does_close (open? : Option Definition) : Does (close open?) (.close open?) := by
  cases open? with
  | none => exact does_pure ()
  | some definition =>
      intro workspace
      have noted := database_noteAll .targetCommitted definition.names workspace
      exact congrArg (fun database : Database =>
        (Except.ok (), { database with plan := database.plan.commit definition })) noted

private theorem does_assignConditionals (name value : String) (targets : List String) :
    Does (targets.forM fun target => Update.assignConditional target name value : Reading Unit)
      (.assignConditionals name value targets) := by
  induction targets with
  | nil => exact does_pure ()
  | cons target rest inductionHypothesis =>
      have first : Does (Update.assignConditional target name value : Reading Unit)
          (.assignConditionals name value [target]) := by
        intro workspace
        rfl
      exact first.bind fun _ => inductionHypothesis

private theorem does_append {Result : Type} {next : Reading Result} {effect : Effect Result}
    (name value : String) (nextDoes : Does next effect) :
    Does (do
        discard <| Update.append (← get).database.environmentWins name value
        next : Reading Result)
      ((Effect.reviseMacros fun macros environmentWins =>
        macros.append environmentWins name value).andThen fun _ => effect) := by
  intro workspace
  exact nextDoes _

private theorem does_assign {Result : Type} {next : Reading Result} {effect : Effect Result}
    (name value : String) (nextDoes : Does next effect) :
    Does (do
        discard <| Update.assign (← get).database.environmentWins name value
        next : Reading Result)
      ((Effect.reviseMacros fun macros environmentWins =>
        macros.assign environmentWins name value).andThen fun _ => effect) := by
  intro workspace
  exact nextDoes _

/-! ### Lines -/

section

variable {reader : Reader} {readIncluded : Location → Path → Reading Unit}
  {included : Location → Path → Effect Unit}

theorem does_apply
    (does : ∀ location path, Does (readIncluded location path) (included location path))
    (file : Path) (open? : Option Definition) (line : LogicalLine) :
    Does (reader.apply readIncluded file open? line)
      (.ofLine reader.base? included file open? line) := by
  unfold apply Effect.ofLine
  cases Line.ofString line.text with
  | blank => exact does_pure open?
  | comment => exact does_pure open?
  | unknown => exact (does_note _).after (does_pure open?)
  | rule command =>
      cases open? with
      | none => exact does_throw _
      | some definition => exact does_pure _
  | inclusion operand =>
      exact (does_close open?).bind fun _ => (does_expand _ _ _).bind fun _ =>
        (does_note _).after ((does _ _).bind fun _ => does_pure none)
  | definition targets deps =>
      exact (does_close open?).bind fun _ => (does_expand _ _ _).bind fun _ =>
        (does_expand _ _ _).bind fun _ => (does_note _).after (does_pure _)
  | conditional targets assignment =>
      dsimp only
      cases splitAssignment assignment with
      | none => exact does_throw _
      | some sides =>
          exact (does_expand _ _ _).bind fun _ =>
            (does_assignConditionals _ _ _).bind fun _ => does_pure open?
  | append name value =>
      exact (does_expand _ _ _).bind fun _ => does_append _ _ (does_pure open?)
  | assign name value =>
      refine (does_expand _ _ _).bind fun name => ?_
      dsimp only
      split
      · exact (does_note _).after (does_pure open?)
      · exact does_assign _ _ (does_pure open?)

private theorem does_foldlM_apply
    (does : ∀ location path, Does (readIncluded location path) (included location path))
    (file : Path) (open? : Option Definition) (lines : List LogicalLine) :
    Does (do close (← lines.foldlM (reader.apply readIncluded file) open?))
      (.ofLines reader.base? included file open? lines) := by
  induction lines generalizing open? with
  | nil =>
      rw [List.foldlM_nil, pure_bind]
      exact does_close open?
  | cons line rest inductionHypothesis =>
      rw [List.foldlM_cons, bind_assoc]
      exact (does_apply does file open? line).bind fun next => inductionHypothesis next

theorem does_readLogicalLines
    (does : ∀ location path, Does (readIncluded location path) (included location path))
    (file : Path) (lines : List LogicalLine) :
    Does (reader.readLogicalLines readIncluded file lines)
      (.ofLines reader.base? included file none lines) :=
  does_foldlM_apply does file none lines

theorem does_readContents
    (does : ∀ location path, Does (readIncluded location path) (included location path))
    (path : Path) (contents : Contents) :
    Does (reader.readContents readIncluded path contents)
      (.ofContents reader.base? included path contents) := by
  cases contents with
  | directory => exact does_throw _
  | binary => exact does_throw _
  | text text => exact (does_note _).after (does_readLogicalLines does path _)

end

variable {reader : Reader}

theorem readIncluded_of_missing {path : Path} (missing : reader.files.lookup path = none)
    (chain : List Path) (location : Location) :
    reader.readIncluded chain location path = throw (.missingFile path (some location)) := by
  rw [Reader.readIncluded]
  split
  · rfl
  · rename_i contents found
    rw [missing] at found
    cases found

theorem readIncluded_of_isReading {chain : List Path} {path : Path} {contents : Contents}
    (found : reader.files.lookup path = some contents) (reading : isReading chain path = true)
    (location : Location) :
    reader.readIncluded chain location path = throw (.inclusionCycle path location) := by
  rw [Reader.readIncluded]
  split
  · rename_i missing
    rw [missing] at found
    cases found
  · rw [dif_pos reading]

theorem readIncluded_of_found {chain : List Path} {path : Path} {contents : Contents}
    (found : reader.files.lookup path = some contents) (fresh : ¬ isReading chain path = true)
    (location : Location) :
    reader.readIncluded chain location path =
      reader.readContents (reader.readIncluded (path :: chain)) path contents := by
  rw [Reader.readIncluded]
  split
  · rename_i missing
    rw [missing] at found
    cases found
  · rename_i other same
    rw [found] at same
    cases same
    rw [dif_neg fresh]

/-- Induction on the chain of files being read: a property may be assumed of each longer chain. -/
theorem chain_induction (reader : Reader) {motive : List Path → Prop}
    (step : ∀ chain, (∀ path contents, reader.files.lookup path = some contents →
      ¬ isReading chain path = true → motive (path :: chain)) → motive chain)
    (chain : List Path) : motive chain :=
  step chain fun path _ _found _fresh => chain_induction reader step (path :: chain)
termination_by reader.remaining chain
decreasing_by exact remaining_cons_lt _found _fresh

def effectOf {Value : Type} (reading : Reading Value) : Effect Value := fun database =>
  ((reading.run ⟨database, #[]⟩).1, (reading.run ⟨database, #[]⟩).2.database)

theorem Does.effectOf_eq {Value : Type} {reading : Reading Value} {effect : Effect Value}
    (does : Does reading effect) : effectOf reading = effect :=
  funext fun database => does ⟨database, #[]⟩

def included (reader : Reader) (chain : List Path) (location : Location) (path : Path) :
    Effect Unit :=
  effectOf (reader.readIncluded chain location path)

theorem does_readIncluded (reader : Reader) (chain : List Path) :
    ∀ location path,
      Does (reader.readIncluded chain location path) (reader.included chain location path) := by
  unfold included
  induction chain using chain_induction reader with
  | step chain longer =>
      intro location path
      cases found : reader.files.lookup path with
      | none =>
          rw [readIncluded_of_missing found]
          exact does_throw _
      | some contents =>
          by_cases reading : isReading chain path = true
          · rw [readIncluded_of_isReading found reading]
            exact does_throw _
          · rw [readIncluded_of_found found reading]
            have does : Does (reader.readContents _ path contents) _ :=
              does_readContents (longer path contents found reading) path contents
            rw [does.effectOf_eq]
            exact does

theorem included_of_found {chain : List Path} {path : Path} {contents : Contents}
    (found : reader.files.lookup path = some contents) (fresh : ¬ isReading chain path = true)
    (location : Location) :
    reader.included chain location path =
      .ofContents reader.base? (reader.included (path :: chain)) path contents := by
  have does : Does (reader.readContents _ path contents) _ :=
    does_readContents (reader.does_readIncluded (path :: chain)) path contents
  unfold included
  rw [readIncluded_of_found found fresh, does.effectOf_eq]
  rfl

/-- What including a file can do: the file is missing, or is being read, or its contents are read. -/
theorem included_cases (reader : Reader) (chain : List Path) (path : Path) :
    (∀ location, reader.included chain location path = .fail (.missingFile path (some location))) ∨
    (∀ location, reader.included chain location path = .fail (.inclusionCycle path location)) ∨
    ∃ contents, reader.files.lookup path = some contents ∧ ¬ isReading chain path = true ∧
      ∀ location, reader.included chain location path =
        .ofContents reader.base? (reader.included (path :: chain)) path contents := by
  cases found : reader.files.lookup path with
  | none =>
      refine Or.inl fun location => ?_
      rw [included, readIncluded_of_missing found]
      rfl
  | some contents =>
      by_cases reading : isReading chain path = true
      · refine Or.inr (Or.inl fun location => ?_)
        rw [included, readIncluded_of_isReading found reading]
        rfl
      · exact Or.inr (Or.inr ⟨contents, rfl, reading, included_of_found found reading⟩)

theorem effectOf_apply (reader : Reader) (chain : List Path) (file : Path)
    (open? : Option Definition) (line : LogicalLine) :
    effectOf (reader.apply (reader.readIncluded chain) file open? line) =
      .ofLine reader.base? (reader.included chain) file open? line :=
  (does_apply (reader.does_readIncluded chain) file open? line).effectOf_eq

theorem does_readPhysicalLines (reader : Reader) (chain : List Path) (file : Path)
    (lines : List String) :
    Does (reader.readPhysicalLines (reader.readIncluded chain) file lines)
      (.ofLines reader.base? (reader.included chain) file none (LogicalLine.ofPhysical lines)) :=
  does_readLogicalLines (reader.does_readIncluded chain) file _

end Reader

end DryMake
