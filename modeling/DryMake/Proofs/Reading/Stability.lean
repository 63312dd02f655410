import DryMake.Proofs.Reading.Merge

/-!
What holds of all readings because it holds of each change that a line makes. A line does not make
any change: the names that it gives are words or trimmed, its rules stand behind tabs, and the
definition that it leaves open is closed only later. So an invariant of databases goes with one of
open definitions, and changes need to keep it up only as lines make them. A relation between an
earlier and a later database that no change at all breaks is such an invariant of the later one.
-/

namespace DryMake

/-- What holds of databases and of open definitions is kept up by each change that a line makes. -/
structure Invariant (holds : Database → Prop) (sound : Definition → Prop) : Prop where
  start : ∀ names deps, sound (.start (Text.words names) (Text.words deps))
  addRule : ∀ {definition line command}, sound definition → Line.ofString line = .rule command →
    sound (definition.addRule command)
  close : ∀ {database definition}, holds database → sound definition →
    holds (database.closed (some definition))
  assignConditional : ∀ {database : Database} {targets target assignment name value},
    holds database → target ∈ Text.words targets →
    Reader.splitAssignment assignment = some (name, value) →
    holds { database with conditionals := database.conditionals.assign target name value }
  assign : ∀ {database : Database} name value, holds database →
    holds { database with
      macros := database.macros.assign database.environmentWins (Text.trimmed name) value }
  append : ∀ {database : Database} name value, holds database →
    holds { database with
      macros := database.macros.append database.environmentWins (Text.trimmed name) value }

namespace Effect

/-- From a database of which it holds, the effect leads to one of which it holds, whether it fails or
not, and to a sound value if it does not. -/
def Keeps {Value : Type} (holds : Database → Prop) (sound : Value → Prop) (effect : Effect Value) :
    Prop :=
  ∀ database, holds database →
    holds (effect database).2 ∧ ∀ value, (effect database).1 = .ok value → sound value

variable {Value Result : Type} {holds : Database → Prop}

private theorem keeps_pure {sound : Value → Prop} {value : Value} (isSound : sound value) :
    Keeps holds sound (pure value) := by
  intro database before
  refine ⟨before, ?_⟩
  rintro _ ⟨⟩
  exact isSound

private theorem keeps_fail (sound : Value → Prop) (failure : ReadError) :
    Keeps holds sound (fail failure) := by
  intro database before
  refine ⟨before, ?_⟩
  rintro _ ⟨⟩

private theorem keeps_change {update : Database → Database}
    (keeps : ∀ {database}, holds database → holds (update database)) :
    Keeps holds (fun _ => True) (change update) :=
  fun _ before => ⟨keeps before, fun _ _ => trivial⟩

private theorem Keeps.andThen {sound : Value → Prop} {soundNext : Result → Prop}
    {first : Effect Value} {next : Value → Effect Result} (before : Keeps holds sound first)
    (after : ∀ value, sound value → Keeps holds soundNext (next value)) :
    Keeps holds soundNext (first.andThen next) := by
  intro database here
  obtain ⟨between, isSound⟩ := before database here
  unfold Effect.andThen
  cases ended : first database with
  | mk result later =>
      rw [ended] at between isSound
      cases result with
      | error failure => exact keeps_fail soundNext failure later between
      | ok value => exact after value (isSound value rfl) later between

variable {sound : Definition → Prop}

def SoundOpen (sound : Definition → Prop) (open? : Option Definition) : Prop :=
  ∀ definition ∈ open?, sound definition

private theorem soundOpen_none : SoundOpen sound none := by
  rintro _ ⟨⟩

private theorem keeps_close (invariant : Invariant holds sound) {open? : Option Definition}
    (isSound : SoundOpen sound open?) : Keeps holds (fun _ => True) (close open?) := by
  cases open? with
  | none => exact keeps_change fun before => before
  | some definition =>
      exact keeps_change fun before => invariant.close before (isSound definition rfl)

private theorem keeps_assignConditionals (invariant : Invariant holds sound)
    {assignment name value : String}
    (sides : Reader.splitAssignment assignment = some (name, value)) (targets : String) :
    Keeps holds (fun _ => True) (assignConditionals name value (Text.words targets)) := by
  intro database before
  refine ⟨?_, fun _ _ => trivial⟩
  refine List.foldlRecOn (motive := fun conditionals => holds { database with conditionals })
    _ _ before ?_
  intro conditionals before target isTarget
  exact invariant.assignConditional before isTarget sides

variable {base? : Option Path} {included : Location → Path → Effect Unit}

private theorem keeps_ofLine (invariant : Invariant holds sound)
    (keeps : ∀ location path, Keeps holds (fun _ => True) (included location path)) (file : Path)
    {open? : Option Definition} (isSound : SoundOpen sound open?) (line : LogicalLine) :
    Keeps holds (SoundOpen sound) (ofLine base? included file open? line) := by
  have closes := keeps_close invariant isSound
  intro database before
  obtain ⟨action, move⟩ := exists_move base? file open? line database
  rw [move.ofLine_eq]
  cases move with
  | idle | commentedOut => exact keeps_pure isSound database before
  | rule shape isOpen =>
      refine keeps_pure ?_ database before
      rintro _ ⟨⟩
      exact invariant.addRule (isSound _ isOpen) shape
  | inclusion =>
      exact (closes.andThen fun _ _ => (keeps _ _).andThen fun _ _ => keeps_pure soundOpen_none)
        database before
  | definition =>
      refine (closes.andThen fun _ _ => keeps_pure ?_) database before
      rintro _ ⟨⟩
      exact invariant.start _ _
  | conditional shape sides =>
      exact ((keeps_assignConditionals invariant sides _).andThen fun _ _ => keeps_pure isSound)
        database before
  | append =>
      exact ((keeps_change (invariant.append _ _)).andThen fun _ _ => keeps_pure isSound)
        database before
  | assign =>
      exact ((keeps_change (invariant.assign _ _)).andThen fun _ _ => keeps_pure isSound)
        database before
  | strayRule | malformed => exact keeps_fail _ _ database before
  | @unexpanded _ closed =>
      cases closed with
      | true => exact (closes.andThen fun _ _ => keeps_fail _ _) database before
      | false => exact keeps_fail _ _ database before

private theorem keeps_ofLines (invariant : Invariant holds sound)
    (keeps : ∀ location path, Keeps holds (fun _ => True) (included location path)) (file : Path)
    {open? : Option Definition} (isSound : SoundOpen sound open?) (lines : List LogicalLine) :
    Keeps holds (fun _ => True) (ofLines base? included file open? lines) := by
  induction lines generalizing open? with
  | nil => exact keeps_close invariant isSound
  | cons line rest inductionHypothesis =>
      exact (keeps_ofLine invariant keeps file isSound line).andThen fun _ => inductionHypothesis

private theorem keeps_ofContents (invariant : Invariant holds sound)
    (keeps : ∀ location path, Keeps holds (fun _ => True) (included location path)) (path : Path)
    (contents : Contents) : Keeps holds (fun _ => True) (ofContents base? included path contents) := by
  cases contents with
  | directory | binary => exact keeps_fail _ _
  | text text => exact keeps_ofLines invariant keeps path soundOpen_none _

end Effect

namespace Reader

variable {holds : Database → Prop} {sound : Definition → Prop}

private theorem keeps_included (invariant : Invariant holds sound) (reader : Reader)
    (chain : List Path) :
    ∀ location path,
      Effect.Keeps holds (fun _ => True) (reader.included chain location path) := by
  induction chain using chain_induction reader with
  | step chain longer =>
      intro location path
      rcases reader.included_cases chain path with
        missing | cycle | ⟨contents, found, fresh, reads⟩
      · rw [missing]
        exact Effect.keeps_fail _ _
      · rw [cycle]
        exact Effect.keeps_fail _ _
      · rw [reads]
        exact Effect.keeps_ofContents invariant (longer path contents found fresh) path contents

private theorem keeps_ofSource (invariant : Invariant holds sound) (reader : Reader)
    (source : Source) :
    Effect.Keeps holds (fun _ => True) (reader.ofSource source) := by
  cases source with
  | makefile path =>
      simp only [ofSource]
      cases reader.files.lookup path with
      | none => exact Effect.keeps_fail _ _
      | some contents =>
          exact Effect.keeps_ofContents invariant (keeps_included invariant reader [path]) path
            contents
  | text name _ | lines name _ =>
      exact Effect.keeps_ofLines invariant (keeps_included invariant reader []) name
        Effect.soundOpen_none _

end Reader

/-- What each change made by a line keeps up holds after a reading of which it holds before, also if
the reading fails. -/
theorem Invariant.holds_read {holds : Database → Prop} {sound : Definition → Prop}
    (invariant : Invariant holds sound) (reader : Reader) (source : Reader.Source)
    {workspace : Workspace} (before : holds workspace.database) :
    holds ((reader.read source).run workspace).2.database := by
  have effect := reader.does_read source workspace
  have kept := (Reader.keeps_ofSource invariant reader source workspace.database before).1
  rw [← effect] at kept
  exact kept

/-- A relation between an earlier and a later database that no change made by a line breaks. -/
structure Stable (related : Database → Database → Prop) : Prop where
  refl : ∀ database, related database database
  trans : ∀ {first second third}, related first second → related second third →
    related first third
  close : ∀ database open?, related database (database.closed open?)
  assignConditional : ∀ (database : Database) target name value,
    related database
      { database with conditionals := database.conditionals.assign target name value }
  assign : ∀ (database : Database) name value,
    related database
      { database with macros := database.macros.assign database.environmentWins name value }
  append : ∀ (database : Database) name value,
    related database
      { database with macros := database.macros.append database.environmentWins name value }

theorem Stable.invariant {related : Database → Database → Prop} (stable : Stable related)
    (start : Database) : Invariant (related start) fun _ => True := by
  constructor
  · exact fun _ _ => trivial
  · exact fun _ _ => trivial
  · intro database definition before _
    exact stable.trans before (stable.close database (some definition))
  · intro database _ target _ name value before _ _
    exact stable.trans before (stable.assignConditional database target name value)
  · intro database name value before
    exact stable.trans before (stable.assign database _ value)
  · intro database name value before
    exact stable.trans before (stable.append database _ value)

/-- Whatever each change made by a line keeps up, a reading keeps up from its beginning to its end,
also if it fails. -/
theorem Stable.related_read {related : Database → Database → Prop} (stable : Stable related)
    (reader : Reader) (source : Reader.Source) (workspace : Workspace) :
    related workspace.database ((reader.read source).run workspace).2.database :=
  (stable.invariant workspace.database).holds_read reader source
    (stable.refl workspace.database)

end DryMake
