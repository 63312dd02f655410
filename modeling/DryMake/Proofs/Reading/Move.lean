import DryMake.Proofs.Reading.Effect

/-!
What a line can do, stated once for all that is proved of lines. A line leaves things as they are,
changes a table, begins a definition, enters a file or fails. Which of these it does hangs on the
database and on what is open, and on nothing in the file that it includes.
-/

namespace DryMake

def Line.isIdle : Line → Bool
  | blank => true
  | comment => true
  | unknown => true
  | _ => false

def ReadError.placedAt (location : Location) : ReadError → ReadError
  | expansion _ line cause => expansion location line cause
  | ruleOutsideTarget _ rule => ruleOutsideTarget location rule
  | malformedConditional _ line => malformedConditional location line
  | missingFile path location? => missingFile path (location?.map fun _ => location)
  | inclusionCycle path _ => inclusionCycle path location
  | unreadable path fault => unreadable path fault

namespace Effect

inductive Action where
  | goOn (next? : Option Definition)
  | begin (definition : Definition)
  | enter (path : Path)
  | update (revise : Database → Database)
  | refuse (closes : Bool) (failure : ReadError)

def Action.perform (included : Path → Effect Unit) (open? : Option Definition) :
    Action → Effect (Option Definition)
  | goOn next? => pure next?
  | begin definition => (close open?).andThen fun _ => pure (some definition)
  | enter path => (close open?).andThen fun _ => (included path).andThen fun _ => pure none
  | update revise => (change revise).andThen fun _ => pure open?
  | refuse closes failure => fun database =>
      (.error failure, if closes then database.closed open? else database)

def Action.placedAt (location : Location) : Action → Action
  | refuse closes failure => refuse closes (failure.placedAt location)
  | action => action

/-- The parts of a line that it expands, with whether what is open is closed by then. -/
inductive Expands (database : Database) : Line → Bool → String → Prop where
  | operand {operand : String} : Expands database (.inclusion operand) true operand
  | targets {targets deps : String} : Expands database (.definition targets deps) true targets
  | deps {targets deps names : String} (before : database.global.expand targets = .ok names) :
      Expands database (.definition targets deps) true deps
  | conditional {targets assignment : String} {sides : String × String}
      (wellFormed : Reader.splitAssignment assignment = some sides) :
      Expands database (.conditional targets assignment) false targets
  | append {name value : String} : Expands database (.append name value) false name
  | assign {name value : String} : Expands database (.assign name value) false name

/-- What a line does. -/
inductive Move (base? : Option Path) (file : Path) (open? : Option Definition) (line : LogicalLine)
    (database : Database) : Action → Prop where
  | idle {kind : Line} (shape : Line.ofString line.text = kind) (idle : kind.isIdle = true) :
      Move base? file open? line database (.goOn open?)
  | rule {command : String} {definition : Definition}
      (shape : Line.ofString line.text = .rule command) (isOpen : open? = some definition) :
      Move base? file open? line database (.goOn (some (definition.addRule command)))
  | strayRule {command : String} (shape : Line.ofString line.text = .rule command)
      (nothingOpen : open? = none) :
      Move base? file open? line database
        (.refuse false (.ruleOutsideTarget ⟨file, line.number⟩ command))
  | inclusion {operand expansion : String} (shape : Line.ofString line.text = .inclusion operand)
      (expanded : database.global.expand operand = .ok expansion) :
      Move base? file open? line database
        (.enter (Path.resolveIn base? ⟨Text.trimmed expansion⟩))
  | definition {targets deps names prerequisites : String}
      (shape : Line.ofString line.text = .definition targets deps)
      (expandedTargets : database.global.expand targets = .ok names)
      (expandedDeps : database.global.expand deps = .ok prerequisites) :
      Move base? file open? line database
        (.begin (.start (Text.words names) (Text.words prerequisites)))
  | conditional {targets assignment name value expansion : String}
      (shape : Line.ofString line.text = .conditional targets assignment)
      (sides : Reader.splitAssignment assignment = some (name, value))
      (expanded : database.global.expand targets = .ok expansion) :
      Move base? file open? line database (.update fun database =>
        { database with
          conditionals := (Text.words expansion).foldl (fun conditionals target =>
            conditionals.assign target name value) database.conditionals })
  | malformed {targets assignment : String}
      (shape : Line.ofString line.text = .conditional targets assignment)
      (noSides : Reader.splitAssignment assignment = none) :
      Move base? file open? line database
        (.refuse false (.malformedConditional ⟨file, line.number⟩ line.text))
  | append {name value expansion : String} (shape : Line.ofString line.text = .append name value)
      (expanded : database.global.expand name = .ok expansion) :
      Move base? file open? line database (.update fun database =>
        { database with
          macros := database.macros.append database.environmentWins (Text.trimmed expansion)
            value })
  | assign {name value expansion : String} (shape : Line.ofString line.text = .assign name value)
      (expanded : database.global.expand name = .ok expansion)
      (noComment : (Text.trimmed expansion).toList.head? ≠ some '#') :
      Move base? file open? line database (.update fun database =>
        { database with
          macros := database.macros.assign database.environmentWins (Text.trimmed expansion)
            value })
  | commentedOut {name value expansion : String}
      (shape : Line.ofString line.text = .assign name value)
      (expanded : database.global.expand name = .ok expansion)
      (comment : (Text.trimmed expansion).toList.head? = some '#') :
      Move base? file open? line database (.goOn open?)
  | unexpanded {kind : Line} {closes : Bool} {part : String} {cause : ExpansionError}
      (shape : Line.ofString line.text = kind) (expands : Expands database kind closes part)
      (failed : database.global.expand part = .error cause) :
      Move base? file open? line database
        (.refuse closes (.expansion ⟨file, line.number⟩ line.text cause))

section

variable {base? : Option Path} {file : Path} {open? : Option Definition} {line : LogicalLine}
  {database : Database}

theorem exists_move (base? : Option Path) (file : Path) (open? : Option Definition)
    (line : LogicalLine) (database : Database) :
    ∃ action, Move base? file open? line database action := by
  cases shape : Line.ofString line.text with
  | blank | comment | unknown => exact ⟨_, .idle shape rfl⟩
  | rule command =>
      cases isOpen : open? with
      | none => exact ⟨_, .strayRule shape rfl⟩
      | some definition => exact ⟨_, .rule shape rfl⟩
  | inclusion operand =>
      cases expanded : database.global.expand operand with
      | error cause => exact ⟨_, .unexpanded shape .operand expanded⟩
      | ok expansion => exact ⟨_, .inclusion shape expanded⟩
  | definition targets deps =>
      cases expandedTargets : database.global.expand targets with
      | error cause => exact ⟨_, .unexpanded shape .targets expandedTargets⟩
      | ok names =>
          cases expandedDeps : database.global.expand deps with
          | error cause => exact ⟨_, .unexpanded shape (.deps expandedTargets) expandedDeps⟩
          | ok prerequisites => exact ⟨_, .definition shape expandedTargets expandedDeps⟩
  | conditional targets assignment =>
      cases sides : Reader.splitAssignment assignment with
      | none => exact ⟨_, .malformed shape sides⟩
      | some parts =>
          cases expanded : database.global.expand targets with
          | error cause => exact ⟨_, .unexpanded shape (.conditional sides) expanded⟩
          | ok expansion => exact ⟨_, .conditional shape sides expanded⟩
  | append name value =>
      cases expanded : database.global.expand name with
      | error cause => exact ⟨_, .unexpanded shape .append expanded⟩
      | ok expansion => exact ⟨_, .append shape expanded⟩
  | assign name value =>
      cases expanded : database.global.expand name with
      | error cause => exact ⟨_, .unexpanded shape .assign expanded⟩
      | ok expansion =>
          by_cases comment : (Text.trimmed expansion).toList.head? = some '#'
          · exact ⟨_, .commentedOut shape expanded comment⟩
          · exact ⟨_, .assign shape expanded comment⟩

private theorem Expands.of_global_eq {there : Database}
    (sameGlobal : there.global = database.global) {kind : Line} {closes : Bool} {part : String}
    (expands : Expands database kind closes part) : Expands there kind closes part := by
  cases expands with
  | operand => exact .operand
  | targets => exact .targets
  | deps before => exact .deps (sameGlobal ▸ before)
  | conditional wellFormed => exact .conditional wellFormed
  | append => exact .append
  | assign => exact .assign

/-- A line does the same at another place and in another database in which its parts expand alike.
Only its own failure tells the place. -/
theorem Move.elsewhere {action : Action} (move : Move base? file open? line database action)
    (otherFile : Path) (other : LogicalLine) (sameText : other.text = line.text) (there : Database)
    (sameGlobal : there.global = database.global) :
    Move base? otherFile open? other there (action.placedAt ⟨otherFile, other.number⟩) := by
  obtain ⟨number, text⟩ := other
  cases sameText
  cases move with
  | idle shape idle => exact .idle shape idle
  | rule shape isOpen => exact .rule shape isOpen
  | strayRule shape nothingOpen => exact .strayRule shape nothingOpen
  | inclusion shape expanded => exact .inclusion shape (sameGlobal ▸ expanded)
  | definition shape expandedTargets expandedDeps =>
      exact .definition shape (sameGlobal ▸ expandedTargets) (sameGlobal ▸ expandedDeps)
  | conditional shape sides expanded => exact .conditional shape sides (sameGlobal ▸ expanded)
  | malformed shape noSides => exact .malformed shape noSides
  | append shape expanded => exact .append shape (sameGlobal ▸ expanded)
  | assign shape expanded noComment => exact .assign shape (sameGlobal ▸ expanded) noComment
  | commentedOut shape expanded comment =>
      exact .commentedOut shape (sameGlobal ▸ expanded) comment
  | unexpanded shape expands failed =>
      exact .unexpanded shape (expands.of_global_eq sameGlobal) (sameGlobal ▸ failed)

private theorem global_closed (database : Database) (open? : Option Definition) :
    (database.closed open?).global = database.global :=
  rfl

theorem Move.ofLine_eq {action : Action} (move : Move base? file open? line database action)
    (included : Location → Path → Effect Unit) :
    ofLine base? included file open? line database =
      action.perform (included ⟨file, line.number⟩) open? database := by
  cases move with
  | @idle kind shape idle =>
      cases kind with
      | blank | comment | unknown =>
          simp only [ofLine, shape]
          rfl
      | _ => cases idle
  | rule shape isOpen | strayRule shape isOpen =>
      simp only [ofLine, shape, isOpen]
      rfl
  | inclusion shape expanded =>
      simp only [ofLine, shape, close_andThen, expand_andThen, global_closed, expanded]
      rfl
  | definition shape expandedTargets expandedDeps =>
      simp only [ofLine, shape, close_andThen, expand_andThen, global_closed, expandedTargets,
        expandedDeps]
      rfl
  | conditional shape sides expanded =>
      simp only [ofLine, shape, sides, expand_andThen, expanded]
      rfl
  | malformed shape noSides =>
      simp only [ofLine, shape, noSides]
      rfl
  | append shape expanded =>
      simp only [ofLine, shape, expand_andThen, expanded]
      rfl
  | assign shape expanded noComment =>
      simp only [ofLine, shape, expand_andThen, expanded, if_neg noComment]
      rfl
  | commentedOut shape expanded comment =>
      simp only [ofLine, shape, expand_andThen, expanded, if_pos comment]
      rfl
  | unexpanded shape expands failed =>
      cases expands with
      | operand | targets =>
          simp only [ofLine, shape, close_andThen, expand_andThen, global_closed, failed]
          rfl
      | deps before =>
          simp only [ofLine, shape, close_andThen, expand_andThen, global_closed, before, failed]
          rfl
      | conditional wellFormed =>
          simp only [ofLine, shape, wellFormed, expand_andThen, failed]
          rfl
      | append | assign =>
          simp only [ofLine, shape, expand_andThen, failed]
          rfl

end

end Effect

end DryMake
