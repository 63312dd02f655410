import DryMake.Proofs.Reading.Grouping
import DryMake.Proofs.Reading.Move
import Mathlib

/-!
Readings that fail at one of their own lines, and what is left of what was read before.
-/

namespace DryMake

def ReadError.location? : ReadError → Option Location
  | expansion location _ _ => some location
  | ruleOutsideTarget location _ => some location
  | malformedConditional location _ => some location
  | missingFile _ location? => location?
  | inclusionCycle _ location => some location
  | unreadable _ _ => none

def Line.endsDefinition : Line → Bool
  | rule _ => true
  | inclusion _ => true
  | definition .. => true
  | _ => false

namespace Effect

theorem Move.of_refuse {base? : Option Path} {file : Path} {open? : Option Definition}
    {line : LogicalLine} {database : Database} {closes : Bool} {failure : ReadError}
    (move : Move base? file open? line database (.refuse closes failure)) :
    failure.location? = some ⟨file, line.number⟩ ∧
      (closes = false → (Line.ofString line.text).endsDefinition = true → open? = none) := by
  cases move with
  | strayRule shape nothingOpen => exact ⟨rfl, fun _ _ => nothingOpen⟩
  | malformed shape noSides =>
      refine ⟨rfl, fun _ ends => ?_⟩
      rw [shape] at ends
      cases ends
  | unexpanded shape expands failed =>
      refine ⟨rfl, fun before ends => ?_⟩
      rw [shape] at ends
      cases expands with
      | operand | targets | deps => cases before
      | conditional | append | assign => cases ends

theorem of_ofLine_eq_error {base? : Option Path} {allowed included : Location → Path → Effect Unit}
    (refuses : ∀ location path database failure later,
      allowed location path database = (.error failure, later) →
        later = database ∧ failure.location? = some location ∧
          included location path database = (.error failure, later))
    {file : Path} {open? : Option Definition} {line : LogicalLine} {database later : Database}
    {failure : ReadError}
    (failed : ofLine base? allowed file open? line database = (.error failure, later)) :
    ofLine base? included file open? line database = (.error failure, later) ∧
      failure.location? = some ⟨file, line.number⟩ ∧
      ∃ left? : Option Definition, close left? later = close open? database ∧
        ((Line.ofString line.text).endsDefinition = true → left? = none) := by
  obtain ⟨action, move⟩ := exists_move base? file open? line database
  rw [move.ofLine_eq] at failed ⊢
  cases action with
  | goOn | begin | update => cases failed
  | enter path =>
      have entering : ((allowed _ path).andThen fun _ => pure none) (database.closed open?) =
          (.error failure, later) := failed
      rcases andThen_eq_error_iff.mp entering with refused | ⟨_, between, _, impossible⟩
      · obtain ⟨rfl, located, refusedToo⟩ := refuses _ _ _ _ _ refused
        exact ⟨andThen_eq_error_iff.mpr (Or.inl refusedToo), located, none, rfl, fun _ => rfl⟩
      · cases impossible
  | refuse closes cause =>
      cases failed
      obtain ⟨located, ends⟩ := move.of_refuse
      cases closes with
      | true => exact ⟨rfl, located, none, rfl, fun _ => rfl⟩
      | false => exact ⟨rfl, located, open?, rfl, ends rfl⟩

end Effect

namespace Reader

/-- What an inclusion makes sure of before the file is read: that there is a file, and that it is not
being read already. -/
def allow (reader : Reader) (chain : List Path) (location : Location) (path : Path) :
    Reading Unit :=
  match reader.files.lookup path with
  | none => throw (.missingFile path (some location))
  | some _ => if isReading chain path then throw (.inclusionCycle path location) else pure ()

/-- The line at which the reading of lines fails by itself, with the failure: not if the reading
does not fail, or fails within a file that a line includes. -/
def ownFailure? (reader : Reader) (chain : List Path) (file : Path) :
    Option Definition → List LogicalLine → Database → Option (LogicalLine × ReadError)
  | _, [], _ => none
  | open?, line :: rest, database =>
      match effectOf (reader.apply (reader.allow chain) file open? line) database with
      | (.error failure, _) => some (line, failure)
      | (.ok _, _) =>
          match effectOf (reader.apply (reader.readIncluded chain) file open? line) database with
          | (.ok next, later) => reader.ownFailure? chain file next rest later
          | (.error _, _) => none

def allowed (reader : Reader) (chain : List Path) (location : Location) (path : Path) :
    Effect Unit :=
  effectOf (reader.allow chain location path)

private theorem does_allow (reader : Reader) (chain : List Path) (location : Location)
    (path : Path) :
    Does (reader.allow chain location path) (reader.allowed chain location path) := by
  unfold allowed allow
  cases reader.files.lookup path with
  | none => exact does_throw _
  | some contents =>
      dsimp only
      split
      · exact does_throw _
      · exact does_pure ()

theorem effectOf_apply_allow (reader : Reader) (chain : List Path) (file : Path)
    (open? : Option Definition) (line : LogicalLine) :
    effectOf (reader.apply (reader.allow chain) file open? line) =
      .ofLine reader.base? (reader.allowed chain) file open? line :=
  (does_apply (reader.does_allow chain) file open? line).effectOf_eq

theorem of_allowed_eq_error {reader : Reader} {chain : List Path} {location : Location}
    {path : Path} {database later : Database} {failure : ReadError}
    (refused : reader.allowed chain location path database = (.error failure, later)) :
    later = database ∧ failure.location? = some location ∧
      reader.included chain location path database = (.error failure, later) := by
  unfold allowed allow at refused
  unfold included
  cases found : reader.files.lookup path with
  | none =>
      rw [found] at refused
      rw [readIncluded_of_missing found]
      cases refused
      exact ⟨rfl, rfl, rfl⟩
  | some contents =>
      rw [found] at refused
      dsimp only at refused
      split at refused
      · rename_i reading
        rw [readIncluded_of_isReading found reading]
        cases refused
        exact ⟨rfl, rfl, rfl⟩
      · cases refused

theorem of_ownFailure {reader : Reader} {chain : List Path} {file : Path}
    {open? : Option Definition} {lines : List LogicalLine} {database : Database}
    {line : LogicalLine} {failure : ReadError}
    (stopped : reader.ownFailure? chain file open? lines database = some (line, failure)) :
    failure.location? = some ⟨file, line.number⟩ ∧
      ∃ before after left? later, lines = before ++ line :: after ∧
        Effect.ofLines reader.base? (reader.included chain) file open? lines database =
          (.error failure, later) ∧
        Effect.ofLines reader.base? (reader.included chain) file open? before database =
          (.ok (), later.closed left?) ∧
        ((Line.ofString line.text).endsDefinition = true → left? = none) := by
  induction lines generalizing open? database with
  | nil => cases stopped
  | cons first rest inductionHypothesis =>
      rw [ownFailure?, effectOf_apply, effectOf_apply_allow] at stopped
      split at stopped
      · rename_i found failed
        cases stopped
        obtain ⟨failedToo, located, left?, same, ends⟩ :=
          Effect.of_ofLine_eq_error (fun _ _ _ _ _ refused => of_allowed_eq_error refused) failed
        refine ⟨located, [], rest, left?, _, rfl, ?_, same.symm, ends⟩
        exact Effect.andThen_eq_error_iff.mpr (Or.inl failedToo)
      · split at stopped
        · rename_i next between succeeded
          obtain ⟨located, before, after, left?, later, cut, failed, prior, ends⟩ :=
            inductionHypothesis stopped
          refine ⟨located, first :: before, after, left?, later, congrArg (first :: ·) cut, ?_, ?_,
            ends⟩
          · exact Effect.andThen_eq_error_iff.mpr (Or.inr ⟨next, between, succeeded, failed⟩)
          · exact Effect.andThen_eq_ok_iff.mpr ⟨next, between, succeeded, prior⟩
        · cases stopped

/-- When a file fails at one of its own lines, all that the lines above it did stays done, but for
the definition that they left open: reading those lines alone gives the same macros and conditional
macros, and the plan with that definition added. Nothing is open after a definition, an inclusion or
a rule that fails. -/
theorem readPhysicalLines_of_ownFailure (reader : Reader) (chain : List Path) (file : Path)
    (lines : List String) (workspace : Workspace) {line : LogicalLine} {failure : ReadError}
    (stopped : reader.ownFailure? chain file none (LogicalLine.ofPhysical lines)
      workspace.database = some (line, failure)) :
    let read := reader.readPhysicalLines (reader.readIncluded chain) file
    let failed := (read lines).run workspace
    let prior := (read (lines.take (line.number - 1))).run workspace
    failed.1 = .error failure ∧ failure.location? = some ⟨file, line.number⟩ ∧
      prior.1 = .ok () ∧
      ∃ left? : Option Definition, prior.2.database = failed.2.database.closed left? ∧
        ((Line.ofString line.text).endsDefinition = true → left? = none) := by
  intro read failed prior
  obtain ⟨located, before, after, left?, later, cut, wholeEffect, priorEffect, ends⟩ :=
    of_ownFailure stopped
  have whole := reader.does_readPhysicalLines chain file lines workspace
  have above := reader.does_readPhysicalLines chain file (lines.take (line.number - 1)) workspace
  rw [wholeEffect] at whole
  rw [LogicalLine.ofPhysical_take cut, priorEffect] at above
  obtain ⟨failedResult, failedDatabase⟩ := Prod.mk.inj whole
  obtain ⟨priorResult, priorDatabase⟩ := Prod.mk.inj above
  exact ⟨failedResult, located, priorResult, left?, failedDatabase ▸ priorDatabase, ends⟩

/-- The lines above a malformed conditional assignment are read to their end. -/
theorem readPhysicalLines_malformed :
    let reader : Reader := ⟨.ofLookup fun _ => none, none⟩
    let read := reader.readPhysicalLines (reader.readIncluded []) ⟨"Makefile"⟩
    let lines := ["CC = cc", "all: a", "\techo \\", "one", "x := none", "b: c"]
    let stop : LogicalLine := ⟨5, "x := none"⟩
    let failure : ReadError := .malformedConditional ⟨⟨"Makefile"⟩, 5⟩ "x := none"
    reader.ownFailure? [] ⟨"Makefile"⟩ none (LogicalLine.ofPhysical lines) (.empty false) =
        some (stop, failure) ∧
      ((read lines).run (.empty false)).1 = .error failure ∧
      ∃ left? : Option Definition,
        ((read (lines.take 4)).run (.empty false)).2.database =
          ((read lines).run (.empty false)).2.database.closed left? := by
  intro reader read lines stop failure
  have stopped : reader.ownFailure? [] ⟨"Makefile"⟩ none (LogicalLine.ofPhysical lines)
      (.empty false) = some (stop, failure) := by cbv
  obtain ⟨failed, -, -, left?, same, -⟩ :=
    readPhysicalLines_of_ownFailure reader [] ⟨"Makefile"⟩ lines (.empty false) stopped
  exact ⟨stopped, failed, left?, same⟩

/-- The definition that is open at a failing line is lost, though the lines above that line define
its target. -/
theorem readLines_loses_open_definition :
    let reader : Reader := ⟨.ofLookup fun _ => none, none⟩
    let read := fun lines => (reader.readLines ⟨"Makefile"⟩ lines).run (.empty false)
    let above := ["all: a", "\techo one"]
    (read (above ++ ["x := none"])).1 =
        .error (.malformedConditional ⟨⟨"Makefile"⟩, 3⟩ "x := none") ∧
      (read (above ++ ["x := none"])).2.database.plan.get? "all" = none ∧
      (read above).2.database.plan.get? "all" = some ⟨["a"], ["echo one"]⟩ := by
  refine ⟨?_, ?_, ?_⟩
  · cbv
  · cbv
  · cbv

end Reader

end DryMake
