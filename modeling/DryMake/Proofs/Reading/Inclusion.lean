import DryMake.Proofs.Reading.Failure

/-!
Inclusion as composition. A line that includes a file parts its own file in two, and the whole is
read as the part above the line, then the included file, then the part below, each from the state
that the last one left. Only line numbers tell the part below from a file of its own, and they come
out again in failures alone.
-/

namespace DryMake

def Location.moveBy (count : Nat) (location : Location) : Location :=
  { location with line := location.line + count }

def ReadError.moveBy (count : Nat) : ReadError → ReadError
  | expansion location line cause => expansion (location.moveBy count) line cause
  | ruleOutsideTarget location rule => ruleOutsideTarget (location.moveBy count) rule
  | malformedConditional location line => malformedConditional (location.moveBy count) line
  | missingFile path location? => missingFile path (location?.map (Location.moveBy count))
  | inclusionCycle path location => inclusionCycle path (location.moveBy count)
  | unreadable path fault => unreadable path fault

private theorem ReadError.placedAt_moveBy {failure : ReadError} {file : Path} {number : Nat}
    (located : failure.location? = some ⟨file, number⟩) (count : Nat) :
    failure.placedAt ⟨file, number + count⟩ = failure.moveBy count := by
  cases failure with
  | unreadable path fault => cases located
  | _ =>
      cases located
      rfl

namespace Effect

/-- The outcome of a moved line or file, given that of the unmoved one. A failure that is its own, not
one of an included file, names another line. -/
def MovesBy {Value : Type} (count : Nat) (own whole moved : Except ReadError Value × Database) :
    Prop :=
  match own with
  | (.error failure, later) => moved = (.error (failure.moveBy count), later)
  | (.ok _, _) => moved = whole

private theorem MovesBy.andThen_pure {count : Nat} {own whole moved : Effect Unit} {Result : Type}
    {database : Database} (moves : MovesBy count (own database) (whole database) (moved database))
    (value : Result) :
    MovesBy count (own.andThen (fun _ => pure value) database)
      (whole.andThen (fun _ => pure value) database)
      (moved.andThen (fun _ => pure value) database) := by
  unfold MovesBy at moves
  unfold andThen
  cases ended : own database with
  | mk result later =>
      rw [ended] at moves
      cases result with
      | error failure =>
          rw [show moved database = (.error (failure.moveBy count), later) from moves]
          rfl
      | ok middle =>
          rw [show moved database = whole database from moves]
          rfl

private theorem ofLine_moveBy {base? : Option Path}
    {allowed included : Location → Path → Effect Unit} {count : Nat}
    (moves : ∀ location path database, MovesBy count (allowed location path database)
      (included location path database) (included (location.moveBy count) path database))
    (file : Path) (open? : Option Definition) (line : LogicalLine) (database : Database) :
    MovesBy count (ofLine base? allowed file open? line database)
      (ofLine base? included file open? line database)
      (ofLine base? included file open? (line.moveBy count) database) := by
  obtain ⟨action, move⟩ := exists_move base? file open? line database
  have moved := move.elsewhere file (line.moveBy count) rfl database rfl
  rw [move.ofLine_eq, move.ofLine_eq, moved.ofLine_eq]
  cases action with
  | goOn | begin | update => rfl
  | enter path => exact (moves ⟨file, line.number⟩ path (database.closed open?)).andThen_pure none
  | refuse closes failure =>
      have sameFailure := ReadError.placedAt_moveBy move.of_refuse.1 count
      exact congrArg (fun failure : ReadError => (Except.error failure, _)) sameFailure

end Effect

namespace Reader

variable {reader : Reader}

private theorem allowed_moveBy (reader : Reader) (chain : List Path) (count : Nat)
    (location : Location) (path : Path) (database : Database) :
    Effect.MovesBy count (reader.allowed chain location path database)
      (reader.included chain location path database)
      (reader.included chain (location.moveBy count) path database) := by
  unfold allowed allow included
  cases found : reader.files.lookup path with
  | none =>
      simp only [readIncluded_of_missing found]
      rfl
  | some contents =>
      by_cases reading : isReading chain path = true
      · simp only [readIncluded_of_isReading found reading, if_pos reading]
        rfl
      · simp only [readIncluded_of_found found reading, if_neg reading]
        rfl

/-- Lines further down in their file are read alike. Only a failure of one of them names another
line. -/
theorem ofLines_moveBy (reader : Reader) (chain : List Path) (file : Path) (count : Nat)
    (open? : Option Definition) (lines : List LogicalLine) (database : Database) :
    Effect.ofLines reader.base? (reader.included chain) file open?
        (lines.map (LogicalLine.moveBy count)) database =
      match reader.ownFailure? chain file open? lines database with
      | none => Effect.ofLines reader.base? (reader.included chain) file open? lines database
      | some (_, failure) =>
          (.error (failure.moveBy count),
            (Effect.ofLines reader.base? (reader.included chain) file open? lines database).2) := by
  induction lines generalizing open? database with
  | nil => rfl
  | cons line rest inductionHypothesis =>
      -- A failure is the line's own if it comes before an included file is entered, so the line is
      -- first taken with `allowed` in the place of the file.
      have moves : Effect.MovesBy count
          (Effect.ofLine reader.base? (reader.allowed chain) file open? line database)
          (Effect.ofLine reader.base? (reader.included chain) file open? line database)
          (Effect.ofLine reader.base? (reader.included chain) file open? (line.moveBy count)
            database) :=
        Effect.ofLine_moveBy (reader.allowed_moveBy chain count) file open? line database
      rw [ownFailure?, effectOf_apply, effectOf_apply_allow, List.map_cons, Effect.ofLines,
        Effect.ofLines]
      unfold Effect.andThen
      cases own : Effect.ofLine reader.base? (reader.allowed chain) file open? line database with
      | mk result between =>
          rw [own] at moves
          cases result with
          | error failure =>
              have failed := (Effect.of_ofLine_eq_error
                (fun _ _ _ _ _ refused => of_allowed_eq_error refused) own).1
              rw [show Effect.ofLine _ _ _ _ (line.moveBy count) _ = _ from moves, failed]
          | ok middle =>
              rw [show Effect.ofLine _ _ _ _ (line.moveBy count) _ = _ from moves]
              cases Effect.ofLine reader.base? (reader.included chain) file open? line database with
              | mk outcome later =>
                  cases outcome with
                  | error failure => rfl
                  | ok next => exact inductionHypothesis next later

private theorem readLogicalLines_moveBy (reader : Reader) (chain : List Path) (file : Path)
    (count : Nat) (lines : List String) (workspace : Workspace) :
    let moved := (reader.readLogicalLines (reader.readIncluded chain) file
      ((LogicalLine.ofPhysical lines).map (LogicalLine.moveBy count))).run workspace
    let alone := (reader.readPhysicalLines (reader.readIncluded chain) file lines).run workspace
    moved.2.database = alone.2.database ∧
      match reader.ownFailure? chain file none (LogicalLine.ofPhysical lines)
        workspace.database with
      | none => moved.1 = alone.1
      | some (_, failure) => alone.1 = .error failure ∧ moved.1 = .error (failure.moveBy count) := by
  intro moved alone
  have aloneEffect : (alone.1, alone.2.database) = _ :=
    reader.does_readPhysicalLines chain file lines workspace
  have movedEffect : (moved.1, moved.2.database) = Effect.ofLines reader.base? _ file none _ _ :=
    does_readLogicalLines (reader.does_readIncluded chain) file _ workspace
  rw [reader.ofLines_moveBy, ← aloneEffect] at movedEffect
  cases stop : reader.ownFailure? chain file none (LogicalLine.ofPhysical lines)
      workspace.database with
  | none =>
      rw [stop] at movedEffect
      obtain ⟨sameResult, sameDatabase⟩ := Prod.mk.inj movedEffect
      exact ⟨sameDatabase, sameResult⟩
  | some stopped =>
      obtain ⟨line, failure⟩ := stopped
      rw [stop] at movedEffect
      obtain ⟨movedResult, sameDatabase⟩ := Prod.mk.inj movedEffect
      obtain ⟨-, _, _, _, _, -, failed, -, -⟩ := of_ownFailure stop
      exact ⟨sameDatabase, congrArg Prod.fst (aloneEffect.trans failed), movedResult⟩

def namedPath (reader : Reader) (location : Location) (line operand : String) : Reading Path := do
  let operand ← expand location line operand
  let path := Path.resolveIn reader.base? ⟨Text.trimmed operand⟩
  Update.note (.inclusion location.render path.text)
  return path

private theorem apply_of_inclusion {readIncluded : Location → Path → Reading Unit}
    {line : LogicalLine} {operand : String} (shape : Line.ofString line.text = .inclusion operand)
    (file : Path) (open? : Option Definition) :
    reader.apply readIncluded file open? line = do
      close open?
      let path ← reader.namedPath ⟨file, line.number⟩ line.text operand
      readIncluded ⟨file, line.number⟩ path
      return none := by
  simp only [apply, shape, namedPath, bind_assoc, pure_bind]

theorem readLogicalLines_append_cons {readIncluded : Location → Path → Reading Unit}
    {line : LogicalLine} {operand : String}
    (shape : Line.ofString line.text = .inclusion operand) (file : Path)
    (before after : List LogicalLine) :
    reader.readLogicalLines readIncluded file (before ++ line :: after) = (do
      reader.readLogicalLines readIncluded file before
      let path ← reader.namedPath ⟨file, line.number⟩ line.text operand
      readIncluded ⟨file, line.number⟩ path
      reader.readLogicalLines readIncluded file after) := by
  simp only [readLogicalLines, List.foldlM_append, List.foldlM_cons, apply_of_inclusion shape,
    bind_assoc, pure_bind]

/-- Reading a file with an inclusion in it is one reading after another: the lines above, the file
that the inclusion names, and the lines below, up to the first that fails. The workspace is handed on
from each to the next. Only the failures of the lines below name other lines than if these were read
alone. -/
theorem readPhysicalLines_inclusion (reader : Reader) (chain : List Path) (file : Path)
    {before : List String} {directive operand : String} (whole : LogicalLine.EndsWhole before)
    (ends : LogicalLine.continued? directive = none)
    (shape : Line.ofString directive = .inclusion operand) (after : List String)
    (workspace : Workspace) :
    let read := reader.readPhysicalLines (reader.readIncluded chain) file
    let location : Location := ⟨file, before.length + 1⟩
    let all := (read (before ++ directive :: after)).run workspace
    (match (do
      read before
      let path ← reader.namedPath location directive operand
      reader.readIncluded chain location path : Reading Unit).run workspace with
    | (.error failure, later) => all = (.error failure, later)
    | (.ok (), later) =>
        let below := (read after).run later
        all.2.database = below.2.database ∧
        match reader.ownFailure? chain file none (LogicalLine.ofPhysical after) later.database with
        | none => all.1 = below.1
        | some (_, failure) =>
            below.1 = .error failure ∧ all.1 = .error (failure.moveBy (before.length + 1))) ∧
    ∀ path text, reader.files.lookup path = some (.text text) → ¬ isReading chain path = true →
      reader.readIncluded chain location path = (do
        Update.note (.reading path.text)
        reader.readPhysicalLines (reader.readIncluded (path :: chain)) path (Text.lines text)) := by
  intro read location all
  refine ⟨?_, fun path text found fresh => readIncluded_of_found found fresh location⟩
  have composed : read (before ++ directive :: after) = (do
      (do
        read before
        let path ← reader.namedPath location directive operand
        reader.readIncluded chain location path)
      reader.readLogicalLines (reader.readIncluded chain) file
        ((LogicalLine.ofPhysical after).map (LogicalLine.moveBy (before.length + 1)))) := by
    have cut : LogicalLine.ofPhysical (before ++ directive :: after) = _ :=
      LogicalLine.ofPhysical_append_cons whole ends
    show reader.readLogicalLines _ file (LogicalLine.ofPhysical _) = _
    rw [cut, readLogicalLines_append_cons shape]
    simp only [bind_assoc]
    rfl
  have ran : all = _ := congrArg (fun reading : Reading Unit => reading.run workspace) composed
  rw [run_bind] at ran
  split
  · rename_i failure later ended
    rw [ended] at ran
    exact ran
  · rename_i later ended
    rw [ended] at ran
    rw [ran]
    exact readLogicalLines_moveBy reader chain file _ after later

theorem readPhysicalLines_inclusion_of_rules :
    let files : FileSystem := .ofLookup fun path =>
      if path.text = "rules.mk" then some (.text "lib: $(OBJ)\n\tar \\") else none
    let reader : Reader := ⟨files, none⟩
    let read := reader.readPhysicalLines (reader.readIncluded []) ⟨"Makefile"⟩
    let before := ["OBJ = a.o", "all: lib"]
    LogicalLine.EndsWhole before ∧
      LogicalLine.continued? "include rules.mk" = none ∧
      Line.ofString "include rules.mk" = .inclusion "rules.mk" ∧
      ((read (before ++ "include rules.mk" :: ["x := none"])).run (.empty false)).1 =
        .error (.malformedConditional ⟨⟨"Makefile"⟩, 4⟩ "x := none") := by
  intro files reader read before
  have whole : LogicalLine.EndsWhole before := by
    intro last member
    cases member
    cbv
  have ends : LogicalLine.continued? "include rules.mk" = none := by cbv
  have shape : Line.ofString "include rules.mk" = .inclusion "rules.mk" := by cbv
  refine ⟨whole, ends, shape, ?_⟩
  have composed := (readPhysicalLines_inclusion reader [] ⟨"Makefile"⟩ whole ends shape
    ["x := none"] (.empty false)).1
  have opened : reader.readIncluded [] ⟨⟨"Makefile"⟩, 3⟩ ⟨"rules.mk"⟩ =
      reader.readContents (reader.readIncluded [⟨"rules.mk"⟩]) ⟨"rules.mk"⟩
        (.text "lib: $(OBJ)\n\tar \\") :=
    readIncluded_of_found (by subst read reader files; cbv) (by decide) _
  have done : ((do
      read before
      let path ← reader.namedPath ⟨⟨"Makefile"⟩, 3⟩ "include rules.mk" "rules.mk"
      reader.readIncluded [] ⟨⟨"Makefile"⟩, 3⟩ path : Reading Unit).run (.empty false)).1 =
      .ok () := by
    have named : ((do
        read before
        reader.namedPath ⟨⟨"Makefile"⟩, 3⟩ "include rules.mk" "rules.mk" : Reading Path).run
          (.empty false)).1 = .ok ⟨"rules.mk"⟩ := by
      subst read reader files before
      cbv
    rw [← bind_assoc, run_bind, (Prod.ext named rfl : _ = (Except.ok _, _))]
    dsimp only
    rw [opened]
    generalize reader.readIncluded [⟨"rules.mk"⟩] = nested
    subst read reader files before
    cbv
  split at composed
  · rename_i failed
    cases (congrArg Prod.fst failed).symm.trans done
  · rename_i later _
    have stops : reader.ownFailure? [] ⟨"Makefile"⟩ none (LogicalLine.ofPhysical ["x := none"])
        later.database =
          some (⟨1, "x := none"⟩, .malformedConditional ⟨⟨"Makefile"⟩, 1⟩ "x := none") := by
      subst read reader files before
      cbv
    obtain ⟨-, last⟩ := composed
    rw [stops] at last
    exact last.2

end Reader
end DryMake
