import DryMake.Proofs.Reading.Failure
import DryMake.Proofs.Reading.Merge

/-!
Reading one line after the other, over a stack of files. A line that includes a file puts the file
on the stack and its path on the chain; a file that is read to its end, or in which a line fails, is
taken from both. The paths on the chain are those of the files on the stack, and a file is refused
just when it is among them. So no path is twice on the chain, and the walk over the stack comes to
its end with what the reading gives.
-/

namespace DryMake.Reader

/-- A file that is being read: its open definition, and the lines that are left. -/
structure Sheet where
  file : Path
  /-- Whether the path is on the chain; a text that stands in no file is not. -/
  listed : Bool
  open? : Option Definition
  lines : List LogicalLine

/-- The innermost file stands first. After a failure the files are only left, one by one. -/
structure Moment where
  sheets : List Sheet
  chain : List Path
  database : Database
  failure? : Option ReadError

def chainAfter (listed : Bool) (chain : List Path) : List Path :=
  if listed then chain.tail else chain

def Moment.enter (moment : Moment) (path : Path) : Contents → Moment
  | .directory => { moment with failure? := some (.unreadable path .isDirectory) }
  | .binary => { moment with failure? := some (.unreadable path .notText) }
  | .text text =>
      { moment with
        sheets := ⟨path, true, none, LogicalLine.ofPhysical (Text.lines text)⟩ :: moment.sheets
        chain := path :: moment.chain }

def inclusion? (reader : Reader) (line : LogicalLine) (database : Database) :
    Option (Path × Contents) :=
  match Line.ofString line.text with
  | .inclusion operand =>
      match database.global.expand operand with
      | .ok expansion =>
          let path := Path.resolveIn reader.base? ⟨Text.trimmed expansion⟩
          (reader.files.lookup path).map fun contents => (path, contents)
      | .error _ => none
  | _ => none

/-- Lets one line take effect, or leaves a file. -/
def step (reader : Reader) (moment : Moment) : Option Moment :=
  match moment with
  | ⟨[], _, _, _⟩ => none
  | ⟨top :: below, chain, database, some failure⟩ =>
      some ⟨below, chainAfter top.listed chain, database, some failure⟩
  | ⟨⟨_, listed, open?, []⟩ :: below, chain, database, none⟩ =>
      some ⟨below, chainAfter listed chain, database.closed open?, none⟩
  | ⟨⟨file, listed, open?, line :: rest⟩ :: below, chain, database, none⟩ =>
      match effectOf (reader.apply (reader.allow chain) file open? line) database with
      | (.error failure, later) =>
          some ⟨⟨file, listed, open?, rest⟩ :: below, chain, later, some failure⟩
      | (.ok next, later) =>
          let moment : Moment := ⟨⟨file, listed, next, rest⟩ :: below, chain, later, none⟩
          match reader.inclusion? line later with
          | none => some moment
          | some (path, contents) => some (moment.enter path contents)

def start (reader : Reader) (source : Source) (database : Database) : Moment :=
  let outside : Moment := ⟨[], [], database, none⟩
  match source with
  | .makefile path =>
      match reader.files.lookup path with
      | none => { outside with failure? := some (.missingFile path none) }
      | some contents => outside.enter path contents
  | .text name text =>
      { outside with sheets := [⟨name, false, none, LogicalLine.ofPhysical (Text.lines text)⟩] }
  | .lines name lines =>
      { outside with sheets := [⟨name, false, none, LogicalLine.ofPhysical lines⟩] }

def Steps (reader : Reader) : Moment → Moment → Prop :=
  Relation.ReflTransGen fun earlier later => reader.step earlier = some later

section

variable {reader : Reader} {chain : List Path} {file : Path} {open? next : Option Definition}
  {line : LogicalLine} {database later : Database}

private theorem step_of_refused {failure : ReadError}
    (failed : Effect.ofLine reader.base? (reader.allowed chain) file open? line database =
      (.error failure, later)) (listed : Bool) (rest : List LogicalLine) (below : List Sheet) :
    reader.step ⟨⟨file, listed, open?, line :: rest⟩ :: below, chain, database, none⟩ =
      some ⟨⟨file, listed, open?, rest⟩ :: below, chain, later, some failure⟩ := by
  simp only [step, effectOf_apply_allow, failed]

private theorem step_of_plain
    (succeeded : Effect.ofLine reader.base? (reader.allowed chain) file open? line database =
      (.ok next, later)) (plain : reader.inclusion? line later = none) (listed : Bool)
    (rest : List LogicalLine) (below : List Sheet) :
    reader.step ⟨⟨file, listed, open?, line :: rest⟩ :: below, chain, database, none⟩ =
      some ⟨⟨file, listed, next, rest⟩ :: below, chain, later, none⟩ := by
  simp only [step, effectOf_apply_allow, succeeded, plain]

private theorem step_of_inclusion {path : Path} {contents : Contents}
    (succeeded : Effect.ofLine reader.base? (reader.allowed chain) file open? line database =
      (.ok next, later)) (includes : reader.inclusion? line later = some (path, contents))
    (listed : Bool) (rest : List LogicalLine) (below : List Sheet) :
    reader.step ⟨⟨file, listed, open?, line :: rest⟩ :: below, chain, database, none⟩ =
      some (Moment.enter ⟨⟨file, listed, next, rest⟩ :: below, chain, later, none⟩ path
        contents) := by
  simp only [step, effectOf_apply_allow, succeeded, includes]

end

def Moment.ended (sheets : List Sheet) (chain : List Path) :
    Except ReadError Unit × Database → Moment
  | (.ok (), database) => ⟨sheets, chain, database, none⟩
  | (.error failure, database) => ⟨sheets, chain, database, some failure⟩

/-- Whatever waits on the stack, the lines of the innermost file are read as their effect says, and
then the file is left. -/
def ReadsLines (reader : Reader) (chain : List Path) : Prop :=
  ∀ file listed open? lines below database,
    Steps reader ⟨⟨file, listed, open?, lines⟩ :: below, chain, database, none⟩
      (.ended below (chainAfter listed chain)
        (Effect.ofLines reader.base? (reader.included chain) file open? lines database))

variable {reader : Reader} {chain : List Path}

private theorem of_allowed_eq_ok {location : Location} {path : Path} {value : Unit}
    {database later : Database}
    (permitted : reader.allowed chain location path database = (.ok value, later)) :
    later = database ∧ ∃ contents, reader.files.lookup path = some contents ∧
      ¬ isReading chain path = true := by
  unfold allowed allow at permitted
  cases found : reader.files.lookup path with
  | none =>
      rw [found] at permitted
      cases permitted
  | some contents =>
      rw [found] at permitted
      dsimp only at permitted
      split at permitted
      · cases permitted
      · rename_i fresh
        cases permitted
        exact ⟨rfl, contents, rfl, fresh⟩

theorem of_ofLine_allowed {file : Path} {open? next : Option Definition} {line : LogicalLine}
    {database later : Database}
    (succeeded : Effect.ofLine reader.base? (reader.allowed chain) file open? line database =
      (.ok next, later)) :
    match reader.inclusion? line later with
    | none =>
        Effect.ofLine reader.base? (reader.included chain) file open? line database =
          (.ok next, later)
    | some (path, contents) =>
        next = none ∧ reader.files.lookup path = some contents ∧ ¬ isReading chain path = true ∧
        Effect.ofLine reader.base? (reader.included chain) file open? line database =
          (reader.included chain ⟨file, line.number⟩ path).andThen (fun _ => .pure none) later := by
  unfold inclusion?
  cases shape : Line.ofString line.text with
  | inclusion operand =>
      simp only [Effect.ofLine, shape, Effect.close_andThen, Effect.expand_andThen] at succeeded ⊢
      cases expanded : (database.closed open?).global.expand operand with
      | error cause =>
          rw [expanded] at succeeded
          cases succeeded
      | ok expansion =>
          simp only [expanded] at succeeded
          obtain ⟨_, between, permitted, ended⟩ := Effect.andThen_eq_ok_iff.mp succeeded
          cases ended
          obtain ⟨rfl, contents, found, fresh⟩ := of_allowed_eq_ok permitted
          simp only [expanded, found, Option.map_some]
          exact ⟨trivial, trivial, fresh, trivial⟩
  | _ =>
      simp only [Effect.ofLine, shape] at succeeded ⊢
      exact succeeded

/-- What a step can do while a line is left: the line fails, it takes effect, or it takes effect but
for the file that it includes, and that is entered. -/
theorem step_of_line (reader : Reader) (chain : List Path) (file : Path) (listed : Bool)
    (open? : Option Definition) (line : LogicalLine) (rest : List LogicalLine)
    (below : List Sheet) (database : Database) :
    let stepped := reader.step ⟨⟨file, listed, open?, line :: rest⟩ :: below, chain, database, none⟩
    let effect := Effect.ofLine reader.base? (reader.included chain) file open? line database
    (∃ failure later, effect = (.error failure, later) ∧
      stepped = some ⟨⟨file, listed, open?, rest⟩ :: below, chain, later, some failure⟩) ∨
    (∃ next later, effect = (.ok next, later) ∧
      stepped = some ⟨⟨file, listed, next, rest⟩ :: below, chain, later, none⟩) ∨
    (∃ path contents later, reader.files.lookup path = some contents ∧
      ¬ isReading chain path = true ∧
      effect = ((Effect.ofContents reader.base? (reader.included (path :: chain)) path
        contents).andThen fun _ => .pure none) later ∧
      stepped = some (Moment.enter ⟨⟨file, listed, none, rest⟩ :: below, chain, later, none⟩ path
        contents)) := by
  intro stepped effect
  cases tried : Effect.ofLine reader.base? (reader.allowed chain) file open? line database with
  | mk result later =>
      cases result with
      | error failure =>
          left
          have failed := (Effect.of_ofLine_eq_error
            (fun _ _ _ _ _ refused => of_allowed_eq_error refused) tried).1
          exact ⟨failure, later, failed, step_of_refused tried listed rest below⟩
      | ok next =>
          right
          have whole := of_ofLine_allowed tried
          cases includes : reader.inclusion? line later with
          | none =>
              left
              rw [includes] at whole
              exact ⟨next, later, whole, step_of_plain tried includes listed rest below⟩
          | some inclusion =>
              right
              obtain ⟨path, contents⟩ := inclusion
              rw [includes] at whole
              obtain ⟨rfl, found, fresh, whole⟩ := whole
              rw [included_of_found found fresh] at whole
              exact ⟨path, contents, later, found, fresh, whole,
                step_of_inclusion tried includes listed rest below⟩

private theorem steps_of_enter {path : Path} (onLines : ReadsLines reader (path :: chain))
    (sheets : List Sheet) (database : Database) (contents : Contents) :
    Steps reader (Moment.enter ⟨sheets, chain, database, none⟩ path contents)
      (.ended sheets chain
        (Effect.ofContents reader.base? (reader.included (path :: chain)) path contents
          database)) := by
  cases contents with
  | directory | binary => exact .refl
  | text text => exact onLines path true none _ sheets database

private theorem readsLines (reader : Reader) (chain : List Path) : ReadsLines reader chain := by
  induction chain using chain_induction reader with
  | step chain longer =>
      intro file listed open? lines below database
      induction lines generalizing open? database with
      | nil => exact .single rfl
      | cons line rest inductionHypothesis =>
          rw [Effect.ofLines, Effect.andThen]
          rcases reader.step_of_line chain file listed open? line rest below database with
            ⟨failure, later, effect, stepped⟩ | ⟨next, later, effect, stepped⟩ |
              ⟨path, contents, between, found, fresh, effect, stepped⟩
          · rw [effect]
            exact .head stepped (.single rfl)
          · rw [effect]
            exact .head stepped (inductionHypothesis next later)
          · have entered := steps_of_enter (longer path contents found fresh)
              (⟨file, listed, none, rest⟩ :: below) between contents
            rw [effect, Effect.andThen]
            cases inner : Effect.ofContents reader.base? (reader.included (path :: chain)) path
                contents between with
            | mk outcome later =>
                rw [inner] at entered
                cases outcome with
                | error failure => exact .head stepped (entered.tail rfl)
                | ok value => exact .head stepped (entered.trans (inductionHypothesis none later))

theorem steps_of_start (reader : Reader) (source : Source) (database : Database) :
    Steps reader (reader.start source database)
      (.ended [] [] (reader.ofSource source database)) := by
  cases source with
  | makefile path =>
      simp only [start, ofSource]
      cases reader.files.lookup path with
      | none => exact .refl
      | some contents => exact steps_of_enter (reader.readsLines [path]) [] database contents
  | text name _ | lines name _ => exact reader.readsLines [] name false none _ [] database

/-! ### The walk ends -/

private theorem exists_ended (reader : Reader) (moment : Moment) :
    ∃ last, Steps reader moment last ∧ last.sheets = [] := by
  obtain ⟨sheets, chain, database, failure?⟩ := moment
  induction sheets generalizing chain database failure? with
  | nil => exact ⟨_, .refl, rfl⟩
  | cons top below inductionHypothesis =>
      cases failure? with
      | some failure =>
          obtain ⟨last, further, empty⟩ :=
            inductionHypothesis (chainAfter top.listed chain) database (some failure)
          exact ⟨last, .head rfl further, empty⟩
      | none =>
          have first :=
            reader.readsLines chain top.file top.listed top.open? top.lines below database
          generalize Effect.ofLines reader.base? (reader.included chain) top.file top.open?
            top.lines database = outcome at first
          obtain ⟨result, later⟩ := outcome
          cases result with
          | error failure =>
              obtain ⟨last, further, empty⟩ := inductionHypothesis _ later (some failure)
              exact ⟨last, first.trans further, empty⟩
          | ok value =>
              obtain ⟨last, further, empty⟩ := inductionHypothesis _ later none
              exact ⟨last, first.trans further, empty⟩

private theorem step_of_empty {moment : Moment} (empty : moment.sheets = []) :
    reader.step moment = none := by
  obtain ⟨sheets, chain, database, failure?⟩ := moment
  cases empty
  rfl

theorem step_wellFounded (reader : Reader) :
    WellFounded fun later earlier : Moment => reader.step earlier = some later := by
  constructor
  intro moment
  obtain ⟨last, steps, empty⟩ := reader.exists_ended moment
  induction steps using Relation.ReflTransGen.head_induction_on with
  | refl =>
      constructor
      intro later stepped
      rw [step_of_empty empty] at stepped
      cases stepped
  | head stepped _ accessible =>
      constructor
      intro later again
      rw [stepped] at again
      cases again
      exact accessible

/-- A step leaves the innermost file, or changes what is open and what is left of it, or enters a
file that is not being read. What these keep is kept by a step. -/
theorem step_keeps {kept : Moment → Prop}
    (leave : ∀ top below chain database failure? later,
      kept ⟨top :: below, chain, database, failure?⟩ →
        kept ⟨below, chainAfter top.listed chain, later, failure?⟩)
    (move : ∀ file listed open? lines below chain database,
      kept ⟨⟨file, listed, open?, lines⟩ :: below, chain, database, none⟩ →
        ∀ next? rest later failure?,
          kept ⟨⟨file, listed, next?, rest⟩ :: below, chain, later, failure?⟩)
    (enter : ∀ moment path contents, reader.files.lookup path = some contents →
      ¬ isReading moment.chain path = true → kept moment → kept (moment.enter path contents))
    {earlier later : Moment} (holds : kept earlier) (stepped : reader.step earlier = some later) :
    kept later := by
  obtain ⟨sheets, chain, database, failure?⟩ := earlier
  cases sheets with
  | nil => cases stepped
  | cons top below =>
      obtain ⟨file, listed, open?, lines⟩ := top
      cases failure? with
      | some failure =>
          cases stepped
          exact leave _ _ _ _ _ _ holds
      | none =>
          cases lines with
          | nil =>
              cases stepped
              exact leave _ _ _ _ _ _ holds
          | cons line rest =>
              have moved := move _ _ _ _ _ _ _ holds
              obtain ⟨_, between, -, isNext⟩ | ⟨next, between, -, isNext⟩ |
                  ⟨path, contents, between, found, fresh, -, isNext⟩ :=
                reader.step_of_line chain file listed open? line rest below database
              · cases isNext.symm.trans stepped
                exact moved open? rest between _
              · cases isNext.symm.trans stepped
                exact moved next rest between none
              · cases isNext.symm.trans stepped
                exact enter _ path contents found fresh (moved none rest between none)

/-- The chain holds the files on the stack, each of which is there, and no two that are the same. -/
structure Moment.Nested (reader : Reader) (moment : Moment) : Prop where
  listed : moment.chain = (moment.sheets.filter Sheet.listed).map Sheet.file
  distinct : (moment.chain.map Path.components).Nodup
  known : ∀ path ∈ moment.chain, (reader.files.lookup path).isSome

private theorem Moment.Nested.leave {top : Sheet} {below : List Sheet} {database : Database}
    {failure? : Option ReadError}
    (nested : Moment.Nested reader ⟨top :: below, chain, database, failure?⟩) (later : Database) :
    Moment.Nested reader ⟨below, chainAfter top.listed chain, later, failure?⟩ := by
  obtain ⟨listed, distinct, known⟩ := nested
  dsimp only at listed distinct known
  unfold chainAfter
  cases onChain : top.listed with
  | false =>
      rw [List.filter_cons_of_neg (by rw [onChain]; exact Bool.false_ne_true)] at listed
      exact ⟨listed, distinct, known⟩
  | true =>
      rw [List.filter_cons_of_pos onChain, List.map_cons] at listed
      subst listed
      rw [List.map_cons] at distinct
      exact ⟨rfl, (List.nodup_cons.mp distinct).2, fun path member =>
        known path (List.mem_cons_of_mem _ member)⟩

private theorem Moment.Nested.enter {moment : Moment} (nested : moment.Nested reader)
    {path : Path} {contents : Contents} (found : reader.files.lookup path = some contents)
    (fresh : ¬ isReading moment.chain path = true) :
    (moment.enter path contents).Nested reader := by
  obtain ⟨listed, distinct, known⟩ := nested
  cases contents with
  | directory | binary => exact ⟨listed, distinct, known⟩
  | text text =>
      constructor
      · exact congrArg (path :: ·) listed
      · refine List.nodup_cons.mpr ⟨?_, distinct⟩
        simpa [isReading] using fresh
      · intro other member
        rcases List.mem_cons.mp member with same | older
        · rw [same, found]
          rfl
        · exact known other older

private theorem nested_step {earlier later : Moment} (nested : earlier.Nested reader)
    (stepped : reader.step earlier = some later) : later.Nested reader := by
  apply step_keeps _ _ _ nested stepped
  · intro top below chain database failure? later nested
    exact nested.leave later
  · intro file listed open? lines below chain database nested next? rest later failure?
    refine ⟨?_, nested.distinct, nested.known⟩
    have before := nested.listed
    cases listed <;> exact before
  · intro moment path contents found fresh nested
    exact nested.enter found fresh

theorem nested_start (reader : Reader) (source : Source) (database : Database) :
    (reader.start source database).Nested reader := by
  have outside : Moment.Nested reader ⟨[], [], database, none⟩ := by
    refine ⟨rfl, List.nodup_nil, ?_⟩
    intro path member
    cases member
  cases source with
  | makefile path =>
      simp only [start]
      cases found : reader.files.lookup path with
      | none => exact ⟨rfl, outside.distinct, outside.known⟩
      | some contents =>
          refine outside.enter found ?_
          exact Bool.false_ne_true
  | text name _ | lines name _ => exact ⟨rfl, outside.distinct, outside.known⟩

private theorem nested_steps {earlier later : Moment} (nested : earlier.Nested reader)
    (steps : Steps reader earlier later) : later.Nested reader := by
  induction steps with
  | refl => exact nested
  | tail _ stepped inductionHypothesis => exact nested_step inductionHypothesis stepped

private theorem Moment.Nested.length_chain_le {moment : Moment} (nested : moment.Nested reader)
    {known : List (List String)}
    (covers : ∀ path, (reader.files.lookup path).isSome → path.components ∈ known) :
    moment.chain.length ≤ known.length := by
  have inKnown : moment.chain.map Path.components ⊆ known := by
    intro components member
    obtain ⟨path, onChain, rfl⟩ := List.mem_map.mp member
    exact covers path (nested.known path onChain)
  have bounded := nested.distinct.length_le_of_subset inKnown
  rwa [List.length_map] at bounded

/-! ### Which inclusions are refused -/

private theorem isReading_iff {path : Path} :
    isReading chain path = true ↔ ∃ file ∈ chain, file.components = path.components := by
  rw [isReading, decide_eq_true_iff, List.mem_map]

private theorem allowed_of_found {path : Path} {contents : Contents}
    (found : reader.files.lookup path = some contents) (location : Location) (database : Database) :
    reader.allowed chain location path database =
      if isReading chain path = true then (.error (.inclusionCycle path location), database)
      else (.ok (), database) := by
  unfold allowed allow
  rw [found]
  dsimp only
  split <;> rfl

section

variable {file : Path} {listed : Bool} {open? : Option Definition} {line : LogicalLine}
  {rest : List LogicalLine} {below : List Sheet} {database : Database}
  {operand expansion : String} {path : Path} {contents : Contents}

theorem ofLine_allowed_of_found (shape : Line.ofString line.text = .inclusion operand)
    (expanded : database.global.expand operand = .ok expansion)
    (resolved : Path.resolveIn reader.base? ⟨Text.trimmed expansion⟩ = path)
    (found : reader.files.lookup path = some contents) (chain : List Path) (file : Path)
    (open? : Option Definition) :
    Effect.ofLine reader.base? (reader.allowed chain) file open? line database =
      if isReading chain path = true then
        (.error (.inclusionCycle path ⟨file, line.number⟩), database.closed open?)
      else (.ok none, database.closed open?) := by
  have afterClose : (database.closed open?).global.expand operand = .ok expansion := expanded
  simp only [Effect.ofLine, shape, Effect.close_andThen, Effect.expand_andThen, afterClose,
    resolved]
  rw [Effect.andThen, allowed_of_found found]
  by_cases reading : isReading chain path = true
  · rw [if_pos reading, if_pos reading]
  · rw [if_neg reading, if_neg reading]
    rfl

theorem step_of_fresh (shape : Line.ofString line.text = .inclusion operand)
    (expanded : database.global.expand operand = .ok expansion)
    (resolved : Path.resolveIn reader.base? ⟨Text.trimmed expansion⟩ = path)
    (found : reader.files.lookup path = some contents) (fresh : ¬ isReading chain path = true) :
    reader.step ⟨⟨file, listed, open?, line :: rest⟩ :: below, chain, database, none⟩ =
      some (Moment.enter
        ⟨⟨file, listed, none, rest⟩ :: below, chain, database.closed open?, none⟩ path
        contents) := by
  have effect := ofLine_allowed_of_found shape expanded resolved found chain file open?
  rw [if_neg fresh] at effect
  have afterClose : (database.closed open?).global.expand operand = .ok expansion := expanded
  apply step_of_inclusion effect
  simp only [inclusion?, shape, afterClose, resolved, found, Option.map_some]

/-- Where there is something at the path that a line includes, the line fails as a cycle just when a
file on the chain has the same components. -/
theorem step_refuses_iff (shape : Line.ofString line.text = .inclusion operand)
    (expanded : database.global.expand operand = .ok expansion)
    (resolved : Path.resolveIn reader.base? ⟨Text.trimmed expansion⟩ = path)
    (found : reader.files.lookup path = some contents) :
    (∃ later,
      reader.step ⟨⟨file, listed, open?, line :: rest⟩ :: below, chain, database, none⟩ =
        some later ∧ later.failure? = some (.inclusionCycle path ⟨file, line.number⟩)) ↔
      ∃ other ∈ chain, other.components = path.components := by
  rw [← isReading_iff]
  by_cases reading : isReading chain path = true
  · have effect := ofLine_allowed_of_found shape expanded resolved found chain file open?
    rw [if_pos reading] at effect
    exact ⟨fun _ => reading, fun _ => ⟨_, step_of_refused effect listed rest below, rfl⟩⟩
  · constructor
    · rintro ⟨later, stepped, failed⟩
      rw [step_of_fresh shape expanded resolved found reading] at stepped
      cases stepped
      cases contents <;> cases failed
    · intro onChain
      exact absurd onChain reading

end

/-- Reading is a walk over a stack of files, of which every sequence of steps comes to an end: the
walk from a source ends with the result and the database of its reading and with no file on the
chain. At each of its moments the chain holds just the files on the stack, no two of them the same,
and so no more than there are paths that name something. A line that includes one of these paths is
refused as a cycle just when the path is the same as one on the chain. -/
theorem read_nests (reader : Reader) (source : Source) (workspace : Workspace) :
    let outcome := (reader.read source).run workspace
    let begun := reader.start source workspace.database
    (WellFounded fun later earlier : Moment => reader.step earlier = some later) ∧
    (∃ last, Steps reader begun last ∧ reader.step last = none ∧
      last = .ended [] [] (outcome.1, outcome.2.database)) ∧
    ∀ moment, Steps reader begun moment →
      moment.chain = (moment.sheets.filter Sheet.listed).map Sheet.file ∧
      (moment.chain.map Path.components).Nodup ∧
      (∀ known : List (List String),
        (∀ path, (reader.files.lookup path).isSome → path.components ∈ known) →
          moment.chain.length ≤ known.length) ∧
      ∀ file listed open? line rest below operand expansion,
        moment.sheets = ⟨file, listed, open?, line :: rest⟩ :: below → moment.failure? = none →
        Line.ofString line.text = .inclusion operand →
        moment.database.global.expand operand = .ok expansion →
        let path := Path.resolveIn reader.base? ⟨Text.trimmed expansion⟩
        (reader.files.lookup path).isSome →
          ((∃ later, reader.step moment = some later ∧
            later.failure? = some (.inclusionCycle path ⟨file, line.number⟩)) ↔
              ∃ other ∈ moment.chain, other.components = path.components) := by
  intro outcome begun
  refine ⟨reader.step_wellFounded, ?_, ?_⟩
  · have effect : (outcome.1, outcome.2.database) = _ := reader.does_read source workspace
    refine ⟨_, ?_, ?_, rfl⟩
    · rw [effect]
      exact reader.steps_of_start source workspace.database
    · apply step_of_empty
      cases outcome.1 <;> rfl
  · intro moment steps
    have nested := nested_steps (reader.nested_start source workspace.database) steps
    refine ⟨nested.listed, nested.distinct, fun known covers => nested.length_chain_le covers, ?_⟩
    intro file listed open? line rest below operand expansion onTop running shape expanded path
      named
    obtain ⟨contents, found⟩ := Option.isSome_iff_exists.mp named
    obtain ⟨sheets, chain, database, failure?⟩ := moment
    cases onTop
    cases running
    exact step_refuses_iff shape expanded rfl found

theorem read_nests_again :
    let files : FileSystem := .ofLookup fun path =>
      if path.text = "inc" then some (.text "")
      else if path.text = "Makefile" then some (.text "include inc\ninclude inc\ninclude Makefile")
      else none
    let reader : Reader := ⟨files, none⟩
    let makefile : List LogicalLine → Sheet := fun lines => ⟨⟨"Makefile"⟩, true, none, lines⟩
    let moment : Moment :=
      ⟨[makefile [⟨3, "include Makefile"⟩]], [⟨"Makefile"⟩], .empty false, none⟩
    Steps reader (reader.start (.makefile ⟨"Makefile"⟩) (.empty false)) moment ∧
      ∃ later, reader.step moment = some later ∧
        later.failure? = some (.inclusionCycle ⟨"Makefile"⟩ ⟨⟨"Makefile"⟩, 3⟩) := by
  intro files reader makefile moment
  have shape : Line.ofString "include inc" = .inclusion "inc" := by cbv
  have expanded : (Database.empty false).global.expand "inc" = .ok "inc" := by cbv
  have found : files.lookup ⟨"inc"⟩ = some (.text "") := by
    subst files
    cbv
  have fresh : ¬ isReading [⟨"Makefile"⟩] ⟨"inc"⟩ = true := by decide
  have resolved : Path.resolveIn reader.base? ⟨Text.trimmed "inc"⟩ = ⟨"inc"⟩ := by
    subst reader
    cbv
  have includes : ∀ number rest, Steps reader
      ⟨[makefile (⟨number, "include inc"⟩ :: rest)], [⟨"Makefile"⟩], .empty false, none⟩
      ⟨[makefile rest], [⟨"Makefile"⟩], .empty false, none⟩ := by
    intro number rest
    have enters : reader.step
        ⟨[makefile (⟨number, "include inc"⟩ :: rest)], [⟨"Makefile"⟩], .empty false, none⟩ =
        some ⟨[⟨⟨"inc"⟩, true, none, []⟩, makefile rest], [⟨"inc"⟩, ⟨"Makefile"⟩], .empty false,
          none⟩ :=
      step_of_fresh shape expanded resolved found fresh
    exact .head enters (.single rfl)
  have makefileFound : files.lookup ⟨"Makefile"⟩ =
      some (.text "include inc\ninclude inc\ninclude Makefile") := by
    subst files
    cbv
  have lines : LogicalLine.ofPhysical
      (Text.lines "include inc\ninclude inc\ninclude Makefile") =
      [⟨1, "include inc"⟩, ⟨2, "include inc"⟩, ⟨3, "include Makefile"⟩] := by cbv
  have begins : reader.start (.makefile ⟨"Makefile"⟩) (.empty false) =
      ⟨[makefile [⟨1, "include inc"⟩, ⟨2, "include inc"⟩, ⟨3, "include Makefile"⟩]],
        [⟨"Makefile"⟩], .empty false, none⟩ := by
    simp only [start, reader, makefileFound, Moment.enter, lines, makefile]
  have steps : Steps reader (reader.start (.makefile ⟨"Makefile"⟩) (.empty false)) moment := by
    rw [begins]
    exact (includes 1 _).trans (includes 2 _)
  obtain ⟨-, -, onMoments⟩ := reader.read_nests (.makefile ⟨"Makefile"⟩) (.empty false)
  obtain ⟨-, -, -, refused⟩ := onMoments moment steps
  have own : Line.ofString "include Makefile" = .inclusion "Makefile" := by cbv
  have ownExpanded : (Database.empty false).global.expand "Makefile" = .ok "Makefile" := by cbv
  have ownPath : Path.resolveIn reader.base? ⟨Text.trimmed "Makefile"⟩ = ⟨"Makefile"⟩ := by
    subst reader
    cbv
  have again := refused ⟨"Makefile"⟩ true none ⟨3, "include Makefile"⟩ [] [] "Makefile" "Makefile"
    rfl rfl own ownExpanded
  rw [ownPath] at again
  have named : (reader.files.lookup ⟨"Makefile"⟩).isSome = true :=
    Option.isSome_of_eq_some makefileFound
  exact ⟨steps, (again named).mpr ⟨_, List.mem_singleton_self _, rfl⟩⟩

end DryMake.Reader
