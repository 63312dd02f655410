import DryMake.Proofs.Reading.Move
import Mathlib

/-!
The plan as a merge of definitions. While a file is read, a definition stays open and gathers rules,
and joins the plan only when the next one begins; other lines run in between, and files are read in
other files. All this leaves the plan that comes of adding the definitions one after the other, in
the order in which their lines are read, each with the rules that stand below its line.
-/

namespace DryMake

namespace Definition

/-- What a definition says of a target: once for each time that it names the target. -/
def bodiesFor (name : String) (definition : Definition) : List Target :=
  List.replicate (definition.names.count name) definition.body

private theorem flatMap_bodiesFor (part : Target → List String) (name : String)
    (definitions : List Definition) :
    (definitions.flatMap (bodiesFor name)).flatMap part =
      definitions.flatMap fun definition =>
        (List.replicate (definition.names.count name) (part definition.body)).flatten := by
  rw [List.flatMap_assoc]
  congr 1
  funext definition
  rw [bodiesFor, List.flatMap_def, List.map_replicate]

def addRules (definition : Definition) (rules : List String) : Definition :=
  { definition with
    body := { definition.body with rules := definition.body.rules ++ rules } }

@[simp] theorem addRules_nil (definition : Definition) : definition.addRules [] = definition := by
  simp [addRules]

theorem addRules_cons (definition : Definition) (first : String) (rest : List String) :
    definition.addRules (first :: rest) = (definition.addRule first).addRules rest := by
  simp [addRules, addRule]

end Definition

namespace Plan

def described (plan : Plan) (name : String) : Target :=
  (plan.get? name).getD ⟨[], []⟩

private theorem described_commitName (plan : Plan) (name : String) (body : Target) :
    (plan.commitName name body).described name = (plan.described name).extend body := by
  unfold described
  rw [get?_commitName]
  cases plan.get? name <;> rfl

private theorem described_commitName_of_ne (plan : Plan) {name other : String}
    (different : other ≠ name) (body : Target) :
    (plan.commitName name body).described other = plan.described other := by
  unfold described
  rw [get?_commitName_of_ne plan different]

private theorem described_commit (plan : Plan) (definition : Definition) (name : String) :
    (plan.commit definition).described name =
      (definition.bodiesFor name).foldl Target.extend (plan.described name) := by
  obtain ⟨names, body⟩ := definition
  unfold commit Definition.bodiesFor
  induction names generalizing plan with
  | nil => rfl
  | cons first rest inductionHypothesis =>
      rw [List.foldl_cons, inductionHypothesis]
      by_cases same : name = first
      · subst same
        rw [described_commitName, List.count_cons_self, List.replicate_succ, List.foldl_cons]
      · rw [described_commitName_of_ne plan same, List.count_cons_of_ne (Ne.symm same)]

private theorem described_foldl_commit (plan : Plan) (definitions : List Definition)
    (name : String) :
    (definitions.foldl commit plan).described name =
      (definitions.flatMap (Definition.bodiesFor name)).foldl Target.extend
        (plan.described name) := by
  induction definitions generalizing plan with
  | nil => rfl
  | cons first rest inductionHypothesis =>
      rw [List.foldl_cons, inductionHypothesis, described_commit, List.flatMap_cons,
        List.foldl_append]

private theorem foldl_extend (target : Target) (bodies : List Target) :
    bodies.foldl Target.extend target =
      ⟨target.deps ++ bodies.flatMap Target.deps, target.rules ++ bodies.flatMap Target.rules⟩ := by
  induction bodies generalizing target with
  | nil => simp
  | cons first rest inductionHypothesis =>
      rw [List.foldl_cons, inductionHypothesis]
      simp [Target.extend]

private theorem names_commitName (plan : Plan) (name : String) (body : Target) :
    (plan.commitName name body).names =
      if name ∈ plan.names then plan.names else plan.names ++ [name] :=
  plan.names_upsert name _

private theorem foldl_insert_names (known names : List String) :
    names.foldl (fun known name => if name ∈ known then known else known ++ [name]) known =
      known ++ (names.filter (· ∉ known)).eraseDups := by
  induction names generalizing known with
  | nil => simp
  | cons first rest inductionHypothesis =>
      rw [List.foldl_cons, inductionHypothesis]
      by_cases old : first ∈ known
      · simp [old]
      · simp only [old, if_false, List.filter_cons, not_false_eq_true, decide_true, if_true,
          List.eraseDups_cons, List.filter_filter, List.append_assoc, List.singleton_append]
        congr 3
        apply List.filter_congr
        intro name _
        rw [Bool.eq_iff_iff]
        simp [and_comm]

private theorem names_foldl_commit (plan : Plan) (definitions : List Definition) :
    (definitions.foldl commit plan).names =
      plan.names ++
        ((definitions.flatMap Definition.names).filter (· ∉ plan.names)).eraseDups := by
  rw [← foldl_insert_names, List.foldl_flatMap]
  apply (List.foldl_hom Table.names _).symm
  intro between definition
  unfold commit
  apply List.foldl_hom Table.names
  intro before name
  exact (names_commitName before name definition.body).symm

end Plan

/-! ### The definitions among lines -/

def rulesBelow : List LogicalLine → List String
  | [] => []
  | line :: rest =>
      match Line.ofString line.text with
      | .rule command => command :: rulesBelow rest
      | .definition .. => []
      | .inclusion _ => []
      | _ => rulesBelow rest

namespace Effect

theorem plan_of_ofLine {base? : Option Path} {included : Location → Path → Effect Unit}
    {file : Path} {open? next : Option Definition} {line : LogicalLine} {database later : Database}
    (succeeded : ofLine base? included file open? line database = (.ok next, later)) :
    match Line.ofString line.text with
    | .rule command => next = open?.map (·.addRule command) ∧ later.plan = database.plan
    | .inclusion operand =>
        ∃ expansion, database.global.expand operand = .ok expansion ∧ next = none ∧
          included ⟨file, line.number⟩ (Path.resolveIn base? ⟨Text.trimmed expansion⟩)
            (database.closed open?) = (.ok (), later)
    | .definition targets deps =>
        ∃ names prerequisites, database.global.expand targets = .ok names ∧
          database.global.expand deps = .ok prerequisites ∧
          next = some (.start (Text.words names) (Text.words prerequisites)) ∧
          later = database.closed open?
    | _ => next = open? ∧ later.plan = database.plan := by
  obtain ⟨action, move⟩ := exists_move base? file open? line database
  rw [move.ofLine_eq] at succeeded
  cases move with
  | @idle kind shape idle =>
      cases succeeded
      rw [shape]
      cases kind with
      | blank | comment | unknown => exact ⟨rfl, rfl⟩
      | _ => cases idle
  | rule shape isOpen =>
      cases succeeded
      rw [shape, isOpen]
      exact ⟨rfl, rfl⟩
  | inclusion shape expanded =>
      have entering : ((included _ _).andThen fun _ => pure none) (database.closed open?) =
          (.ok next, later) := succeeded
      obtain ⟨_, between, entered, ended⟩ := andThen_eq_ok_iff.mp entering
      cases ended
      rw [shape]
      exact ⟨_, expanded, rfl, entered⟩
  | definition shape expandedTargets expandedDeps =>
      cases succeeded
      rw [shape]
      exact ⟨_, _, expandedTargets, expandedDeps, rfl, rfl⟩
  | conditional shape | append shape | assign shape | commentedOut shape =>
      cases succeeded
      rw [shape]
      exact ⟨rfl, rfl⟩
  | strayRule | malformed | unexpanded => cases succeeded

end Effect

private theorem Database.plan_closed (database : Database) (open? : Option Definition) :
    (database.closed open?).plan = open?.toList.foldl Plan.commit database.plan := by
  cases open? <;> rfl

namespace Reader

def wordsIn (database : Database) (side : String) : List String :=
  match database.global.expand side with
  | .ok expansion => Text.words expansion
  | .error _ => []

/-- The definitions that are read from here on in a file, in order, where `within` gives those of a
file that a line names. A definition has the words of its sides by the macros as they are when its
line is read, and the rules below its line. -/
def definitionsFrom (reader : Reader) (chain : List Path)
    (within : Path → Database → List Definition) (file : Path) :
    Option Definition → List LogicalLine → Database → List Definition
  | _, [], _ => []
  | open?, line :: rest, database =>
      (match Line.ofString line.text with
        | .definition targets deps =>
            [⟨wordsIn database targets, ⟨wordsIn database deps, rulesBelow rest⟩⟩]
        | .inclusion operand =>
            match database.global.expand operand with
            | .ok expansion =>
                within (Path.resolveIn reader.base? ⟨Text.trimmed expansion⟩)
                  (database.closed open?)
            | .error _ => []
        | _ => []) ++
      match effectOf (reader.apply (reader.readIncluded chain) file open? line) database with
      | (.ok next, later) => reader.definitionsFrom chain within file next rest later
      | (.error _, _) => []

def definitionsOfContents (reader : Reader) (chain : List Path)
    (within : Path → Database → List Definition) (path : Path) (contents : Contents)
    (database : Database) : List Definition :=
  match contents with
  | .directory => []
  | .binary => []
  | .text text =>
      reader.definitionsFrom chain within path none (LogicalLine.ofPhysical (Text.lines text))
        database

def includedDefinitions (reader : Reader) (chain : List Path) (path : Path)
    (database : Database) : List Definition :=
  match _found : reader.files.lookup path with
  | none => []
  | some contents =>
      if _reading : isReading chain path then []
      else
        reader.definitionsOfContents (path :: chain)
          (fun next between => reader.includedDefinitions (path :: chain) next between) path
          contents database
termination_by reader.remaining chain
decreasing_by exact remaining_cons_lt _found _reading

inductive Source where
  | makefile (path : Path)
  | text (name : Path) (text : String)
  | lines (name : Path) (lines : List String)

def read (reader : Reader) : Source → Reading Unit
  | .makefile path => reader.readMakefile path
  | .text name text => reader.readText name text
  | .lines name lines => reader.readLines name lines

def ofSource (reader : Reader) : Source → Effect Unit
  | .makefile path =>
      match reader.files.lookup path with
      | none => .fail (.missingFile path none)
      | some contents => .ofContents reader.base? (reader.included [path]) path contents
  | .text name text =>
      .ofLines reader.base? (reader.included []) name none (LogicalLine.ofPhysical (Text.lines text))
  | .lines name lines =>
      .ofLines reader.base? (reader.included []) name none (LogicalLine.ofPhysical lines)

theorem does_read (reader : Reader) (source : Source) :
    Does (reader.read source) (reader.ofSource source) := by
  cases source with
  | makefile path =>
      simp only [read, readMakefile, ofSource]
      cases reader.files.lookup path with
      | none => exact does_throw _
      | some contents => exact does_readContents (reader.does_readIncluded [path]) path contents
  | text name _ | lines name _ => exact reader.does_readPhysicalLines [] name _

def definitionsOfLines (reader : Reader) (name : Path) (lines : List String) :
    Database → List Definition :=
  reader.definitionsFrom [] (reader.includedDefinitions []) name none (LogicalLine.ofPhysical lines)

def definitionsOf (reader : Reader) : Source → Database → List Definition
  | .makefile path =>
      match reader.files.lookup path with
      | none => fun _ => []
      | some contents =>
          reader.definitionsOfContents [path] (reader.includedDefinitions [path]) path contents
  | .text name text => reader.definitionsOfLines name (Text.lines text)
  | .lines name lines => reader.definitionsOfLines name lines

/-! ### What readings add to the plan -/

/-- The definitions that an effect adds to the plan whenever it comes to its end. -/
def Adds (effect : Effect Unit) (definitions : Database → List Definition) : Prop :=
  ∀ database later, effect database = (.ok (), later) →
    later.plan = (definitions database).foldl Plan.commit database.plan

variable {reader : Reader} {chain : List Path} {within : Path → Database → List Definition}

private theorem adds_ofLines
    (included : ∀ location path, Adds (reader.included chain location path) (within path))
    (file : Path) (open? : Option Definition) (lines : List LogicalLine) :
    Adds (.ofLines reader.base? (reader.included chain) file open? lines) fun database =>
      (open?.map (·.addRules (rulesBelow lines))).toList ++
        reader.definitionsFrom chain within file open? lines database := by
  intro database later succeeded
  induction lines generalizing open? database with
  | nil =>
      cases succeeded
      simp [rulesBelow, definitionsFrom, Database.plan_closed]
  | cons line rest inductionHypothesis =>
      obtain ⟨next, between, first, further⟩ := Effect.andThen_eq_ok_iff.mp succeeded
      have onRest := inductionHypothesis next between further
      have step := Effect.plan_of_ofLine first
      dsimp only at onRest ⊢
      rw [definitionsFrom, effectOf_apply, first]
      split at step
      · rename_i command shape
        obtain ⟨rfl, same⟩ := step
        rw [onRest, same]
        simp [shape, rulesBelow, Definition.addRules_cons, Function.comp_def]
      · rename_i operand shape
        obtain ⟨expansion, expanded, rfl, entered⟩ := step
        rw [onRest, included _ _ _ _ entered]
        simp [shape, rulesBelow, expanded, Database.plan_closed]
      · rename_i targets deps shape
        obtain ⟨names, prerequisites, expandedNames, expandedDeps, rfl, rfl⟩ := step
        rw [onRest]
        simp [shape, rulesBelow, wordsIn, expandedNames, expandedDeps, Database.plan_closed,
          Definition.start, Definition.addRules]
      · obtain ⟨rfl, same⟩ := step
        rw [onRest, same]
        simp [rulesBelow]

private theorem adds_ofContents
    (included : ∀ location path, Adds (reader.included chain location path) (within path))
    (path : Path) (contents : Contents) :
    Adds (.ofContents reader.base? (reader.included chain) path contents)
      (reader.definitionsOfContents chain within path contents) := by
  cases contents with
  | directory | binary =>
      intro database later succeeded
      cases succeeded
  | text text => exact adds_ofLines included path none _

private theorem adds_included (reader : Reader) (chain : List Path) :
    ∀ location path,
      Adds (reader.included chain location path) (reader.includedDefinitions chain path) := by
  induction chain using chain_induction reader with
  | step chain longer =>
      intro location path database later succeeded
      rw [includedDefinitions]
      split
      · rename_i missing
        rw [included, readIncluded_of_missing missing] at succeeded
        cases succeeded
      · rename_i contents found
        split
        · rename_i reading
          rw [included, readIncluded_of_isReading found reading] at succeeded
          cases succeeded
        · rename_i fresh
          rw [included_of_found found fresh] at succeeded
          exact adds_ofContents (longer path contents found fresh) path contents database later
            succeeded

private theorem adds_ofSource (reader : Reader) (source : Source) :
    Adds (reader.ofSource source) (reader.definitionsOf source) := by
  cases source with
  | makefile path =>
      simp only [ofSource, definitionsOf]
      cases reader.files.lookup path with
      | none =>
          intro database later succeeded
          cases succeeded
      | some contents => exact adds_ofContents (reader.adds_included [path]) path contents
  | text name _ | lines name _ => exact adds_ofLines (reader.adds_included []) name none _

private theorem plan_of_finished {source : Source} {workspace later : Workspace}
    (finished : (reader.read source).run workspace = (.ok (), later)) :
    later.database.plan =
      (reader.definitionsOf source workspace.database).foldl Plan.commit
        workspace.database.plan := by
  have ended := reader.does_read source workspace
  rw [finished] at ended
  exact reader.adds_ofSource source workspace.database later.database ended.symm

/-- A reading that comes to its end leaves the merge of the plan before it and the definitions that
it read. A target has its dependencies and rules from before, then those of each definition in turn,
once for each time that the definition names it. New targets come after those from before, each where
it is first named. -/
theorem plan_of_read (reader : Reader) (source : Source) {workspace later : Workspace}
    (finished : (reader.read source).run workspace = (.ok (), later)) :
    let definitions := reader.definitionsOf source workspace.database
    let old := workspace.database.plan
    let new := later.database.plan
    (∀ name, (new.described name).deps = (old.described name).deps ++
      definitions.flatMap fun definition =>
        (List.replicate (definition.names.count name) definition.body.deps).flatten) ∧
    (∀ name, (new.described name).rules = (old.described name).rules ++
      definitions.flatMap fun definition =>
        (List.replicate (definition.names.count name) definition.body.rules).flatten) ∧
    (∀ name, new.contains name = true ↔
      old.contains name = true ∨ ∃ definition ∈ definitions, name ∈ definition.names) ∧
    new.names =
      old.names ++ ((definitions.flatMap Definition.names).filter (· ∉ old.names)).eraseDups := by
  intro definitions old new
  have merged : new = definitions.foldl Plan.commit old := plan_of_finished finished
  have names : new.names =
      old.names ++ ((definitions.flatMap Definition.names).filter (· ∉ old.names)).eraseDups := by
    rw [merged, Plan.names_foldl_commit]
  refine ⟨fun name => ?_, fun name => ?_, fun name => ?_, names⟩
  · rw [merged, Plan.described_foldl_commit, Plan.foldl_extend,
      Definition.flatMap_bodiesFor Target.deps]
  · rw [merged, Plan.described_foldl_commit, Plan.foldl_extend,
      Definition.flatMap_bodiesFor Target.rules]
  · unfold Table.contains
    rw [Table.isSome_get?_iff, Table.isSome_get?_iff, names, List.mem_append, List.mem_eraseDups,
      List.mem_filter, List.mem_flatMap, decide_eq_true_iff]
    by_cases known : name ∈ old.names
    · simp [known]
    · simp [known]

/-- A target that is named twice on a line and once more below has its dependencies three times, by
the macros of the two lines. -/
theorem plan_of_read_repeated :
    let reader : Reader := ⟨.ofLookup fun _ => none, none⟩
    let source : Source :=
      .lines ⟨"Makefile"⟩ ["M = x", "all all: $(M)", "\tone \\", "two", "M = y", "b all: $(M)"]
    ((reader.read source).run (.empty false)).1 = .ok () ∧
      (((reader.read source).run (.empty false)).2.database.plan.described "all").deps =
        ["x", "x", "y"] ∧
      (((reader.read source).run (.empty false)).2.database.plan.described "all").rules =
        ["one two", "one two"] ∧
      ((reader.read source).run (.empty false)).2.database.plan.names = ["all", "b"] := by
  intro reader source
  have ended : ((reader.read source).run (.empty false)).1 = .ok () := by
    subst source reader
    cbv
  have definitions : reader.definitionsOf source (Workspace.empty false).database =
      [⟨["all", "all"], ⟨["x"], ["one two"]⟩⟩, ⟨["b", "all"], ⟨["y"], []⟩⟩] := by
    subst source reader
    cbv
  obtain ⟨deps, rules, -, names⟩ := plan_of_read reader source (Prod.ext ended rfl)
  rw [definitions] at deps rules names
  exact ⟨ended, deps "all", rules "all", names⟩

end Reader

end DryMake
