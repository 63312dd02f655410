import DryMake.Proofs.Reading.Protection
import DryMake.Proofs.Text.Trimming

/-!
The shape of what a database holds, however it came about. The names and dependencies of targets are
words of expansions, rules stand behind the tabs of lines that are not blank, and the two sides of a
conditional macro and the names that makefiles give to macros are trimmed. No line makes anything
else, no merging takes the shape away, and the environment brings in macros of its own origin alone.
-/

namespace DryMake

structure IsWord (text : String) : Prop where
  nonempty : text ≠ ""
  unbroken : ∀ c ∈ text.toList, Text.isBlank c = false

def IsTrimmed (text : String) : Prop :=
  Text.trimmed text = text

structure IsRule (rule : String) : Prop where
  inked : ∃ c ∈ rule.toList, Text.isBlank c = false
  unindented : rule.toList.head? ≠ some '\t'

structure IsKey (key : String) : Prop where
  trimmed : IsTrimmed key
  equalsFree : '=' ∉ key.toList

private theorem isWord_of_mem_words {text word : String} (member : word ∈ Text.words text) :
    IsWord word :=
  ⟨(Text.of_mem_words member).1, (Text.of_mem_words member).2⟩

private theorem isTrimmed_trim (text : List Char) : IsTrimmed (String.ofList (Text.trim text)) := by
  rw [IsTrimmed, Text.trimmed, String.toList_ofList, Text.trim_trim]

private theorem Line.ofOperator_ne_rule (line : List Char) (command : String) :
    ofOperator line ≠ .rule command := by
  intro shape
  unfold ofOperator at shape
  dsimp only at shape
  split at shape
  · cases shape
  · split at shape
    · cases shape
    · split at shape <;> cases shape
    · cases shape
    · cases shape
    · cases shape

theorem Line.ofChars_eq_rule_iff {line : List Char} {command : String} :
    ofChars line = .rule command ↔
      ∃ rest, line = '\t' :: rest ∧ Text.allBlank line = false ∧
        command = String.ofList (rest.dropWhile (· == '\t')) := by
  constructor
  · intro shape
    unfold ofChars at shape
    split at shape
    · cases shape
    · split at shape
      · cases shape
      · rename_i inked
        split at shape
        · cases shape
        · split at shape
          · cases shape
            exact ⟨_, rfl, Bool.eq_false_iff.mpr inked, rfl⟩
          · exact absurd shape (ofOperator_ne_rule _ _)
  · rintro ⟨rest, rfl, inked, rfl⟩
    unfold ofChars
    rw [inked]
    rfl

theorem isRule_of_ofString {line command : String} (shape : Line.ofString line = .rule command) :
    IsRule command := by
  obtain ⟨rest, characters, inked, rfl⟩ := Line.ofChars_eq_rule_iff.mp shape
  constructor
  · rw [Text.allBlank, characters, List.all_eq_false] at inked
    obtain ⟨c, member, ink⟩ := inked
    rw [Bool.not_eq_true] at ink
    have notTab : c ≠ '\t' := by
      rintro rfl
      exact absurd ink (by decide)
    have inRest : c ∈ rest := (List.mem_cons.mp member).resolve_left notTab
    rw [← List.takeWhile_append_dropWhile (p := (· == '\t')) (l := rest)] at inRest
    rw [String.toList_ofList]
    rcases List.mem_append.mp inRest with tab | behind
    · have isTab := List.mem_takeWhile_imp tab
      exact absurd (eq_of_beq isTab) notTab
    · exact ⟨c, behind, ink⟩
  · rw [String.toList_ofList]
    intro indented
    have stopped := List.head?_dropWhile_not (· == '\t') rest
    rw [indented] at stopped
    simp at stopped

private theorem sides_of_splitAssignment {assignment name value : String}
    (sides : Reader.splitAssignment assignment = some (name, value)) :
    IsKey name ∧ IsTrimmed value := by
  unfold Reader.splitAssignment at sides
  dsimp only at sides
  split at sides
  · obtain ⟨rfl, rfl⟩ := Prod.mk.inj (Option.some.inj sides)
    refine ⟨⟨isTrimmed_trim _, ?_⟩, isTrimmed_trim _⟩
    rw [String.toList_ofList]
    intro inName
    have before := List.mem_takeWhile_imp ((Text.trim_sublist _).subset inName)
    simp at before
  · cases sides

namespace Table

variable {Entry : Type}

def All (holds : String → Entry → Prop) (table : Table Entry) : Prop :=
  ∀ name entry, table.get? name = some entry → holds name entry

variable {holds : String → Entry → Prop}

private theorem all_empty : All holds .empty := by
  rintro _ _ ⟨⟩

private theorem All.upsert {table : Table Entry} (before : All holds table) {name : String}
    {change : Option Entry → Entry} (changed : holds name (change (table.get? name))) :
    All holds (table.upsert name change) := by
  intro other entry found
  by_cases same : other = name
  · subst same
    rw [get?_upsert_self] at found
    cases found
    exact changed
  · rw [get?_upsert_of_ne table same] at found
    exact before other entry found

private theorem names_insert_ne_nil (table : Table Entry) (name : String) (entry : Entry) :
    (table.insert name entry).names ≠ [] :=
  List.ne_nil_of_mem (mem_names_of_get? (table.get?_insert_self name entry))

end Table

structure Target.WellFormed (target : Target) : Prop where
  deps : ∀ dep ∈ target.deps, IsWord dep
  rules : ∀ rule ∈ target.rules, IsRule rule

structure Definition.WellFormed (definition : Definition) : Prop where
  names : ∀ name ∈ definition.names, IsWord name
  body : definition.body.WellFormed

def Plan.WellFormed (plan : Plan) : Prop :=
  plan.All fun name target => IsWord name ∧ target.WellFormed

structure ConditionalSet.WellFormed (known : ConditionalSet) : Prop where
  nonempty : known.names ≠ []
  entries : known.All fun key value => IsKey key ∧ IsTrimmed value

def ConditionalTable.WellFormed (conditionals : ConditionalTable) : Prop :=
  conditionals.All fun target known => IsWord target ∧ ConditionalSet.WellFormed known

/-- Names that come from a file are trimmed. Variables of the environment are called as they are. -/
def MacroTable.WellFormed (macros : MacroTable) : Prop :=
  macros.All fun name known => known.origin = .file → IsTrimmed name

structure Database.WellFormed (database : Database) : Prop where
  plan : database.plan.WellFormed
  conditionals : database.conditionals.WellFormed
  macros : database.macros.WellFormed

private theorem Database.wellFormed_empty (environmentWins : Bool) :
    (empty environmentWins).WellFormed :=
  ⟨Table.all_empty, Table.all_empty, Table.all_empty⟩

private theorem Target.WellFormed.extend {earlier later : Target} (before : earlier.WellFormed)
    (after : later.WellFormed) : (earlier.extend later).WellFormed := by
  constructor
  · exact List.forall_mem_append.mpr ⟨before.deps, after.deps⟩
  · exact List.forall_mem_append.mpr ⟨before.rules, after.rules⟩

private theorem Definition.WellFormed.addRule {definition : Definition}
    (before : definition.WellFormed) {rule : String} (isRule : IsRule rule) :
    (definition.addRule rule).WellFormed := by
  refine ⟨before.names, before.body.deps, ?_⟩
  exact List.forall_mem_append.mpr ⟨before.body.rules, List.forall_mem_singleton.mpr isRule⟩

private theorem Plan.WellFormed.commitName {plan : Plan} (before : plan.WellFormed) {name : String}
    (isWord : IsWord name) {body : Target} (added : body.WellFormed) :
    (plan.commitName name body).WellFormed := by
  refine Table.All.upsert before ⟨isWord, ?_⟩
  cases found : plan.get? name with
  | none => exact added
  | some known => exact (before name known found).2.extend added

private theorem Plan.WellFormed.commit {plan : Plan} (before : plan.WellFormed)
    {definition : Definition} (added : definition.WellFormed) :
    (plan.commit definition).WellFormed := by
  unfold Plan.commit
  refine List.foldlRecOn _ _ before ?_
  intro plan before name member
  exact before.commitName (added.names name member) added.body

private theorem ConditionalTable.WellFormed.assign {conditionals : ConditionalTable}
    (before : conditionals.WellFormed) {target key value : String} (isWord : IsWord target)
    (isKey : IsKey key) (trimmed : IsTrimmed value) :
    (conditionals.assign target key value).WellFormed := by
  have inSet : ((conditionals.get? target).getD .empty).All fun key value =>
      IsKey key ∧ IsTrimmed value := by
    cases found : conditionals.get? target with
    | none => exact Table.all_empty
    | some known => exact (before target known found).2.entries
  exact Table.All.upsert before
    ⟨isWord, Table.names_insert_ne_nil _ key value, inSet.upsert ⟨isKey, trimmed⟩⟩

private theorem MacroTable.WellFormed.revise {macros : MacroTable} (before : macros.WellFormed)
    (environmentWins : Bool) {name : String} (trimmed : IsTrimmed name)
    (change : Option String → String) : (macros.revise environmentWins name change).WellFormed := by
  unfold MacroTable.revise
  split
  · exact before
  · exact Table.All.upsert before fun _ => trimmed

private theorem wellFormed_invariant : Invariant Database.WellFormed Definition.WellFormed := by
  constructor
  case start =>
    intro names deps
    refine ⟨fun _ => isWord_of_mem_words, fun _ => isWord_of_mem_words, ?_⟩
    rintro _ ⟨⟩
  case addRule =>
    intro definition line command before shape
    exact before.addRule (isRule_of_ofString shape)
  case close =>
    intro database definition before added
    exact ⟨before.plan.commit added, before.conditionals, before.macros⟩
  case assignConditional =>
    intro database targets target assignment name value before isTarget sides
    obtain ⟨isKey, trimmed⟩ := sides_of_splitAssignment sides
    exact ⟨before.plan,
      before.conditionals.assign (isWord_of_mem_words isTarget) isKey trimmed, before.macros⟩
  case assign | append =>
    intro database name value before
    exact ⟨before.plan, before.conditionals,
      before.macros.revise _ (isTrimmed_trim name.toList) _⟩

private theorem Environment.wellFormed_importedInto (environment : Environment)
    {macros : MacroTable} (before : macros.WellFormed) :
    (environment.importedInto macros).WellFormed := by
  unfold importedInto
  refine List.foldlRecOn _ _ before ?_
  intro macros before entry _
  split
  · exact before
  · refine Table.All.upsert before ?_
    rintro ⟨⟩

/-- The databases to which readings and imports lead from an empty one, whatever is read or
imported, and whether a reading comes to its end or fails. -/
inductive Database.Arises : Database → Prop where
  | empty (environmentWins : Bool) : Arises (.empty environmentWins)
  | read (reader : Reader) (source : Reader.Source) {workspace : Workspace} :
      Arises workspace.database → Arises ((reader.read source).run workspace).2.database
  | imported (environment : Environment) {workspace : Workspace} :
      Arises workspace.database → Arises (environment.importAll.run workspace).2.database

/-- However a database comes about, what it holds has the shape that lines give to it. The names of
its targets, their dependencies and the targets of conditional macros are words; rules are not blank
and not indented by tabs; no conditional set is empty, and its names and values are trimmed, the
names without equals signs; and the names of macros from files are trimmed. -/
theorem Database.wellFormed_of_arises {database : Database} (arises : database.Arises) :
    (∀ name body, database.plan.get? name = some body →
      IsWord name ∧ (∀ dep ∈ body.deps, IsWord dep) ∧ ∀ rule ∈ body.rules, IsRule rule) ∧
    (∀ target known, database.conditionals.get? target = some known →
      IsWord target ∧ known.names ≠ [] ∧
        ∀ key value, known.get? key = some value →
          IsTrimmed key ∧ '=' ∉ key.toList ∧ IsTrimmed value) ∧
    (∀ name known, database.macros.get? name = some known → known.origin = .file →
      IsTrimmed name) := by
  have wellFormed : database.WellFormed := by
    induction arises with
    | empty environmentWins => exact wellFormed_empty environmentWins
    | read reader source _ before => exact wellFormed_invariant.holds_read reader source before
    | imported environment _ before =>
        rw [Environment.database_importAll]
        exact ⟨before.plan, before.conditionals,
          environment.wellFormed_importedInto before.macros⟩
  refine ⟨fun name body found => ?_, fun target known found => ?_, wellFormed.macros⟩
  · obtain ⟨isWord, isSound⟩ := wellFormed.plan name body found
    exact ⟨isWord, isSound.deps, isSound.rules⟩
  · obtain ⟨isWord, isSound⟩ := wellFormed.conditionals target known found
    refine ⟨isWord, isSound.nonempty, fun key value held => ?_⟩
    obtain ⟨isKey, trimmed⟩ := isSound.entries key value held
    exact ⟨isKey.trimmed, isKey.equalsFree, trimmed⟩

theorem Database.wellFormed_of_arises_failed :
    let reader : Reader := ⟨.ofLookup fun _ => none, none⟩
    let source : Reader.Source :=
      .lines ⟨"Makefile"⟩
        ["N = all", "$(N) := CC = cc -g ", "$(N):  a  b", "\t\tone \\", "\ttwo", "include more"]
    let imported := (Environment.importAll [(" X ", "x")]).run (.empty false)
    let outcome := (reader.read source).run imported.2
    outcome.1 = .error (.missingFile ⟨"more"⟩ (some ⟨⟨"Makefile"⟩, 6⟩)) ∧
      (∃ body, outcome.2.database.plan.get? "all" = some body ∧ body.deps = ["a", "b"] ∧
        body.rules = ["one two"] ∧ ∀ rule ∈ body.rules, IsRule rule) ∧
      (∃ known, outcome.2.database.conditionals.get? "all" = some known ∧
        known.entries = [("CC", "cc -g")] ∧ known.names ≠ []) ∧
      (outcome.2.database.macros.get? " X ").map Macro.origin = some .environment := by
  intro reader source imported outcome
  have arises : outcome.2.database.Arises := .read reader source (.imported _ (.empty false))
  obtain ⟨plan, conditionals, -⟩ := wellFormed_of_arises arises
  have computed :
      (outcome.1, outcome.2.database.plan.get? "all",
          (outcome.2.database.conditionals.get? "all").map Table.entries,
          (outcome.2.database.macros.get? " X ").map Macro.origin) =
        (.error (.missingFile ⟨"more"⟩ (some ⟨⟨"Makefile"⟩, 6⟩)),
          some ⟨["a", "b"], ["one two"]⟩, some [("CC", "cc -g")], some .environment) := by
    subst outcome imported source reader
    cbv
  simp only [Prod.mk.injEq] at computed
  obtain ⟨ended, target, ofAll, fromOutside⟩ := computed
  obtain ⟨known, found, entries⟩ := Option.map_eq_some_iff.mp ofAll
  exact ⟨ended, ⟨_, target, rfl, rfl, (plan "all" _ target).2.2⟩,
    ⟨known, found, entries, (conditionals "all" known found).2.1⟩, fromOutside⟩

end DryMake
