import DryMake.Proofs.Database.Written
import DryMake.Proofs.Expansion.Correspondence
import DryMake.Proofs.Reading.Merge

/-!
The written form of a database, read again. Each of its lines does to the database what it was
written for, so the three sections fill empty tables with the sorted entries, one after the other.
-/

namespace DryMake

namespace Expansion

private theorem Bindings.expand_of_literal (bindings : Bindings) {text : String}
    (literal : ∀ c ∈ text.toList, c ≠ '$' ∧ c ≠ '\\') : bindings.expand text = .ok text := by
  have onRest : ∀ rest : List Char, (∀ c ∈ rest, c ≠ '$' ∧ c ≠ '\\') →
      bindings.evaluateRest [] text rest = .ok (String.ofList rest) := by
    intro rest literalRest
    induction rest with
    | nil => exact evaluateRest_of_finished rfl
    | cons c rest inductionHypothesis =>
        obtain ⟨⟨notDollar, notBackslash⟩, onOthers⟩ := List.forall_mem_cons.mp literalRest
        rw [evaluateRest_of_text (scan_cons_of_literal notDollar notBackslash rest) rfl,
          inductionHypothesis onOthers]
        exact congrArg Except.ok String.ofList_append.symm
  rw [expand_eq_evaluateRest, onRest _ literal, String.ofList_toList]

end Expansion

namespace Effect

/-- Lines with these texts lead from one state of a file being read to another, wherever they stand
and whatever stands below them. -/
def Passes (texts : List String) (open? : Option Definition) (database : Database)
    (next : Option Definition) (later : Database) : Prop :=
  ∀ base? included file number below,
    ofLines base? included file open? (LogicalLine.join number none (texts ++ below)) database =
      ofLines base? included file next (LogicalLine.join (number + texts.length) none below) later

private theorem passes_nil (open? : Option Definition) (database : Database) :
    Passes [] open? database open? database :=
  fun _ _ _ _ _ => rfl

theorem Passes.append {before after : List String} {open? between? next : Option Definition}
    {database between later : Database} (first : Passes before open? database between? between)
    (second : Passes after between? between next later) :
    Passes (before ++ after) open? database next later := by
  intro base? included file number below
  rw [List.append_assoc, first, second, List.length_append, Nat.add_assoc]

private theorem passes_singleton {line : String} (alone : StandsAlone line)
    {open? next : Option Definition} {database later : Database}
    (does : ∀ base? included file number,
      ofLine base? included file open? ⟨number, line⟩ database = (.ok next, later)) :
    Passes [line] open? database next later := by
  intro base? included file number below
  rw [List.singleton_append, LogicalLine.join_of_continued?_eq_none alone.ends]
  rw [ofLines, andThen, does]
  rfl

private theorem passes_empty (open? : Option Definition) (database : Database) :
    Passes [""] open? database open? database :=
  passes_singleton standsAlone_empty fun _ _ _ _ => rfl

private theorem passes_macroLine {name value : String} (plain : IsPlainName name)
    (plainValue : IsPlainValue value) (open? : Option Definition) (database : Database) :
    Passes [macroLine name value] open? database open?
      { database with macros := database.macros.assign database.environmentWins name value } := by
  refine passes_singleton (standsAlone_macroLine plain plainValue)
    fun base? included file number => ?_
  have trimmedName : Text.trimmed name = name := by
    rw [Text.trimmed, Text.trim_of_forall_not_blank plain.unbroken, String.ofList_toList]
  simp only [ofLine, Line.ofString_macroLine plain plainValue, expand_andThen,
    Expansion.Bindings.expand_of_literal _ plain.literal, trimmedName, if_neg plain.notComment]
  rfl

private theorem passes_conditionalLine {target key value : String} (plain : IsPlainName target)
    (notInclude : target ≠ "include") (plainKey : IsPlainKey key) (plainValue : IsPlainValue value)
    (open? : Option Definition) (database : Database) :
    Passes [conditionalLine target key value] open? database open?
      { database with conditionals := database.conditionals.assign target key value } := by
  refine passes_singleton (standsAlone_conditionalLine plain plainKey plainValue)
    fun base? included file number => ?_
  have literal : ∀ c ∈ (target ++ " ").toList, c ≠ '$' ∧ c ≠ '\\' := by
    intro c member
    rw [String.toList_append] at member
    rcases List.mem_append.mp member with inTarget | isBlank
    · exact plain.literal c inTarget
    · rw [List.mem_singleton.mp isBlank]
      decide
  have oneWord : Text.words (target ++ " ") = [target] := by
    have words := Text.words_append_blank plain.nonempty plain.unbroken ""
    rwa [String.append_empty] at words
  simp only [ofLine, Line.ofString_conditionalLine plain notInclude,
    Reader.splitAssignment_trim plainKey plainValue, expand_andThen,
    Expansion.Bindings.expand_of_literal _ literal, oneWord]
  rfl

theorem passes_targetLine {name : String} {deps : List String} (plain : IsPlainName name)
    (plainDeps : ∀ dep ∈ deps, IsPlainDep dep) (open? : Option Definition) (database : Database) :
    Passes [targetLine name deps] open? database (some (.start [name] deps))
      (database.closed open?) := by
  refine passes_singleton (standsAlone_targetLine plain plainDeps)
    fun base? included file number => ?_
  have literal : ∀ c ∈ (depsText deps).toList, c ≠ '$' ∧ c ≠ '\\' := by
    intro c member
    constructor
    · rintro rfl
      exact notMem_depsText plainDeps (by decide)
        (fun dep plainDep inDep => (plainDep.literal _ inDep).1 rfl) member
    · rintro rfl
      exact notMem_depsText plainDeps (by decide)
        (fun dep plainDep inDep => (plainDep.literal _ inDep).2 rfl) member
  have words : Text.words (depsText deps) = deps := by
    unfold depsText
    split
    · rename_i none
      rw [none]
      rfl
    · have blankFirst : " " ++ " ".intercalate deps =
          String.ofList (' ' :: (" ".intercalate deps).toList) := by
        rw [String.ofList_cons, String.ofList_toList]
        rfl
      rw [blankFirst, Text.words_cons_blank (by decide), String.ofList_toList,
        Text.words_intercalate fun dep member =>
          ⟨(plainDeps dep member).nonempty, (plainDeps dep member).unbroken⟩]
  simp only [ofLine, Line.ofString_targetLine plain plainDeps, close_andThen, expand_andThen,
    Expansion.Bindings.expand_of_literal _ plain.literal,
    Expansion.Bindings.expand_of_literal _ literal, words,
    Text.words_of_forall_not_blank plain.nonempty plain.unbroken]
  rfl

theorem passes_ruleLines {rules : List String} (plain : ∀ rule ∈ rules, IsPlainRule rule)
    (definition : Definition) (database : Database) :
    Passes (rules.map ruleLine) (some definition) database (some (definition.addRules rules))
      database := by
  induction rules generalizing definition with
  | nil =>
      rw [Definition.addRules_nil]
      exact passes_nil _ _
  | cons rule rest inductionHypothesis =>
      obtain ⟨here, onRest⟩ := List.forall_mem_cons.mp plain
      have first : Passes [ruleLine rule] (some definition) database
          (some (definition.addRule rule)) database := by
        refine passes_singleton (standsAlone_ruleLine here) fun base? included file number => ?_
        simp only [ofLine, Line.ofString_ruleLine here]
        rfl
      rw [Definition.addRules_cons]
      exact first.append (inductionHypothesis onRest (definition.addRule rule))

end Effect

/-- Reading a text of such lines does what they are written for, and closes what is open then. -/
theorem Reader.readText_of_passes {texts : List String} {workspace : Workspace}
    {next : Option Definition} {later : Database} (alone : ∀ line ∈ texts, StandsAlone line)
    (passes : Effect.Passes texts none workspace.database next later) (reader : Reader)
    (name : Path) :
    let outcome := (reader.readText name (Database.ended texts)).run workspace
    outcome.1 = .ok () ∧ outcome.2.database = later.closed next := by
  intro outcome
  have does : Reader.Does (reader.readText name (Database.ended texts)) _ :=
    reader.does_readPhysicalLines [] name (Text.lines (Database.ended texts))
  have read := does workspace
  have below := passes reader.base? (reader.included []) name 1 []
  rw [List.append_nil] at below
  rw [Database.lines_ended alone, LogicalLine.ofPhysical, below] at read
  exact Prod.mk.inj read

/-! ### Sections -/

def MacroTable.restore (environmentWins : Bool) (macros : MacroTable) (entry : String × Macro) :
    MacroTable :=
  if entry.2.value = "" then macros else macros.assign environmentWins entry.1 entry.2.value

def ConditionalTable.restore (conditionals : ConditionalTable) (entry : String × ConditionalSet) :
    ConditionalTable :=
  entry.2.sorted.foldl (fun conditionals setting =>
    conditionals.assign entry.1 setting.1 setting.2) conditionals

def Plan.restore (plan : Plan) (entry : String × Target) : Plan :=
  plan.commitName entry.1 entry.2

namespace Effect

private theorem passes_macros {entries : List (String × Macro)}
    (plain : ∀ entry ∈ entries, IsPlainName entry.1 ∧ IsPlainValue entry.2.value)
    (open? : Option Definition) (database : Database) :
    Passes (entries.flatMap Database.macroLines) open? database open?
      { database with
        macros := entries.foldl (MacroTable.restore database.environmentWins)
          database.macros } := by
  induction entries generalizing database with
  | nil => exact passes_nil open? database
  | cons entry rest inductionHypothesis =>
      obtain ⟨⟨plainName, plainValue⟩, onRest⟩ := List.forall_mem_cons.mp plain
      have first : Passes (Database.macroLines entry) open? database open?
          { database with
            macros := database.macros.restore database.environmentWins entry } := by
        unfold Database.macroLines MacroTable.restore
        split
        · exact passes_nil open? database
        · exact passes_macroLine plainName plainValue open? database
      exact first.append (inductionHypothesis onRest _)

private theorem passes_conditionalLines {target : String} (plain : IsPlainName target)
    (notInclude : target ≠ "include") {settings : List (String × String)}
    (plainSettings : ∀ setting ∈ settings, IsPlainKey setting.1 ∧ IsPlainValue setting.2)
    (open? : Option Definition) (database : Database) :
    Passes (settings.map fun (key, value) => conditionalLine target key value) open? database open?
      { database with
        conditionals := settings.foldl (fun conditionals setting =>
          conditionals.assign target setting.1 setting.2) database.conditionals } := by
  induction settings generalizing database with
  | nil => exact passes_nil open? database
  | cons setting rest inductionHypothesis =>
      obtain ⟨⟨plainKey, plainValue⟩, onRest⟩ := List.forall_mem_cons.mp plainSettings
      have first := passes_conditionalLine plain notInclude plainKey plainValue open? database
      exact first.append (inductionHypothesis onRest _)

private theorem passes_conditionals {entries : List (String × ConditionalSet)}
    (plain : ∀ entry ∈ entries, IsPlainName entry.1 ∧ entry.1 ≠ "include" ∧
      ∀ setting ∈ entry.2.sorted, IsPlainKey setting.1 ∧ IsPlainValue setting.2)
    (open? : Option Definition) (database : Database) :
    Passes (entries.flatMap Database.conditionalLines) open? database open?
      { database with
        conditionals := entries.foldl ConditionalTable.restore database.conditionals } := by
  induction entries generalizing database with
  | nil => exact passes_nil open? database
  | cons entry rest inductionHypothesis =>
      obtain ⟨⟨plainTarget, notInclude, plainSettings⟩, onRest⟩ := List.forall_mem_cons.mp plain
      have first := passes_conditionalLines plainTarget notInclude plainSettings open? database
      exact first.append (inductionHypothesis onRest _)

theorem exists_passes_plan {entries : List (String × Target)}
    (plain : ∀ entry ∈ entries, IsPlainName entry.1 ∧ (∀ dep ∈ entry.2.deps, IsPlainDep dep) ∧
      ∀ rule ∈ entry.2.rules, IsPlainRule rule)
    (open? : Option Definition) (database : Database) :
    ∃ next later, Passes (entries.flatMap Database.targetLines) open? database next later ∧
      later.closed next =
        { database with plan := entries.foldl Plan.restore (database.closed open?).plan } := by
  induction entries generalizing open? database with
  | nil => exact ⟨open?, database, passes_nil open? database, rfl⟩
  | cons entry rest inductionHypothesis =>
      obtain ⟨⟨plainName, plainDeps, plainRules⟩, onRest⟩ := List.forall_mem_cons.mp plain
      obtain ⟨name, body⟩ := entry
      have first : Passes (Database.targetLines (name, body)) open? database
          (some ⟨[name], body⟩) (database.closed open?) :=
        (passes_targetLine plainName plainDeps open? database).append
          (passes_ruleLines plainRules _ _)
      obtain ⟨next, later, further, closed⟩ :=
        inductionHypothesis onRest (some ⟨[name], body⟩) (database.closed open?)
      exact ⟨next, later, first.append further, closed⟩

end Effect

namespace Table

variable {Entry Item : Type}

theorem entries_foldl {step : Table Entry → Item → Table Entry} {made : Item → String × Entry}
    {items : List Item} {table : Table Entry}
    (adds : ∀ item ∈ items, ∀ table : Table Entry, (made item).1 ∉ table.names →
      (step table item).entries = table.entries ++ [made item])
    (fresh : (table.names ++ items.map fun item => (made item).1).Nodup) :
    (items.foldl step table).entries = table.entries ++ items.map made := by
  induction items generalizing table with
  | nil => simp
  | cons item rest inductionHypothesis =>
      obtain ⟨here, onRest⟩ := List.forall_mem_cons.mp adds
      rw [List.map_cons] at fresh
      have absent : (made item).1 ∉ table.names := by
        intro known
        exact (List.nodup_append.mp fresh).2.2 _ known _ List.mem_cons_self rfl
      have added := here table absent
      have names : (step table item).names = table.names ++ [(made item).1] := by
        rw [names, added, List.map_append]
        rfl
      rw [← List.singleton_append, ← List.append_assoc, ← names] at fresh
      rw [List.foldl_cons, inductionHypothesis onRest fresh, added, List.append_assoc,
        List.singleton_append, List.map_cons]

end Table

private theorem MacroTable.entries_assign {macros : MacroTable} {name : String}
    (absent : name ∉ macros.names) (environmentWins : Bool) (value : String) :
    (macros.assign environmentWins name value).entries =
      macros.entries ++ [(name, ⟨value, .file⟩)] := by
  have notFound : macros.get? name = none := by
    rwa [← Option.not_isSome_iff_eq_none, Table.isSome_get?_iff]
  rw [assign, revise, isProtected, notFound, Option.any_none, Bool.and_false,
    if_neg Bool.false_ne_true]
  exact Table.entries_upsert_of_notMem absent _

/-- Macros that are read back are those whose value is not empty, and come from the file. -/
theorem MacroTable.get?_foldl_restore (macros : MacroTable) (environmentWins : Bool)
    (name : String) :
    (macros.sorted.foldl (restore environmentWins) .empty).get? name =
      ((macros.value? name).filter (· ≠ "")).map (⟨·, .file⟩) := by
  let written := macros.sorted.filter fun entry => entry.2.value ≠ ""
  have restored : macros.sorted.foldl (restore environmentWins) .empty =
      written.foldl (fun macros entry => macros.assign environmentWins entry.1 entry.2.value)
        .empty := by
    rw [List.foldl_filter]
    congr 1
    funext macros entry
    unfold restore
    by_cases empty : entry.2.value = "" <;> simp [empty]
  have distinct : (written.map Prod.fst).Nodup :=
    macros.nodup_sorted.sublist (List.filter_sublist.map Prod.fst)
  have entries : (macros.sorted.foldl (restore environmentWins) .empty).entries =
      written.map fun entry => (entry.1, ⟨entry.2.value, .file⟩) := by
    rw [restored]
    exact Table.entries_foldl (fun entry _ macros absent =>
      entries_assign absent environmentWins entry.2.value) distinct
  ext restoredMacro
  rw [Table.get?_eq_some_iff, entries, value?]
  constructor
  · intro member
    obtain ⟨⟨other, known⟩, inWritten, same⟩ := List.mem_map.mp member
    obtain ⟨inSorted, filled⟩ := List.mem_filter.mp inWritten
    cases same
    rw [Table.get?_of_mem_sorted inSorted]
    simpa using filled
  · intro same
    obtain ⟨value, kept, rfl⟩ := Option.map_eq_some_iff.mp same
    obtain ⟨mapped, filled⟩ := Option.filter_eq_some_iff.mp kept
    obtain ⟨known, found, rfl⟩ := Option.map_eq_some_iff.mp mapped
    have inSorted := (macros.mem_sorted_iff name known).mpr found
    exact List.mem_map.mpr ⟨(name, known), List.mem_filter.mpr ⟨inSorted, filled⟩, rfl⟩

namespace ConditionalTable

theorem foldl_assign_eq_upsert (conditionals : ConditionalTable) (target : String)
    (first : String × String) (rest : List (String × String)) :
    (first :: rest).foldl (fun conditionals setting =>
        conditionals.assign target setting.1 setting.2) conditionals =
      conditionals.upsert target fun known =>
        (first :: rest).foldl (fun known setting => known.insert setting.1 setting.2)
          (known.getD .empty) := by
  induction rest generalizing conditionals first with
  | nil => rfl
  | cons second others inductionHypothesis =>
      rw [List.foldl_cons, inductionHypothesis, assign, Table.upsert_upsert]
      rfl

def restoredSet (known : ConditionalSet) : ConditionalSet :=
  known.sorted.foldl (fun known setting => known.insert setting.1 setting.2) .empty

private theorem get?_restoredSet (known : ConditionalSet) :
    (restoredSet known).get? = known.get? := by
  have entries : (restoredSet known).entries = known.sorted.map id :=
    Table.entries_foldl (fun setting _ table absent => Table.entries_upsert_of_notMem absent _)
      known.nodup_sorted
  rw [List.map_id] at entries
  funext name
  exact Table.get?_of_perm (entries ▸ known.sorted_perm) name

/-- Sets that are read back are the same for look-ups. -/
theorem get?_foldl_restore {conditionals : ConditionalTable}
    (nonempty : ∀ target known, conditionals.get? target = some known → known.names ≠ [])
    (target : String) :
    ((conditionals.sorted.foldl restore .empty).get? target).map Table.get? =
      (conditionals.get? target).map Table.get? := by
  have entries : (conditionals.sorted.foldl restore .empty).entries =
      conditionals.sorted.map fun entry => (entry.1, restoredSet entry.2) := by
    refine Table.entries_foldl (fun entry member table absent => ?_) conditionals.nodup_sorted
    have known := nonempty entry.1 entry.2 (Table.get?_of_mem_sorted member)
    have inSet : entry.2.sorted ≠ [] := by
      intro none
      have noEntries := none ▸ entry.2.sorted_perm
      exact known (by rw [Table.names, List.nil_perm.mp noEntries]; rfl)
    obtain ⟨first, rest, settings⟩ := List.exists_cons_of_ne_nil inSet
    unfold restore restoredSet
    rw [settings, foldl_assign_eq_upsert]
    exact Table.entries_upsert_of_notMem absent _
  cases found : conditionals.get? target with
  | some known =>
      have inSorted := (conditionals.mem_sorted_iff target known).mpr found
      have restored : (conditionals.sorted.foldl restore .empty).get? target =
          some (restoredSet known) := by
        rw [Table.get?_eq_some_iff, entries]
        exact List.mem_map.mpr ⟨(target, known), inSorted, rfl⟩
      rw [restored]
      exact congrArg some (get?_restoredSet known)
  | none =>
      cases restored : (conditionals.sorted.foldl restore .empty).get? target with
      | none => rfl
      | some known =>
          rw [Table.get?_eq_some_iff, entries] at restored
          obtain ⟨⟨other, old⟩, inSorted, same⟩ := List.mem_map.mp restored
          cases same
          rw [Table.get?_of_mem_sorted inSorted] at found
          cases found

end ConditionalTable

private theorem Plan.entries_foldl_restore (plan : Plan) :
    (plan.sorted.foldl restore .empty).entries = plan.sorted := by
  have entries : (plan.sorted.foldl restore .empty).entries = plan.sorted.map id :=
    Table.entries_foldl (fun entry _ table absent => Table.entries_upsert_of_notMem absent _)
      plan.nodup_sorted
  rwa [List.map_id] at entries

/-! ### The whole -/

namespace Database

private theorem lines_dump {database : Database} (readable : database.Readable) :
    Text.lines database.dump = database.dumpLines := by
  rw [dump_eq, lines_ended fun line => standsAlone_of_mem_dumpLines readable]

private theorem exists_passes_dumpLines {database : Database} (readable : database.Readable)
    (environmentWins : Bool) :
    ∃ next later, Effect.Passes database.dumpLines none (.empty environmentWins) next later ∧
      later.closed next =
        { macros := database.macros.sorted.foldl (MacroTable.restore environmentWins) .empty
          conditionals := database.conditionals.sorted.foldl ConditionalTable.restore .empty
          plan := database.plan.sorted.foldl Plan.restore .empty
          environmentWins } := by
  have plainMacros : ∀ entry ∈ database.macros.sorted,
      IsPlainName entry.1 ∧ IsPlainValue entry.2.value :=
    fun entry member => readable.macros _ _ (Table.get?_of_mem_sorted member)
  have plainConditionals : ∀ entry ∈ database.conditionals.sorted,
      IsPlainName entry.1 ∧ entry.1 ≠ "include" ∧
        ∀ setting ∈ entry.2.sorted, IsPlainKey setting.1 ∧ IsPlainValue setting.2 := by
    intro entry member
    obtain ⟨plain, notInclude, -, plainSet⟩ :=
      readable.conditionals _ _ (Table.get?_of_mem_sorted member)
    exact ⟨plain, notInclude, fun setting inSet => plainSet _ _ (Table.get?_of_mem_sorted inSet)⟩
  have plainPlan : ∀ entry ∈ database.plan.sorted,
      IsPlainName entry.1 ∧ (∀ dep ∈ entry.2.deps, IsPlainDep dep) ∧
        ∀ rule ∈ entry.2.rules, IsPlainRule rule :=
    fun entry member => readable.plan _ _ (Table.get?_of_mem_sorted member)
  have macros := Effect.passes_macros plainMacros none (.empty environmentWins)
  let withMacros : Database :=
    { empty environmentWins with
      macros := database.macros.sorted.foldl (MacroTable.restore environmentWins) .empty }
  have conditionals := Effect.passes_conditionals plainConditionals none withMacros
  let withConditionals : Database :=
    { withMacros with
      conditionals := database.conditionals.sorted.foldl ConditionalTable.restore .empty }
  obtain ⟨next, later, plan, closed⟩ := Effect.exists_passes_plan plainPlan none withConditionals
  exact ⟨next, later, (((macros.append (Effect.passes_empty none _)).append conditionals).append
    (Effect.passes_empty none _)).append plan, closed⟩

/-- The written form of a database whose names, values and rules are plain reads back, whatever the
reader and whether the environment wins. It gives the same conditional sets, the same dependencies
and rules of the same targets, now in the order of their names, and the values of those macros that
have one that is not empty, all as from a file. -/
theorem read_dump {database : Database} (readable : database.Readable) (reader : Reader)
    (name : Path) (environmentWins : Bool) :
    let outcome := (reader.readText name database.dump).run (.empty environmentWins)
    let later := outcome.2.database
    outcome.1 = .ok () ∧
      (∀ target, (later.conditionals.get? target).map Table.get? =
        (database.conditionals.get? target).map Table.get?) ∧
      (∀ target, later.plan.get? target = database.plan.get? target) ∧
      later.plan.names.Pairwise (· < ·) ∧
      ∀ macroName, later.macros.get? macroName =
        ((database.macros.value? macroName).filter (· ≠ "")).map (⟨·, .file⟩) := by
  intro outcome later
  subst later outcome
  obtain ⟨next, between, passes, closed⟩ := exists_passes_dumpLines readable environmentWins
  have does : Reader.Does (reader.readText name database.dump) _ :=
    reader.does_readPhysicalLines [] name (Text.lines database.dump)
  have read := does (.empty environmentWins)
  have below := passes reader.base? (reader.included []) name 1 []
  have start : (Workspace.empty environmentWins).database = .empty environmentWins := rfl
  rw [List.append_nil] at below
  rw [lines_dump readable, LogicalLine.ofPhysical, start, below] at read
  obtain ⟨succeeded, isClosed⟩ := Prod.mk.inj read
  have restored := isClosed.trans closed
  refine ⟨succeeded, ?_⟩
  rw [restored]
  refine ⟨fun target => ?_, fun target => ?_, ?_, fun macroName => ?_⟩
  · exact ConditionalTable.get?_foldl_restore
      (fun target known found => (readable.conditionals target known found).2.2.1) target
  · apply Table.get?_of_perm
    rw [Plan.entries_foldl_restore]
    exact database.plan.sorted_perm
  · rw [Table.names, Plan.entries_foldl_restore]
    exact List.pairwise_map.mpr database.plan.sorted_pairwise
  · exact database.macros.get?_foldl_restore environmentWins macroName

/-- A variable of the environment, a macro without a value, a conditional macro with a blank in its
name, and targets that were defined in another order than that of their names. -/
theorem read_dump_unordered :
    let macros := MacroTable.assign (.importVariable .empty "CC" "gcc") false "NONE" ""
    let conditionals := ConditionalTable.assign .empty "b" "a b" "c = d"
    let plan := (Plan.commit .empty ⟨["b"], ⟨[], []⟩⟩).commit ⟨["a"], ⟨["b", ":"], ["$(CC) "]⟩⟩
    let database : Database := ⟨macros, conditionals, plan, true⟩
    let reader : Reader := ⟨.ofLookup fun _ => none, none⟩
    let outcome := (reader.readText ⟨"dump"⟩ database.dump).run (.empty false)
    let later := outcome.2.database
    outcome.1 = .ok () ∧
      (later.conditionals.get? "b").map Table.get? = (conditionals.get? "b").map Table.get? ∧
      later.plan.get? "a" = some ⟨["b", ":"], ["$(CC) "]⟩ ∧
      later.plan.names.Pairwise (· < ·) ∧
      later.macros.get? "CC" = some ⟨"gcc", .file⟩ ∧ later.macros.get? "NONE" = none := by
  intro macros conditionals plan database reader outcome later
  subst later outcome
  have plainName : ∀ name ∈ ["CC", "NONE", "a", "b"], IsPlainName name := by
    simp only [List.forall_mem_cons, List.not_mem_nil, false_imp_iff, implies_true, and_true]
    refine ⟨?_, ?_, ?_, ?_⟩ <;>
      exact ⟨by decide, by simp; decide, by simp; decide, by simp, by decide⟩
  have plainValue : ∀ value ∈ ["gcc", "", "c = d"], IsPlainValue value := by
    simp only [List.forall_mem_cons, List.not_mem_nil, false_imp_iff, implies_true, and_true]
    refine ⟨?_, ?_, ?_⟩ <;> exact ⟨by cbv, by decide, by decide⟩
  have macroEntries : macros.entries = [("CC", ⟨"gcc", .environment⟩), ("NONE", ⟨"", .file⟩)] := by
    subst macros
    cbv
  have planEntries : plan.entries = [("b", ⟨[], []⟩), ("a", ⟨["b", ":"], ["$(CC) "]⟩)] := by
    subst plan
    cbv
  have readable : database.Readable := by
    constructor
    · intro name known found
      have member : (name, known) ∈ macros.entries := Table.mem_entries_of_get? found
      rw [macroEntries] at member
      simp only [List.mem_cons, Prod.mk.injEq, List.not_mem_nil, or_false] at member
      rcases member with ⟨rfl, rfl⟩ | ⟨rfl, rfl⟩
      · exact ⟨plainName _ (by simp), plainValue _ (by simp)⟩
      · exact ⟨plainName _ (by simp), plainValue _ (by simp)⟩
    · intro target known found
      have isB : target = "b" := by
        by_contra different
        have absent := ConditionalTable.get?_assign_of_ne .empty different "a b" "c = d"
        rw [Table.get?_empty] at absent
        cases found.symm.trans absent
      subst isB
      have isSet := ConditionalTable.get?_assign_self .empty "b" "a b" "c = d"
      obtain rfl := Option.some.inj (found.symm.trans isSet)
      refine ⟨plainName _ (by simp), by decide, by simp, fun key value inSet => ?_⟩
      have isKey : key = "a b" := by
        by_contra different
        rw [Table.get?_insert_of_ne _ different] at inSet
        cases inSet
      subst isKey
      rw [Table.get?_insert_self] at inSet
      cases inSet
      exact ⟨⟨by cbv, by decide, by decide⟩, plainValue _ (by simp)⟩
    · intro name body found
      have member : (name, body) ∈ plan.entries := Table.mem_entries_of_get? found
      rw [planEntries] at member
      simp only [List.mem_cons, Prod.mk.injEq, List.not_mem_nil, or_false] at member
      rcases member with ⟨rfl, rfl⟩ | ⟨rfl, rfl⟩
      · exact ⟨plainName _ (by simp), by simp, by simp⟩
      · refine ⟨plainName _ (by simp), ?_, ?_⟩
        · simp only [List.forall_mem_cons, List.not_mem_nil, false_imp_iff, implies_true, and_true]
          constructor <;> exact ⟨by decide, by simp; decide, by decide, by simp⟩
        · intro rule isRule
          rw [List.mem_singleton.mp isRule]
          exact ⟨by decide, by decide, by decide, by decide, by decide⟩
  obtain ⟨succeeded, sets, targets, ordered, values⟩ :=
    read_dump readable reader ⟨"dump"⟩ false
  refine ⟨succeeded, sets "b", (targets "a").trans ?_, ordered, (values "CC").trans ?_,
    (values "NONE").trans ?_⟩
  · subst database plan
    cbv
  · subst database macros
    cbv
  · subst database macros
    cbv

end Database

end DryMake
