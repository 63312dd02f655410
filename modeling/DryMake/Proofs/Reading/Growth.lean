import DryMake.Proofs.Reading.Stability

/-!
What readings never take away. Each change that a line makes is an `upsert` of a table that keeps
what the entry held, so names stay where they are, entries only grow, and new names come last. This
holds of every reading, also of one that fails.
-/

namespace DryMake

namespace Table

variable {Entry : Type}

/-- The later table has the names of the earlier one first, each with an entry that grew out of the
one it had. -/
structure Grows (grown : Entry → Entry → Prop) (earlier later : Table Entry) : Prop where
  names : earlier.names <+: later.names
  entries : ∀ name entry, earlier.get? name = some entry →
    ∃ further, later.get? name = some further ∧ grown entry further

variable {grown : Entry → Entry → Prop} [IsPreorder Entry grown]

instance : IsPreorder (Table Entry) (Grows grown) where
  refl table := by
    constructor
    · exact List.prefix_refl _
    · intro name entry found
      exact ⟨entry, found, refl_of grown entry⟩
  trans first second third before after := by
    constructor
    · exact before.names.trans after.names
    · intro name entry found
      obtain ⟨middle, foundMiddle, upToMiddle⟩ := before.entries name entry found
      obtain ⟨last, foundLast, fromMiddle⟩ := after.entries name middle foundMiddle
      exact ⟨last, foundLast, trans_of grown upToMiddle fromMiddle⟩

theorem grows_upsert (table : Table Entry) (name : String) {change : Option Entry → Entry}
    (keeps : ∀ entry, grown entry (change (some entry))) :
    Grows grown table (table.upsert name change) := by
  constructor
  · rw [names_upsert]
    split
    · exact List.prefix_refl _
    · exact List.prefix_append _ _
  · intro other entry found
    by_cases isName : other = name
    · subst isName
      rw [get?_upsert_self, found]
      exact ⟨_, rfl, keeps entry⟩
    · rw [get?_upsert_of_ne table isName]
      exact ⟨entry, found, refl_of grown entry⟩

end Table

def Replaces {Entry : Type} (_earlier _later : Entry) : Prop :=
  True

instance {Entry : Type} : IsPreorder Entry Replaces where
  refl _ := trivial
  trans _ _ _ _ _ := trivial

/-- The dependencies and rules that a target had are the first of those it has. -/
structure Target.Grows (earlier later : Target) : Prop where
  deps : earlier.deps <+: later.deps
  rules : earlier.rules <+: later.rules

instance : IsPreorder Target Target.Grows where
  refl _ := ⟨List.prefix_refl _, List.prefix_refl _⟩
  trans _ _ _ before after := ⟨before.deps.trans after.deps, before.rules.trans after.rules⟩

private theorem Target.grows_extend (earlier later : Target) :
    earlier.Grows (earlier.extend later) :=
  ⟨List.prefix_append _ _, List.prefix_append _ _⟩

structure Database.Grows (earlier later : Database) : Prop where
  plan : Table.Grows Target.Grows earlier.plan later.plan
  macros : Table.Grows Replaces earlier.macros later.macros
  conditionals : Table.Grows (Table.Grows Replaces) earlier.conditionals later.conditionals
  sameRule : later.environmentWins = earlier.environmentWins

private theorem Plan.grows_commit (plan : Plan) (definition : Definition) :
    Table.Grows Target.Grows plan (plan.commit definition) := by
  obtain ⟨names, body⟩ := definition
  unfold commit
  induction names generalizing plan with
  | nil => exact refl_of _ plan
  | cons name rest inductionHypothesis =>
      have first : Table.Grows Target.Grows plan (plan.commitName name body) :=
        Table.grows_upsert plan name fun known => known.grows_extend body
      exact trans_of _ first (inductionHypothesis _)

private theorem MacroTable.grows_revise (macros : MacroTable) (environmentWins : Bool)
    (name : String) (change : Option String → String) :
    Table.Grows Replaces macros (macros.revise environmentWins name change) := by
  unfold revise
  split
  · exact refl_of _ macros
  · exact Table.grows_upsert macros name fun _ => trivial

private theorem ConditionalTable.grows_assign (conditionals : ConditionalTable)
    (target name value : String) :
    Table.Grows (Table.Grows Replaces) conditionals (conditionals.assign target name value) :=
  Table.grows_upsert conditionals target fun conditional =>
    Table.grows_upsert conditional name fun _ => trivial

private theorem stable_grows : Stable Database.Grows := by
  constructor
  · intro database
    exact ⟨refl_of _ _, refl_of _ _, refl_of _ _, rfl⟩
  · intro first second third before after
    exact ⟨trans_of _ before.plan after.plan, trans_of _ before.macros after.macros,
      trans_of _ before.conditionals after.conditionals, after.sameRule.trans before.sameRule⟩
  · intro database open?
    cases open? with
    | none => exact ⟨refl_of _ _, refl_of _ _, refl_of _ _, rfl⟩
    | some definition =>
        exact ⟨database.plan.grows_commit definition, refl_of _ _, refl_of _ _, rfl⟩
  · intro database target name value
    exact ⟨refl_of _ _, refl_of _ _, database.conditionals.grows_assign target name value, rfl⟩
  · intro database name value
    exact ⟨refl_of _ _, database.macros.grows_revise _ name fun _ => value, refl_of _ _, rfl⟩
  · intro database name value
    exact ⟨refl_of _ _, database.macros.grows_revise _ name (MacroTable.extended value),
      refl_of _ _, rfl⟩

namespace Reader

/-- A reading only adds to a database, whether it comes to its end or fails. Targets keep their
order and new ones come last; a target's dependencies and rules are kept before new ones; no macro,
conditional set or conditional macro is lost; and which side wins stays as it is. -/
theorem grows_read (reader : Reader) (source : Source) (workspace : Workspace) :
    let earlier := workspace.database
    let later := ((reader.read source).run workspace).2.database
    earlier.plan.names <+: later.plan.names ∧
    (∀ name body, earlier.plan.get? name = some body →
      ∃ further, later.plan.get? name = some further ∧
        body.deps <+: further.deps ∧ body.rules <+: further.rules) ∧
    (∀ name, earlier.macros.contains name = true → later.macros.contains name = true) ∧
    earlier.conditionals.names <+: later.conditionals.names ∧
    (∀ target conditional, earlier.conditionals.get? target = some conditional →
      ∃ further, later.conditionals.get? target = some further ∧
        ∀ name, conditional.contains name = true → further.contains name = true) ∧
    later.environmentWins = earlier.environmentWins := by
  intro earlier later
  have grows : Database.Grows earlier later := stable_grows.related_read reader source workspace
  have stays : ∀ {Entry : Type} {before after : Table Entry}, before.names <+: after.names →
      ∀ name, before.contains name = true → after.contains name = true := by
    intro Entry before after names name known
    unfold Table.contains at known ⊢
    rw [Table.isSome_get?_iff] at known ⊢
    exact names.subset known
  refine ⟨grows.plan.names, fun name body found => ?_, stays grows.macros.names,
    grows.conditionals.names, fun target conditional found => ?_, grows.sameRule⟩
  · obtain ⟨further, foundLater, body⟩ := grows.plan.entries name body found
    exact ⟨further, foundLater, body.deps, body.rules⟩
  · obtain ⟨further, foundLater, inSet⟩ := grows.conditionals.entries target conditional found
    exact ⟨further, foundLater, stays inSet.names⟩

/-- A reading that fails in the middle of a definition has still only added to what was there. -/
theorem grows_read_failed :
    let reader : Reader := ⟨.ofLookup fun _ => none, none⟩
    let plan := Plan.commit .empty ⟨["all"], ⟨["a"], ["one"]⟩⟩
    let conditionals := ConditionalTable.assign .empty "all" "CC" "cc"
    let workspace : Workspace :=
      ⟨⟨MacroTable.importVariable .empty "CC" "gcc", conditionals, plan, false⟩, #[]⟩
    let source : Source :=
      .lines ⟨"Makefile"⟩ ["all: b", "\ttwo", "all := CC=tcc", "CC = clang", "c:", "x := none"]
    let outcome := (reader.read source).run workspace
    outcome.1 = .error (.malformedConditional ⟨⟨"Makefile"⟩, 6⟩ "x := none") ∧
      (∃ further, outcome.2.database.plan.get? "all" = some further ∧
        ["a"] <+: further.deps ∧ ["one"] <+: further.rules) ∧
      outcome.2.database.macros.contains "CC" = true ∧
      ∃ further, outcome.2.database.conditionals.get? "all" = some further ∧
        further.contains "CC" = true := by
  intro reader plan conditionals workspace source outcome
  obtain ⟨-, targets, macros, -, sets, -⟩ := grows_read reader source workspace
  refine ⟨?_, targets "all" _ rfl, macros "CC" rfl, ?_⟩
  · subst outcome source workspace conditionals plan reader
    cbv
  · obtain ⟨further, found, names⟩ := sets "all" _ rfl
    exact ⟨further, found, names "CC" rfl⟩

end Reader

end DryMake
