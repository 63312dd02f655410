import DryMake.Proofs.Build.Recurrence
import DryMake.Proofs.Expansion.Relevance

/-!
The conditional macros of a target reach no other target. Two builds under tables that differ for one
target alone go the same way: they begin and leave the same targets, and only the commands of that
target may be others. Where it is not begun the builds do not differ at all.
-/

namespace DryMake

/-- The step without what the conditional macros of a target have a part in: their list when it is
begun, and the texts of its commands. -/
def Step.conceal (name : String) : Step → Step
  | .enter target depth conditionals =>
      .enter target depth (if target = name then [] else conditionals)
  | .command target depth text => .command target depth (if target = name then "" else text)
  | .leave target depth => .leave target depth

/-- The databases have the same plan and macros, and the same conditional macros for every target but
one. -/
structure Database.AgreesExcept (name : String) (database other : Database) : Prop where
  plan : database.plan = other.plan
  macros : database.macros = other.macros
  conditionals : ∀ target key, target ≠ name →
    database.conditionals.value? target key = other.conditionals.value? target key

theorem Database.expand_bindingsFor_congr {database other : Database} {target : String}
    (sameMacros : database.macros = other.macros)
    (same : ∀ key, database.conditionals.value? target key = other.conditionals.value? target key)
    (rule : String) :
    (database.bindingsFor target).expand rule = (other.bindingsFor target).expand rule := by
  rw [Expansion.expand_eq_evaluateRest, Expansion.expand_eq_evaluateRest]
  refine Expansion.evaluateRest_eq_of_agree (fun key _ => ⟨?_, ?_⟩) [] rule rule.toList
    fun key => .named
  · exact congrArg (MacroTable.value? · key) sameMacros
  · have sameValue := same key
    rw [ConditionalTable.value?_eq, ConditionalTable.value?_eq] at sameValue
    exact sameValue

namespace Build

variable {database other : Database} {name target : String}

private theorem mem_entered_of_andThen {first second : Visit}
    (begun : target ∈ Trace.entered (first.andThen second).steps) :
    target ∈ Trace.entered first.steps ∨ target ∈ Trace.entered second.steps := by
  obtain ⟨depth, conditionals, member⟩ := Trace.mem_entered_iff.mp begun
  exact (Visit.mem_steps_andThen member).imp
    (fun inFirst => Trace.mem_entered_iff.mpr ⟨depth, conditionals, inFirst⟩)
    (fun inSecond => Trace.mem_entered_iff.mpr ⟨depth, conditionals, inSecond⟩)

private theorem entered_subset_andThen (first second : Visit) :
    Trace.entered first.steps ⊆ Trace.entered (first.andThen second).steps := by
  intro target begun
  obtain ⟨depth, conditionals, member⟩ := Trace.mem_entered_iff.mp begun
  exact Trace.mem_entered_iff.mpr
    ⟨depth, conditionals, Visit.mem_steps_andThen_of_left member second⟩

private theorem mem_entered_visitAround (name : String) (depth : Nat) (rules : List String)
    (deps : Visit) :
    name ∈ Trace.entered (visitAround database name depth rules deps).steps :=
  Trace.mem_entered_iff.mpr ⟨depth, _, enter_mem_visitAround ..⟩

private theorem eq_or_mem_entered_of_visitAround {depth : Nat} {rules : List String} {deps : Visit}
    (begun : target ∈ Trace.entered (visitAround database name depth rules deps).steps) :
    target = name ∨ target ∈ Trace.entered deps.steps := by
  obtain ⟨level, conditionals, member⟩ := Trace.mem_entered_iff.mp begun
  rcases of_mem_visitAround member with ⟨own, -⟩ | inside
  · exact Or.inl own
  · exact Or.inr (Trace.mem_entered_iff.mpr ⟨level, conditionals, inside⟩)

/-- What is begun by a visit of dependencies is needed by them, also if the visit fails. -/
theorem anyReaches_of_mem_entered (path : List String) (depth : Nat) (deps : List String) :
    target ∈ Trace.entered (visitDeps database path depth deps).steps →
      AnyReaches database.plan deps target := by
  induction path, depth, deps using visit_induction database with
  | nil path depth =>
      intro begun
      rw [visitDeps_nil] at begun
      cases begun
  | marker path depth rest onRest =>
      intro begun
      rw [visitDeps_marker] at begun
      exact anyReaches_marker_iff.mpr (onRest begun)
  | cycle path depth dep rest notMarker onPath =>
      intro begun
      rw [visitDeps_of_mem notMarker onPath] at begun
      cases begun
  | unknown path depth dep rest notMarker fresh unknown =>
      intro begun
      rw [visitDeps_of_unknown notMarker fresh unknown] at begun
      cases begun
  | enter path depth dep rest body notMarker fresh found onBody onRest =>
      intro begun
      rw [visitDeps_of_found notMarker fresh found] at begun
      rw [anyReaches_cons_iff notMarker, reaches_iff_of_found found]
      rcases mem_entered_of_andThen begun with around | inRest
      · exact Or.inl ((eq_or_mem_entered_of_visitAround around).imp_right onBody)
      · exact Or.inr (onRest inRest)

private theorem reaches_of_mem_entered {root : String}
    (begun : target ∈ Trace.entered (request database root).steps) :
    Reaches database.plan root target := by
  unfold request at begun
  split at begun
  · cases begun
  · cases found : database.plan.get? root with
    | none =>
        rw [visit_of_unknown found] at begun
        cases begun
    | some body =>
        rw [visit_of_found found] at begun
        rw [reaches_iff_of_found found]
        exact (eq_or_mem_entered_of_visitAround begun).imp_right
          (anyReaches_of_mem_entered _ _ _)

/-- When both visits succeed they differ in nothing but what the conditional macros of the target have
a part in. When one of them does not begin the target they do not differ. -/
structure Alike (name : String) (first second : Visit) : Prop where
  succeeded : first.result = .ok () → second.result = .ok () →
    first.steps.map (Step.conceal name) = second.steps.map (Step.conceal name)
  unmet : name ∉ Trace.entered first.steps ∨ name ∉ Trace.entered second.steps → first = second

private theorem alike_refl (name : String) (part : Visit) : Alike name part part :=
  ⟨fun _ _ => rfl, fun _ => rfl⟩

private theorem Alike.andThen {first second firstToo secondToo : Visit}
    (before : Alike name first firstToo) (after : Alike name second secondToo) :
    Alike name (first.andThen second) (firstToo.andThen secondToo) := by
  constructor
  · intro succeeded succeededToo
    obtain ⟨firstEnds, secondEnds⟩ := (Visit.result_andThen_eq_ok_iff _ _).mp succeeded
    obtain ⟨firstEndsToo, secondEndsToo⟩ := (Visit.result_andThen_eq_ok_iff _ _).mp succeededToo
    rw [Visit.steps_andThen_of_ok firstEnds, Visit.steps_andThen_of_ok firstEndsToo,
      List.map_append, List.map_append, before.succeeded firstEnds firstEndsToo,
      after.succeeded secondEnds secondEndsToo]
  · intro unmet
    have sameFirst : first = firstToo := before.unmet <|
      unmet.imp (fun apart => apart ∘ (entered_subset_andThen _ _ ·))
        (fun apart => apart ∘ (entered_subset_andThen _ _ ·))
    subst sameFirst
    unfold Visit.andThen at unmet ⊢
    cases ended : first.result with
    | error failure => rfl
    | ok value =>
        rw [ended] at unmet
        have sameSecond : second = secondToo := by
          refine after.unmet (unmet.imp (fun apart inSecond => apart ?_)
            (fun apart inSecond => apart ?_))
          · rw [Trace.entered_append]
            exact List.mem_append_right _ inSecond
          · rw [Trace.entered_append]
            exact List.mem_append_right _ inSecond
        rw [sameSecond]

theorem conceal_commands {rules : List String} (expand : RulesExpand database name rules)
    (depth : Nat) :
    ((commandsOf database name rules).map (.command name depth)).map (Step.conceal name) =
      rules.map fun _ => Step.command name depth "" := by
  have counted : rules.length = (commandsOf database name rules).length :=
    (areCommands_commandsOf expand).length_eq
  rw [List.map_map, List.map_eq_replicate_iff.mpr, List.map_const', counted]
  intro command _
  simp [Step.conceal]

private theorem alike_visitAround_self (depth : Nat) (rules : List String) {deps depsToo : Visit}
    (onDeps : Alike name deps depsToo) :
    Alike name (visitAround database name depth rules deps)
      (visitAround other name depth rules depsToo) := by
  constructor
  · intro succeeded succeededToo
    obtain ⟨built, expand⟩ := (result_visitAround_eq_ok_iff ..).mp succeeded
    obtain ⟨builtToo, expandToo⟩ := (result_visitAround_eq_ok_iff ..).mp succeededToo
    rw [steps_visitAround built expand, steps_visitAround builtToo expandToo]
    simp only [List.map_cons, List.map_append, List.map_nil, conceal_commands expand,
      conceal_commands expandToo, onDeps.succeeded built builtToo, Step.conceal, if_pos]
  · rintro (unmet | unmet)
    · exact absurd (mem_entered_visitAround ..) unmet
    · exact absurd (mem_entered_visitAround ..) unmet

section

variable (agrees : database.AgreesExcept name other)

include agrees

private theorem alike_visitAround (target : String) (depth : Nat) (rules : List String)
    {deps depsToo : Visit} (onDeps : Alike name deps depsToo) :
    Alike name (visitAround database target depth rules deps)
      (visitAround other target depth rules depsToo) := by
  by_cases same : target = name
  · subst same
    exact alike_visitAround_self depth rules onDeps
  · have sameSet := fun key => agrees.conditionals target key same
    have sameRules : visitRules database target depth rules = visitRules other target depth rules :=
      visitRules_congr
        (fun rule _ => Database.expand_bindingsFor_congr agrees.macros sameSet rule) depth
    rw [visitAround, visitAround, sameRules, ConditionalTable.entriesFor_congr sameSet]
    exact (alike_refl name _).andThen <| onDeps.andThen <|
      (alike_refl name _).andThen (alike_refl name _)

private theorem alike_visitDeps (path : List String) (depth : Nat) (deps : List String) :
    Alike name (visitDeps database path depth deps) (visitDeps other path depth deps) := by
  induction path, depth, deps using visit_induction database with
  | nil path depth =>
      rw [visitDeps_nil, visitDeps_nil]
      exact alike_refl name _
  | marker path depth rest onRest =>
      rw [visitDeps_marker, visitDeps_marker]
      exact onRest
  | cycle path depth dep rest notMarker onPath =>
      rw [visitDeps_of_mem notMarker onPath, visitDeps_of_mem notMarker onPath]
      exact alike_refl name _
  | unknown path depth dep rest notMarker fresh unknown =>
      have unknownToo := agrees.plan ▸ unknown
      rw [visitDeps_of_unknown notMarker fresh unknown,
        visitDeps_of_unknown notMarker fresh unknownToo]
      exact alike_refl name _
  | enter path depth dep rest body notMarker fresh found onBody onRest =>
      have foundToo := agrees.plan ▸ found
      rw [visitDeps_of_found notMarker fresh found, visitDeps_of_found notMarker fresh foundToo]
      exact (alike_visitAround agrees dep (depth + 1) body.rules onBody).andThen onRest

private theorem alike_request (root : String) :
    Alike name (request database root) (request other root) := by
  unfold request
  split
  · exact alike_refl name _
  · cases found : database.plan.get? root with
    | none =>
        rw [visit_of_unknown found, visit_of_unknown (agrees.plan ▸ found)]
        exact alike_refl name _
    | some body =>
        rw [visit_of_found found, visit_of_found (agrees.plan ▸ found)]
        exact alike_visitAround agrees root 1 body.rules (alike_visitDeps agrees _ 1 body.deps)

end

/-- Under conditional macros that are others for one target alone, two builds that succeed record the
same steps, but for the list of these macros where the target is begun and for the texts of its own
commands. If the target is not reached, or one of the builds ends without having begun it, they
record the same and end in the same way. -/
theorem buildInto_isolated {database other : Database} {name : String}
    (agrees : database.AgreesExcept name other) (root : String) :
    let built := database.buildInto root .empty
    let builtToo := other.buildInto root .empty
    (built.2 = .ok () → builtToo.2 = .ok () →
      built.1.steps.toList.map (Step.conceal name) = builtToo.1.steps.toList.map (Step.conceal name)) ∧
    (¬ Reaches database.plan root name ∨ name ∉ Trace.entered built.1.steps.toList ∨
        name ∉ Trace.entered builtToo.1.steps.toList →
      built.1.steps.toList = builtToo.1.steps.toList ∧ built.2 = builtToo.2) := by
  intro built builtToo
  have alike := alike_request agrees root
  rw [show built.2 = _ from result_buildInto database root .empty,
    show builtToo.2 = _ from result_buildInto other root .empty,
    show built.1.steps.toList = _ from steps_buildInto database root .empty,
    show builtToo.1.steps.toList = _ from steps_buildInto other root .empty]
  refine ⟨alike.succeeded, ?_⟩
  intro apart
  have unmet : name ∉ Trace.entered (request database root).steps ∨
      name ∉ Trace.entered (request other root).steps := by
    rcases apart with unreached | unmet
    · exact Or.inl fun begun => unreached (reaches_of_mem_entered begun)
    · exact unmet
  have same := alike.unmet unmet
  rw [same]
  exact ⟨rfl, rfl⟩

theorem buildInto_isolated_amid :
    let plan := (((Plan.commit .empty ⟨["all"], ⟨["lib", "prog"], ["link $(FLAGS)"]⟩⟩).commit
      ⟨["prog"], ⟨["lib"], ["make $(FLAGS)"]⟩⟩).commit ⟨["lib"], ⟨[], ["cc $(FLAGS)"]⟩⟩).commit
        ⟨["early"], ⟨["lib", "gone", "prog"], []⟩⟩
    let conditionals := ConditionalTable.assign (.assign .empty "prog" "FLAGS" "-g") "lib" "FLAGS" "-s"
    let database : Database := ⟨.empty, conditionals, plan, false⟩
    let other : Database := ⟨.empty, conditionals.assign "prog" "FLAGS" "-O3", plan, true⟩
    database.AgreesExcept "prog" other ∧
      Trace.commands (database.buildInto "all" .empty).1.steps.toList =
        ["cc -s", "cc -s", "make -g", "link "] ∧
      Trace.commands (other.buildInto "all" .empty).1.steps.toList =
        ["cc -s", "cc -s", "make -O3", "link "] ∧
      (database.buildInto "all" .empty).1.steps.toList.map (Step.conceal "prog") =
        (other.buildInto "all" .empty).1.steps.toList.map (Step.conceal "prog") ∧
      (database.buildInto "early" .empty).2 = .error (.unknownTarget "gone" (some "early")) ∧
      (other.buildInto "early" .empty).2 = .error (.unknownTarget "gone" (some "early")) := by
  intro plan conditionals database other
  have agrees : database.AgreesExcept "prog" other := by
    refine ⟨rfl, rfl, fun target key different => ?_⟩
    have unchanged := conditionals.value?_assign target key "prog" "FLAGS" "-O3"
    rw [if_neg fun both => different both.2] at unchanged
    exact unchanged.symm
  have ofAll : ((request database "all").result, Trace.commands (request database "all").steps) =
      (.ok (), ["cc -s", "cc -s", "make -g", "link "]) := by cbv
  have ofAllToo : ((request other "all").result, Trace.commands (request other "all").steps) =
      (.ok (), ["cc -s", "cc -s", "make -O3", "link "]) := by cbv
  have ofEarly :
      ((request database "early").result, Trace.entered (request database "early").steps) =
        (.error (.unknownTarget "gone" (some "early")), ["early", "lib"]) := by cbv
  obtain ⟨succeeded, commands⟩ := Prod.mk.inj ofAll
  obtain ⟨succeededToo, commandsToo⟩ := Prod.mk.inj ofAllToo
  obtain ⟨failed, begun⟩ := Prod.mk.inj ofEarly
  rw [← result_buildInto _ _ .empty] at succeeded succeededToo failed
  have unmet : "prog" ∉ Trace.entered (database.buildInto "early" .empty).1.steps.toList := by
    rw [steps_buildInto, Record.empty, List.nil_append, begun]
    decide
  refine ⟨agrees, ?_, ?_, (buildInto_isolated agrees "all").1 succeeded succeededToo, failed, ?_⟩
  · rw [steps_buildInto]
    exact commands
  · rw [steps_buildInto]
    exact commandsToo
  · exact ((buildInto_isolated agrees "early").2 (Or.inr (Or.inl unmet))).2 ▸ failed

end Build

end DryMake
