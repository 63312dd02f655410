import DryMake.Proofs.Build.Correspondence
import Mathlib

/-!
Which builds succeed. The targets that a name needs, directly or through others, are those that its
build meets. A visit looks only at the path above it, and still no cycle escapes: on a way from a
target back to itself there is a first name that is met twice, and the visit fails there. A target
that is needed in several places is on the path in none of them but one at a time, and is never taken
for a cycle.
-/

namespace DryMake.Build

/-- The plan has the target, with the other name among its dependencies. -/
def Needs (plan : Plan) (name dep : String) : Prop :=
  ∃ body, plan.get? name = some body ∧ dep ∈ body.deps ∧ dep ≠ waitMarker

/-- The other name is the target itself or one that it needs, directly or through others. -/
def Reaches (plan : Plan) : String → String → Prop :=
  Relation.ReflTransGen (Needs plan)

def AnyReaches (plan : Plan) (deps : List String) (target : String) : Prop :=
  ∃ dep ∈ deps, dep ≠ waitMarker ∧ Reaches plan dep target

def OnCycle (plan : Plan) (name : String) : Prop :=
  Relation.TransGen (Needs plan) name name

def RulesExpand (database : Database) (name : String) (rules : List String) : Prop :=
  ∀ rule ∈ rules, ∃ command, (database.bindingsFor name).expand rule = .ok command

variable {database : Database} {plan : Plan}

theorem reaches_iff_of_found {name target : String} {body : Target}
    (found : plan.get? name = some body) :
    Reaches plan name target ↔ target = name ∨ AnyReaches plan body.deps target := by
  constructor
  · intro reached
    rcases Relation.ReflTransGen.cases_head reached with same | ⟨dep, needed, further⟩
    · exact Or.inl same.symm
    · obtain ⟨other, sameBody, member, notMarker⟩ := needed
      rw [found] at sameBody
      cases sameBody
      exact Or.inr ⟨dep, member, notMarker, further⟩
  · rintro (rfl | ⟨dep, member, notMarker, further⟩)
    · exact .refl
    · exact .head ⟨body, found, member, notMarker⟩ further

private theorem onCycle_iff_of_found {name : String} {body : Target}
    (found : plan.get? name = some body) :
    OnCycle plan name ↔ AnyReaches plan body.deps name := by
  constructor
  · intro cycle
    obtain ⟨dep, ⟨other, sameBody, member, notMarker⟩, further⟩ :=
      Relation.TransGen.head'_iff.mp cycle
    rw [found] at sameBody
    cases sameBody
    exact ⟨dep, member, notMarker, further⟩
  · rintro ⟨dep, member, notMarker, further⟩
    exact Relation.TransGen.head'_iff.mpr ⟨dep, ⟨body, found, member, notMarker⟩, further⟩

/-- Nothing prevents that the target is built below the targets of `path`. -/
structure Buildable (database : Database) (path : List String) (target : String) : Prop where
  fresh : target ∉ path
  acyclic : ¬ OnCycle database.plan target
  known : ∃ body, database.plan.get? target = some body ∧
    RulesExpand database target body.rules

theorem forall_buildable_iff_of_found {path : List String} {name : String} {body : Target}
    (fresh : name ∉ path) (found : database.plan.get? name = some body) :
    (∀ target, Reaches database.plan name target → Buildable database path target) ↔
      (∀ target, AnyReaches database.plan body.deps target →
        Buildable database (path ++ [name]) target) ∧
      RulesExpand database name body.rules := by
  constructor
  · intro buildable
    have atName := buildable name .refl
    constructor
    · intro target reached
      have below := buildable target ((reaches_iff_of_found found).mpr (Or.inr reached))
      refine ⟨?_, below.acyclic, below.known⟩
      intro onPath
      rcases List.mem_append.mp onPath with above | same
      · exact below.fresh above
      · rw [List.mem_singleton.mp same] at reached
        exact atName.acyclic ((onCycle_iff_of_found found).mpr reached)
    · obtain ⟨other, sameBody, expand⟩ := atName.known
      rw [found] at sameBody
      cases sameBody
      exact expand
  · rintro ⟨buildable, expand⟩ target reached
    rcases (reaches_iff_of_found found).mp reached with rfl | below
    · refine ⟨fresh, ?_, body, found, expand⟩
      intro cycle
      have again := buildable target ((onCycle_iff_of_found found).mp cycle)
      exact again.fresh (List.mem_append_right _ (List.mem_singleton_self _))
    · have atTarget := buildable target below
      exact ⟨fun above => atTarget.fresh (List.mem_append_left _ above), atTarget.acyclic,
        atTarget.known⟩

theorem anyReaches_cons_iff {deps : List String} {dep target : String}
    (notMarker : dep ≠ waitMarker) :
    AnyReaches plan (dep :: deps) target ↔ Reaches plan dep target ∨ AnyReaches plan deps target := by
  simp [AnyReaches, notMarker]

theorem anyReaches_marker_iff {deps : List String} {target : String} :
    AnyReaches plan (waitMarker :: deps) target ↔ AnyReaches plan deps target := by
  simp [AnyReaches]

theorem result_visitRules_eq_ok_iff (database : Database) (name : String) (depth : Nat)
    (rules : List String) :
    (visitRules database name depth rules).result = .ok () ↔ RulesExpand database name rules := by
  unfold RulesExpand
  induction rules with
  | nil => simp [visitRules, Visit.nothing]
  | cons rule rest inductionHypothesis =>
      rw [List.forall_mem_cons, ← inductionHypothesis, visitRules]
      cases expanded : (database.bindingsFor name).expand rule with
      | error cause => simp [Visit.failed]
      | ok command => simp [Visit.result_andThen_eq_ok_iff, Visit.single]

private theorem entered_visitRules (database : Database) (name : String) (depth : Nat)
    (rules : List String) : Trace.entered (visitRules database name depth rules).steps = [] := by
  induction rules with
  | nil => rfl
  | cons rule rest inductionHypothesis =>
      rw [visitRules]
      cases (database.bindingsFor name).expand rule with
      | error cause => rfl
      | ok command =>
          rw [Visit.steps_andThen_of_ok rfl]
          exact inductionHypothesis

theorem result_visitAround_eq_ok_iff (database : Database) (name : String) (depth : Nat)
    (rules : List String) (deps : Visit) :
    (visitAround database name depth rules deps).result = .ok () ↔
      deps.result = .ok () ∧ RulesExpand database name rules := by
  simp [visitAround, Visit.result_andThen_eq_ok_iff, result_visitRules_eq_ok_iff, Visit.single]

private theorem entered_visitAround {name : String} {depth : Nat} {rules : List String}
    {deps : Visit} (built : deps.result = .ok ()) (expand : RulesExpand database name rules) :
    Trace.entered (visitAround database name depth rules deps).steps =
      name :: Trace.entered deps.steps := by
  have run := (result_visitRules_eq_ok_iff database name depth rules).mpr expand
  rw [visitAround, Visit.steps_andThen_of_ok rfl, Visit.steps_andThen_of_ok built,
    Visit.steps_andThen_of_ok run]
  rw [Trace.entered_append, Trace.entered_append, Trace.entered_append, entered_visitRules]
  exact congrArg (name :: ·) (List.append_nil _)

private theorem result_visitDeps_eq_ok_iff (database : Database) (path : List String) (depth : Nat)
    (deps : List String) :
    (visitDeps database path depth deps).result = .ok () ↔
      ∀ target, AnyReaches database.plan deps target → Buildable database path target := by
  induction path, depth, deps using visit_induction database with
  | nil path depth => simp [visitDeps_nil, Visit.nothing, AnyReaches]
  | marker path depth rest onRest =>
      simp only [visitDeps_marker, anyReaches_marker_iff, onRest]
  | cycle path depth dep rest notMarker onPath =>
      rw [visitDeps_of_mem notMarker onPath]
      constructor
      · intro impossible
        cases impossible
      · intro buildable
        have atDep := buildable dep ((anyReaches_cons_iff notMarker).mpr (Or.inl .refl))
        exact absurd onPath atDep.fresh
  | unknown path depth dep rest notMarker fresh unknown =>
      rw [visitDeps_of_unknown notMarker fresh unknown]
      constructor
      · intro impossible
        cases impossible
      · intro buildable
        have atDep := buildable dep ((anyReaches_cons_iff notMarker).mpr (Or.inl .refl))
        obtain ⟨body, found, -⟩ := atDep.known
        rw [unknown] at found
        cases found
  | enter path depth dep rest body notMarker fresh found onBody onRest =>
      rw [visitDeps_of_found notMarker fresh found, Visit.result_andThen_eq_ok_iff,
        result_visitAround_eq_ok_iff, onBody, onRest, ← forall_buildable_iff_of_found fresh found]
      simp only [anyReaches_cons_iff notMarker, or_imp, forall_and]

/-- A visit that succeeds begins the targets that the dependencies need, and no others. -/
theorem mem_entered_visitDeps_iff {path : List String} {depth : Nat} {deps : List String}
    (succeeded : (visitDeps database path depth deps).result = .ok ()) (target : String) :
    target ∈ Trace.entered (visitDeps database path depth deps).steps ↔
      AnyReaches database.plan deps target := by
  induction path, depth, deps using visit_induction database with
  | nil path depth => simp [visitDeps_nil, Visit.nothing, Trace.entered, AnyReaches]
  | marker path depth rest onRest =>
      rw [visitDeps_marker] at succeeded ⊢
      rw [anyReaches_marker_iff, onRest succeeded]
  | cycle path depth dep rest notMarker onPath =>
      rw [visitDeps_of_mem notMarker onPath] at succeeded
      cases succeeded
  | unknown path depth dep rest notMarker fresh unknown =>
      rw [visitDeps_of_unknown notMarker fresh unknown] at succeeded
      cases succeeded
  | enter path depth dep rest body notMarker fresh found onBody onRest =>
      rw [visitDeps_of_found notMarker fresh found] at succeeded ⊢
      obtain ⟨aroundDep, atRest⟩ := (Visit.result_andThen_eq_ok_iff _ _).mp succeeded
      obtain ⟨atBody, expand⟩ := (result_visitAround_eq_ok_iff ..).mp aroundDep
      rw [Visit.steps_andThen_of_ok aroundDep, Trace.entered_append,
        entered_visitAround atBody expand, List.mem_append, List.mem_cons, onBody atBody,
        onRest atRest, anyReaches_cons_iff notMarker, reaches_iff_of_found found]

theorem result_request_eq_ok_iff {name : String} (notMarker : name ≠ waitMarker) :
    (request database name).result = .ok () ↔
      ∀ target, Reaches database.plan name target → Buildable database [] target := by
  rw [request, if_neg notMarker]
  cases found : database.plan.get? name with
  | none =>
      rw [visit_of_unknown found]
      constructor
      · intro impossible
        cases impossible
      · intro buildable
        obtain ⟨body, known, -⟩ := (buildable name .refl).known
        rw [found] at known
        cases known
  | some body =>
      rw [visit_of_found found, result_visitAround_eq_ok_iff, result_visitDeps_eq_ok_iff,
        ← forall_buildable_iff_of_found List.not_mem_nil found]

private theorem mem_entered_request_iff {name : String} (notMarker : name ≠ waitMarker)
    (succeeded : (request database name).result = .ok ()) (target : String) :
    target ∈ Trace.entered (request database name).steps ↔
      Reaches database.plan name target := by
  rw [request, if_neg notMarker] at succeeded ⊢
  cases found : database.plan.get? name with
  | none =>
      rw [visit_of_unknown found] at succeeded
      cases succeeded
  | some body =>
      rw [visit_of_found found] at succeeded ⊢
      obtain ⟨atBody, expand⟩ := (result_visitAround_eq_ok_iff ..).mp succeeded
      rw [entered_visitAround atBody expand, List.mem_cons, mem_entered_visitDeps_iff atBody,
        reaches_iff_of_found found]

/-- A build succeeds exactly when every target that it reaches is in the plan, does not need itself
and has only rules that expand with its own conditional macros. Then the targets begun are those
that it reaches. -/
theorem buildInto_eq_ok_iff (database : Database) {name : String} (notMarker : name ≠ waitMarker) :
    ((database.buildInto name .empty).2 = .ok () ↔
      (∀ target, Reaches database.plan name target → target ∈ database.plan.names) ∧
      (∀ target, Reaches database.plan name target → ¬ OnCycle database.plan target) ∧
      ∀ target body, Reaches database.plan name target → database.plan.get? target = some body →
        RulesExpand database target body.rules) ∧
    ((database.buildInto name .empty).2 = .ok () →
      ∀ target, target ∈ Trace.entered (database.buildInto name .empty).1.steps.toList ↔
        Reaches database.plan name target) := by
  obtain ⟨later, laterSteps, built⟩ := exists_record_of_request database name .empty
  rw [built, laterSteps]
  refine ⟨?_, mem_entered_request_iff notMarker⟩
  rw [result_request_eq_ok_iff notMarker]
  constructor
  · intro buildable
    refine ⟨?_, fun target reached => (buildable target reached).acyclic, ?_⟩
    · intro target reached
      obtain ⟨body, found, -⟩ := (buildable target reached).known
      exact Table.mem_names_of_get? found
    · intro target body reached found
      obtain ⟨other, sameBody, expand⟩ := (buildable target reached).known
      rw [found] at sameBody
      cases sameBody
      exact expand
  · rintro ⟨known, acyclic, expand⟩ target reached
    refine ⟨List.not_mem_nil, acyclic target reached, ?_⟩
    obtain ⟨body, found⟩ := Option.isSome_iff_exists.mp
      ((database.plan.isSome_get?_iff target).mpr (known target reached))
    exact ⟨body, found, expand target body reached found⟩

theorem buildInto_diamond :
    let plan := (((Plan.commit .empty (.start ["all"] ["left", ".WAIT", "right", "left"])).commit
      (.start ["left", "right"] ["base"])).commit ⟨["base"], ⟨[], ["echo $(NAME)"]⟩⟩)
    let database : Database := ⟨.empty, .empty, plan, false⟩
    "all" ≠ waitMarker ∧ (database.buildInto "all" .empty).2 = .ok () ∧
      ¬ OnCycle plan "all" ∧
      ∀ target, Reaches plan "all" target ↔ target ∈ ["all", "left", "base", "right"] := by
  intro plan database
  have notMarker : "all" ≠ waitMarker := by decide
  have visited : (request database "all").result = .ok () := by cbv
  have entered : Trace.entered (request database "all").steps =
      ["all", "left", "base", "right", "base", "left", "base"] := by cbv
  obtain ⟨later, laterSteps, whole⟩ := exists_record_of_request database "all" .empty
  obtain ⟨succeeds, begun⟩ := buildInto_eq_ok_iff database notMarker
  rw [whole, visited] at succeeds begun
  refine ⟨notMarker, by rw [whole, visited], (succeeds.mp rfl).2.1 "all" .refl, ?_⟩
  intro target
  have met := begun rfl target
  rw [laterSteps, Record.empty, List.nil_append, entered] at met
  rw [← met]
  simp only [List.mem_cons, List.not_mem_nil]
  grind

end DryMake.Build
