import DryMake.Proofs.Build.OpenVisit
import DryMake.Proofs.Build.Requests

/-!
Markers in a plan mean nothing to a build. A plan that is freed of them, among its targets and in
every list of dependencies, is built like the plan itself. The two builds stop at other positions of
other lists, but they visit the same targets along the same paths.
-/

namespace DryMake

/-- The plan without targets named like the marker, and without markers among dependencies. -/
def Plan.withoutMarkers (plan : Plan) : Plan where
  entries := (plan.entries.filter (·.1 ≠ waitMarker)).map fun entry =>
    (entry.1, ⟨Build.needed entry.2.deps, entry.2.rules⟩)
  distinct := by
    rw [List.map_map]
    exact plan.distinct.sublist (List.filter_sublist.map Prod.fst)

private theorem Plan.get?_withoutMarkers (plan : Plan) (name : String) :
    plan.withoutMarkers.get? name =
      if name = waitMarker then none
      else (plan.get? name).map fun body => ⟨Build.needed body.deps, body.rules⟩ := by
  have inEntries : ∀ body, plan.withoutMarkers.get? name = some body ↔
      name ≠ waitMarker ∧ ∃ whole, plan.get? name = some whole ∧
        ⟨Build.needed whole.deps, whole.rules⟩ = body := by
    intro body
    simp only [Table.get?_eq_some_iff, withoutMarkers, List.mem_map, List.mem_filter,
      decide_eq_true_eq, Prod.exists, Prod.mk.injEq]
    constructor
    · rintro ⟨_, whole, ⟨member, notMarker⟩, rfl, same⟩
      exact ⟨notMarker, whole, member, same⟩
    · rintro ⟨notMarker, whole, member, same⟩
      exact ⟨name, whole, ⟨member, notMarker⟩, rfl, same⟩
  ext body
  rw [inEntries]
  split
  · rename_i marker
    simp [marker]
  · rename_i notMarker
    simp [notMarker]

def Database.withoutMarkers (database : Database) : Database :=
  { database with plan := database.plan.withoutMarkers }

namespace Build

variable {database : Database}

private theorem visitAround_withoutMarkers (name : String) (depth : Nat) (rules : List String)
    (deps : Visit) :
    visitAround database.withoutMarkers name depth rules deps =
      visitAround database name depth rules deps := by
  have sameExpansions : ∀ rule ∈ rules, (database.withoutMarkers.bindingsFor name).expand rule =
      (database.bindingsFor name).expand rule := fun _ _ => rfl
  rw [visitAround, visitAround, visitRules_congr sameExpansions depth]
  rfl

private theorem get?_withoutMarkers_of_found {name : String} {body : Target}
    (notMarker : name ≠ waitMarker) (found : database.plan.get? name = some body) :
    database.withoutMarkers.plan.get? name = some ⟨needed body.deps, body.rules⟩ := by
  rw [Database.withoutMarkers, Plan.get?_withoutMarkers, if_neg notMarker, found, Option.map_some]

private theorem get?_withoutMarkers_of_unknown {name : String}
    (unknown : database.plan.get? name = none) :
    database.withoutMarkers.plan.get? name = none := by
  rw [Database.withoutMarkers, Plan.get?_withoutMarkers, unknown, Option.map_none, ite_self]

/-- The path tells what a visit meets, and it holds no positions. -/
theorem visitDeps_withoutMarkers (path : List String) (depth : Nat) (deps : List String) :
    visitDeps database.withoutMarkers path depth (needed deps) =
      visitDeps database path depth deps := by
  induction path, depth, deps using visit_induction database with
  | nil path depth => rw [needed_nil, visitDeps_nil, visitDeps_nil]
  | marker path depth rest onRest => rw [needed_marker, visitDeps_marker, onRest]
  | cycle path depth dep rest notMarker onPath =>
      rw [needed_cons notMarker, visitDeps_of_mem notMarker onPath,
        visitDeps_of_mem notMarker onPath]
  | unknown path depth dep rest notMarker fresh unknown =>
      rw [needed_cons notMarker, visitDeps_of_unknown notMarker fresh unknown,
        visitDeps_of_unknown notMarker fresh (get?_withoutMarkers_of_unknown unknown)]
  | enter path depth dep rest body notMarker fresh found onBody onRest =>
      rw [needed_cons notMarker, visitDeps_of_found notMarker fresh found,
        visitDeps_of_found notMarker fresh (get?_withoutMarkers_of_found notMarker found),
        visitAround_withoutMarkers, onBody, onRest]

private theorem requestAll_needed (names : List String) :
    requestAll database (needed names) = requestAll database names := by
  induction names with
  | nil => rfl
  | cons name rest inductionHypothesis =>
      by_cases marker : name = waitMarker
      · rw [marker, needed_marker, requestAll, request, if_pos rfl, inductionHypothesis]
        rfl
      · rw [needed_cons marker, requestAll, requestAll, inductionHypothesis]

private theorem requestAll_withoutMarkers (names : List String) :
    requestAll database.withoutMarkers names = requestAll database names := by
  rw [← requestAll_needed, requestAll_eq_visitDeps, visitDeps_withoutMarkers,
    ← requestAll_eq_visitDeps]

/-- What is built records the same steps and ends in the same way when the plan is freed of markers,
when those among the requests are left out, and when both is done. The plan that is freed has all
other targets, with their rules and all their other dependencies. -/
theorem buildAllInto_withoutMarkers (database : Database) (announced : Bool) (record : Record)
    (names : List String) :
    let freed := database.plan.withoutMarkers
    let built := database.buildAllInto announced record names
    (∀ name, freed.get? name =
      if name = waitMarker then none
      else (database.plan.get? name).map fun body =>
        ⟨body.deps.filter (· ≠ waitMarker), body.rules⟩) ∧
    ∀ plan ∈ [database.plan, freed], ∀ asked ∈ [names, names.filter (· ≠ waitMarker)],
      let other := Database.buildAllInto { database with plan } announced record asked
      other.1.steps = built.1.steps ∧ other.2 = built.2 := by
  intro freed built
  refine ⟨database.plan.get?_withoutMarkers, ?_⟩
  have sameRequests : ∀ plan ∈ [database.plan, freed],
      ∀ asked ∈ [names, names.filter (· ≠ waitMarker)],
        requestAll { database with plan } asked = requestAll database names := by
    intro plan isPlan asked isAsked
    have samePlan : requestAll { database with plan } asked = requestAll database asked := by
      rcases List.mem_pair.mp isPlan with rfl | rfl
      · rfl
      · exact requestAll_withoutMarkers asked
    rw [samePlan]
    rcases List.mem_pair.mp isAsked with rfl | rfl
    · rfl
    · exact requestAll_needed names
  intro plan isPlan asked isAsked other
  obtain ⟨builtSteps, builtResult⟩ := buildAllInto_eq_requestAll database announced record names
  obtain ⟨otherSteps, otherResult⟩ :=
    buildAllInto_eq_requestAll { database with plan } announced record asked
  rw [sameRequests plan isPlan asked isAsked] at otherSteps otherResult
  exact ⟨Array.toList_inj.mp (otherSteps.trans builtSteps.symm),
    otherResult.trans builtResult.symm⟩

end Build

end DryMake
