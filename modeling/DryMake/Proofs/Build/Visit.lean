import DryMake.Build

/-!
Building as plain recursion. A visit of a target records that it is begun, visits its dependencies in
their order, records its commands and records that it is finished. It keeps no stack, only the path of
names that led to the target.
-/

namespace DryMake.Build

/-- What a part of a build records, and how it ends. -/
structure Visit where
  steps : List Step
  result : Except BuildError Unit

namespace Visit

def nothing : Visit := ⟨[], .ok ()⟩

def single (step : Step) : Visit := ⟨[step], .ok ()⟩

def failed (failure : BuildError) : Visit := ⟨[], .error failure⟩

def andThen (first second : Visit) : Visit :=
  match first.result with
  | .error failure => ⟨first.steps, .error failure⟩
  | .ok () => ⟨first.steps ++ second.steps, second.result⟩

theorem andThen_assoc (first second third : Visit) :
    (first.andThen second).andThen third = first.andThen (second.andThen third) := by
  unfold andThen
  cases first.result with
  | error failure => rfl
  | ok value => cases second.result <;> simp

theorem result_andThen_eq_ok_iff (first second : Visit) :
    (first.andThen second).result = .ok () ↔ first.result = .ok () ∧ second.result = .ok () := by
  unfold andThen
  cases first.result with
  | error failure => simp
  | ok value => simp

theorem steps_andThen_of_ok {first : Visit} (succeeded : first.result = .ok ())
    (second : Visit) : (first.andThen second).steps = first.steps ++ second.steps := by
  rw [andThen, succeeded]

theorem mem_steps_andThen {first second : Visit} {step : Step}
    (member : step ∈ (first.andThen second).steps) : step ∈ first.steps ∨ step ∈ second.steps := by
  unfold andThen at member
  split at member
  · exact Or.inl member
  · exact List.mem_append.mp member

theorem mem_steps_andThen_of_left {first : Visit} {step : Step} (member : step ∈ first.steps)
    (second : Visit) : step ∈ (first.andThen second).steps := by
  unfold andThen
  split
  · exact member
  · exact List.mem_append_left _ member

end Visit

def visitRules (database : Database) (name : String) (depth : Nat) : List String → Visit
  | [] => .nothing
  | rule :: rest =>
      match (database.bindingsFor name).expand rule with
      | .error cause => .failed (.expansion name rule cause)
      | .ok command =>
          (Visit.single (.command name depth command)).andThen
            (visitRules database name depth rest)

theorem visitRules_congr {database other : Database} {name : String} {rules : List String}
    (same : ∀ rule ∈ rules,
      (database.bindingsFor name).expand rule = (other.bindingsFor name).expand rule)
    (depth : Nat) :
    visitRules database name depth rules = visitRules other name depth rules := by
  induction rules with
  | nil => rfl
  | cons rule rest inductionHypothesis =>
      obtain ⟨here, onRest⟩ := List.forall_mem_cons.mp same
      rw [visitRules, visitRules, here, inductionHypothesis onRest]

def visitAround (database : Database) (name : String) (depth : Nat) (rules : List String)
    (deps : Visit) : Visit :=
  (Visit.single (.enter name depth (database.conditionals.entriesFor name))).andThen <|
    deps.andThen <|
      (visitRules database name depth rules).andThen <|
        .single (.leave name depth)

section

variable {database : Database} {name : String} {depth : Nat} {rules : List String} {deps : Visit}
  {step : Step}

private theorem of_mem_visitRules
    (member : step ∈ (visitRules database name depth rules).steps) :
    step.target = name ∧ step.depth = depth := by
  induction rules with
  | nil => cases member
  | cons rule rest inductionHypothesis =>
      rw [visitRules] at member
      cases expanded : (database.bindingsFor name).expand rule with
      | error cause =>
          rw [expanded] at member
          cases member
      | ok command =>
          rw [expanded] at member
          rcases Visit.mem_steps_andThen member with here | later
          · rw [List.mem_singleton.mp here]
            exact ⟨rfl, rfl⟩
          · exact inductionHypothesis later

theorem of_mem_visitAround
    (member : step ∈ (visitAround database name depth rules deps).steps) :
    (step.target = name ∧ step.depth = depth) ∨ step ∈ deps.steps := by
  rcases Visit.mem_steps_andThen member with entered | afterEntered
  · rw [List.mem_singleton.mp entered]
    exact Or.inl ⟨rfl, rfl⟩
  rcases Visit.mem_steps_andThen afterEntered with inDeps | afterDeps
  · exact Or.inr inDeps
  rcases Visit.mem_steps_andThen afterDeps with ran | left
  · exact Or.inl (of_mem_visitRules ran)
  · rw [List.mem_singleton.mp left]
    exact Or.inl ⟨rfl, rfl⟩

theorem enter_mem_visitAround (database : Database) (name : String) (depth : Nat)
    (rules : List String) (deps : Visit) :
    .enter name depth (database.conditionals.entriesFor name) ∈
      (visitAround database name depth rules deps).steps :=
  Visit.mem_steps_andThen_of_left (List.mem_singleton_self _) _

theorem mem_visitAround_of_mem_deps (member : step ∈ deps.steps)
    (database : Database) (name : String) (depth : Nat) (rules : List String) :
    step ∈ (visitAround database name depth rules deps).steps := by
  rw [visitAround, Visit.steps_andThen_of_ok rfl]
  exact List.mem_append_right _ (Visit.mem_steps_andThen_of_left member _)

end

private theorem unused_path_lt {plan : Plan} {path : List String} {name : String}
    {body : Target} (found : plan.get? name = some body) (fresh : name ∉ path) :
    Budget.unused plan.names (path ++ [name]) < Budget.unused plan.names path := by
  have sameNames : ∀ other, other ∈ path ++ [name] ↔ other ∈ name :: path := by
    intro other
    simp [or_comm]
  rw [Budget.unused_congr plan.names sameNames]
  exact Budget.unused_cons_lt (Table.mem_names_of_get? found) fresh

mutual

/-- Builds a target to which the targets of `path` led, the one that was asked for first. -/
def visit (database : Database) (path : List String) (name : String) (_fresh : name ∉ path)
    (depth : Nat) : Visit :=
  match _found : database.plan.get? name with
  | none => .failed (.unknownTarget name path.getLast?)
  | some body =>
      visitAround database name depth body.rules
        (visitDeps database (path ++ [name]) depth body.deps)
termination_by (Budget.unused database.plan.names path, 0)
decreasing_by exact Prod.Lex.left _ _ (unused_path_lt _found _fresh)

/-- Builds dependencies of the last target of `path`, which has the given depth. -/
def visitDeps (database : Database) (path : List String) (depth : Nat) :
    List String → Visit
  | [] => .nothing
  | dep :: rest =>
      if dep = waitMarker then visitDeps database path depth rest
      else if onPath : dep ∈ path then
        .failed (.dependencyCycle (path.dropWhile (· != dep) ++ [dep]))
      else
        (visit database path dep onPath (depth + 1)).andThen (visitDeps database path depth rest)
termination_by deps => (Budget.unused database.plan.names path, deps.length + 1)
decreasing_by
  · exact Prod.Lex.right _ (Nat.lt_succ_self _)
  · exact Prod.Lex.right _ (Nat.succ_pos _)
  · exact Prod.Lex.right _ (Nat.lt_succ_self _)

end

def request (database : Database) (name : String) : Visit :=
  if name = waitMarker then .nothing
  else visit database [] name List.not_mem_nil 1

variable {database : Database}

theorem visit_of_unknown {name : String} (unknown : database.plan.get? name = none)
    (path : List String) (fresh : name ∉ path) (depth : Nat) :
    visit database path name fresh depth = .failed (.unknownTarget name path.getLast?) := by
  rw [visit]
  split
  · rfl
  · rename_i body found
    rw [unknown] at found
    contradiction

theorem visit_of_found {name : String} {body : Target}
    (found : database.plan.get? name = some body) (path : List String) (fresh : name ∉ path)
    (depth : Nat) :
    visit database path name fresh depth =
      visitAround database name depth body.rules
        (visitDeps database (path ++ [name]) depth body.deps) := by
  rw [visit]
  split
  · rename_i unknown
    rw [unknown] at found
    contradiction
  · rename_i other same
    rw [found] at same
    cases same
    rfl

theorem visitDeps_nil (path : List String) (depth : Nat) :
    visitDeps database path depth [] = .nothing := by
  rw [visitDeps]

theorem visitDeps_marker (path : List String) (depth : Nat) (rest : List String) :
    visitDeps database path depth (waitMarker :: rest) = visitDeps database path depth rest := by
  rw [visitDeps, if_pos rfl]

section

variable {path : List String} {dep : String}

theorem visitDeps_of_mem (notMarker : dep ≠ waitMarker) (onPath : dep ∈ path) (depth : Nat)
    (rest : List String) :
    visitDeps database path depth (dep :: rest) =
      .failed (.dependencyCycle (path.dropWhile (· != dep) ++ [dep])) := by
  rw [visitDeps, if_neg notMarker, dif_pos onPath]

theorem visitDeps_of_unknown (notMarker : dep ≠ waitMarker) (fresh : dep ∉ path)
    (unknown : database.plan.get? dep = none) (depth : Nat) (rest : List String) :
    visitDeps database path depth (dep :: rest) =
      .failed (.unknownTarget dep path.getLast?) := by
  rw [visitDeps, if_neg notMarker, dif_neg fresh, visit_of_unknown unknown]
  rfl

theorem visitDeps_of_found {body : Target} (notMarker : dep ≠ waitMarker) (fresh : dep ∉ path)
    (found : database.plan.get? dep = some body) (depth : Nat) (rest : List String) :
    visitDeps database path depth (dep :: rest) =
      (visitAround database dep (depth + 1) body.rules
        (visitDeps database (path ++ [dep]) (depth + 1) body.deps)).andThen
          (visitDeps database path depth rest) := by
  rw [visitDeps, if_neg notMarker, dif_neg fresh, visit_of_found found]

end

/-- Induction along the visits: a property of a list of dependencies may be assumed of the
dependencies of its first target, and of the rest of the list. -/
theorem visit_induction (database : Database)
    {motive : List String → Nat → List String → Prop}
    (nil : ∀ path depth, motive path depth [])
    (marker : ∀ path depth rest, motive path depth rest →
      motive path depth (waitMarker :: rest))
    (cycle : ∀ path depth dep rest, dep ≠ waitMarker → dep ∈ path →
      motive path depth (dep :: rest))
    (unknown : ∀ path depth dep rest, dep ≠ waitMarker → dep ∉ path →
      database.plan.get? dep = none → motive path depth (dep :: rest))
    (enter : ∀ path depth dep rest body, dep ≠ waitMarker → dep ∉ path →
      database.plan.get? dep = some body → motive (path ++ [dep]) (depth + 1) body.deps →
      motive path depth rest → motive path depth (dep :: rest))
    (path : List String) (depth : Nat) (deps : List String) : motive path depth deps :=
  match deps with
  | [] => nil path depth
  | dep :: rest => by
      have ofRest : motive path depth rest :=
        visit_induction database nil marker cycle unknown enter path depth rest
      by_cases isMarker : dep = waitMarker
      · rw [isMarker]
        exact marker path depth rest ofRest
      · by_cases onPath : dep ∈ path
        · exact cycle path depth dep rest isMarker onPath
        · cases found : database.plan.get? dep with
          | none => exact unknown path depth dep rest isMarker onPath found
          | some body =>
              have deeper := unused_path_lt found onPath
              have ofBody : motive (path ++ [dep]) (depth + 1) body.deps :=
                visit_induction database nil marker cycle unknown enter (path ++ [dep])
                  (depth + 1) body.deps
              exact enter path depth dep rest body isMarker onPath found ofBody ofRest
termination_by (Budget.unused database.plan.names path, deps.length)
decreasing_by
  · exact Prod.Lex.right _ (Nat.lt_succ_self _)
  · exact Prod.Lex.left _ _ deeper

end DryMake.Build
