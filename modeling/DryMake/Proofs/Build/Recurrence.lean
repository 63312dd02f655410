import DryMake.Proofs.Build.OpenVisit
import Mathlib

/-!
A target is built alike wherever it is met. A visit that succeeds has met no target of the path above
it, and takes nothing else from there but its depth. So each target of a trace has a block of steps to
itself, that of a build of the target alone; and there is one block for each way to the target along
the dependencies.
-/

namespace DryMake

def Step.deepen (count : Nat) : Step → Step
  | .enter target depth conditionals => .enter target (depth + count) conditionals
  | .command target depth text => .command target (depth + count) text
  | .leave target depth => .leave target (depth + count)

def Step.rise : Step → Int
  | .enter .. => 1
  | .command .. => 0
  | .leave .. => -1

/-- The positions lead from a target on to another: each one is that of a dependency among those of
the target before it. Nothing is built for a marker, so none leads to it or past it. -/
inductive Plan.Route (plan : Plan) : String → List Nat → String → Prop where
  | here {name : String} (notMarker : name ≠ waitMarker) : plan.Route name [] name
  | through {name dep target : String} {body : Target} {position : Nat} {way : List Nat}
      (notMarker : name ≠ waitMarker) (found : plan.get? name = some body)
      (isDep : body.deps[position]? = some dep) (further : plan.Route dep way target) :
      plan.Route name (position :: way) target

namespace Build

variable {database : Database}

def rise (steps : List Step) : Int :=
  (steps.map Step.rise).sum

@[simp] theorem rise_nil : rise [] = 0 := rfl

@[simp] theorem rise_cons (step : Step) (rest : List Step) :
    rise (step :: rest) = step.rise + rise rest := by
  simp [rise]

@[simp] theorem rise_append (first second : List Step) :
    rise (first ++ second) = rise first + rise second := by
  simp [rise]

/-- The steps leave each target that they begin, and no other. -/
structure IsNested (steps : List Step) : Prop where
  never : ∀ start, start <+: steps → 0 ≤ rise start
  whole : rise steps = 0

/-- The steps from one that begins a target up to the one that leaves it: all that is begun after the
first step is left before the last one. -/
structure IsBlock (target : String) (depth : Nat) (steps : List Step) : Prop where
  ends : steps.getLast? = some (.leave target depth)
  within : ∀ start, start <+: steps → start ≠ [] → start ≠ steps → 0 < rise start
  whole : rise steps = 0

private theorem isNested_nil : IsNested [] := by
  constructor
  · intro start isStart
    rw [List.prefix_nil.mp isStart]
    exact Int.le_refl 0
  · rfl

private theorem IsNested.append {first second : List Step} (nested : IsNested first)
    (nestedToo : IsNested second) : IsNested (first ++ second) := by
  constructor
  · rintro start ⟨others, split⟩
    rcases List.append_eq_append_iff.mp split with ⟨between, rfl, -⟩ | ⟨between, rfl, same⟩
    · exact nested.never start (List.prefix_append start between)
    · have above := nestedToo.never between ⟨others, same.symm⟩
      have whole := nested.whole
      rw [rise_append]
      omega
  · rw [rise_append, nested.whole, nestedToo.whole]
    rfl

private theorem isNested_commands (name : String) (depth : Nat) (commands : List String) :
    IsNested (commands.map (.command name depth)) := by
  have flat : ∀ steps, (∀ step ∈ steps, step.rise = 0) → rise steps = 0 := by
    intro steps
    induction steps with
    | nil => exact fun _ => rfl
    | cons step rest inductionHypothesis =>
        intro still
        rw [rise_cons, still step List.mem_cons_self,
          inductionHypothesis fun other member => still other (List.mem_cons_of_mem step member)]
        rfl
  have still : ∀ step ∈ commands.map (Step.command name depth), step.rise = 0 := by
    intro step member
    obtain ⟨command, -, rfl⟩ := List.mem_map.mp member
    rfl
  constructor
  · intro start isStart
    exact Int.le_of_eq (flat start fun step member => still step (isStart.subset member)).symm
  · exact flat _ still

theorem IsNested.isBlock {inner : List Step} (nested : IsNested inner) (target : String)
    (depth : Nat) (conditionals : List (String × String)) :
    IsBlock target depth (.enter target depth conditionals :: (inner ++ [.leave target depth])) := by
  constructor
  · rw [← List.cons_append, List.getLast?_concat]
  · intro start isStart nonempty proper
    rcases List.prefix_cons_iff.mp isStart with rfl | ⟨others, rfl, onRest⟩
    · exact absurd rfl nonempty
    · rcases List.prefix_concat_iff.mp onRest with rfl | inInner
      · exact absurd rfl proper
      · have above := nested.never others inInner
        rw [rise_cons, Step.rise]
        omega
  · have whole := nested.whole
    simp only [rise_cons, rise_append, rise_nil, Step.rise]
    omega

private theorem IsBlock.isNested {target : String} {depth : Nat} {steps : List Step}
    (block : IsBlock target depth steps) : IsNested steps := by
  constructor
  · intro start isStart
    by_cases empty : start = []
    · rw [empty]
      exact Int.le_refl 0
    · by_cases all : start = steps
      · rw [all, block.whole]
      · exact Int.le_of_lt (block.within start isStart empty all)
  · exact block.whole

/-- The visits of dependencies succeed: each target is in the plan and off the path, its rules expand,
and so it is for its own dependencies. -/
inductive Succeed (database : Database) : List String → Nat → List String → Prop where
  | nil (path : List String) (depth : Nat) : Succeed database path depth []
  | marker {path : List String} {depth : Nat} {rest : List String}
      (onRest : Succeed database path depth rest) : Succeed database path depth (waitMarker :: rest)
  | enter {path : List String} {depth : Nat} {dep : String} {rest : List String} {body : Target}
      (notMarker : dep ≠ waitMarker) (fresh : dep ∉ path)
      (found : database.plan.get? dep = some body) (expand : RulesExpand database dep body.rules)
      (onBody : Succeed database (path ++ [dep]) (depth + 1) body.deps)
      (onRest : Succeed database path depth rest) : Succeed database path depth (dep :: rest)

theorem succeed_of_ok {path : List String} {depth : Nat} {deps : List String}
    (succeeded : (visitDeps database path depth deps).result = .ok ()) :
    Succeed database path depth deps := by
  induction path, depth, deps using visit_induction database with
  | nil path depth => exact .nil path depth
  | marker path depth rest onRest =>
      rw [visitDeps_marker] at succeeded
      exact .marker (onRest succeeded)
  | cycle path depth dep rest notMarker onPath =>
      rw [visitDeps_of_mem notMarker onPath] at succeeded
      cases succeeded
  | unknown path depth dep rest notMarker fresh unknown =>
      rw [visitDeps_of_unknown notMarker fresh unknown] at succeeded
      cases succeeded
  | enter path depth dep rest body notMarker fresh found onBody onRest =>
      rw [visitDeps_of_found notMarker fresh found] at succeeded
      obtain ⟨aroundDep, atRest⟩ := (Visit.result_andThen_eq_ok_iff _ _).mp succeeded
      obtain ⟨atBody, expand⟩ := (result_visitAround_eq_ok_iff ..).mp aroundDep
      exact .enter notMarker fresh found expand (onBody atBody) (onRest atRest)

private theorem Succeed.result_eq_ok {path : List String} {depth : Nat} {deps : List String}
    (succeed : Succeed database path depth deps) :
    (visitDeps database path depth deps).result = .ok () := by
  induction succeed with
  | nil path depth => rw [visitDeps_nil, Visit.nothing]
  | marker _ onRest => rw [visitDeps_marker, onRest]
  | enter notMarker fresh found expand _ _ onBody onRest =>
      rw [visitDeps_of_found notMarker fresh found, Visit.result_andThen_eq_ok_iff,
        result_visitAround_eq_ok_iff]
      exact ⟨⟨onBody, expand⟩, onRest⟩

theorem steps_visitDeps {path : List String} {depth : Nat} {dep : String} {body : Target}
    (notMarker : dep ≠ waitMarker) (fresh : dep ∉ path)
    (found : database.plan.get? dep = some body) (expand : RulesExpand database dep body.rules)
    (succeed : Succeed database (path ++ [dep]) (depth + 1) body.deps) (rest : List String) :
    (visitDeps database path depth (dep :: rest)).steps =
      (visitAround database dep (depth + 1) body.rules
        (visitDeps database (path ++ [dep]) (depth + 1) body.deps)).steps ++
          (visitDeps database path depth rest).steps := by
  rw [visitDeps_of_found notMarker fresh found]
  exact Visit.steps_andThen_of_ok
    ((result_visitAround_eq_ok_iff ..).mpr ⟨succeed.result_eq_ok, expand⟩) _

def Visit.deepen (count : Nat) (part : Visit) : Visit :=
  ⟨part.steps.map (.deepen count), part.result⟩

private theorem deepen_andThen (count : Nat) (first second : Visit) :
    (first.andThen second).deepen count = (first.deepen count).andThen (second.deepen count) := by
  unfold Visit.andThen Visit.deepen
  cases first.result with
  | error failure => rfl
  | ok value => simp

private theorem deepen_visitRules (name : String) (depth count : Nat) (rules : List String) :
    (visitRules database name depth rules).deepen count =
      visitRules database name (depth + count) rules := by
  induction rules with
  | nil => rfl
  | cons rule rest inductionHypothesis =>
      rw [visitRules, visitRules]
      cases (database.bindingsFor name).expand rule with
      | error cause => rfl
      | ok command =>
          dsimp only
          rw [deepen_andThen, inductionHypothesis]
          rfl

private theorem deepen_visitAround (name : String) (depth count : Nat) (rules : List String)
    (deps : Visit) :
    (visitAround database name depth rules deps).deepen count =
      visitAround database name (depth + count) rules (deps.deepen count) := by
  rw [visitAround, visitAround, deepen_andThen, deepen_andThen, deepen_andThen, deepen_visitRules]
  rfl

/-- A visit that succeeds goes the same way from a path with fewer targets on it, and from another
depth. -/
theorem Succeed.visitDeps_eq_deepen {path : List String} {depth : Nat} {deps : List String}
    (succeed : Succeed database path depth deps) :
    ∀ (other : List String) (level count : Nat), other ⊆ path → depth = level + count →
      visitDeps database path depth deps = (visitDeps database other level deps).deepen count := by
  induction succeed with
  | nil path depth =>
      intro other level count fewer further
      rw [visitDeps_nil, visitDeps_nil]
      rfl
  | marker _ onRest =>
      intro other level count fewer further
      rw [visitDeps_marker, visitDeps_marker]
      exact onRest other level count fewer further
  | @enter path depth dep rest body notMarker fresh found _ _ _ onBody onRest =>
      intro other level count fewer further
      have below : depth + 1 = level + 1 + count := by omega
      have fewerBelow : other ++ [dep] ⊆ path ++ [dep] :=
        List.append_subset.mpr ⟨List.Subset.trans fewer (List.subset_append_left _ _),
          List.subset_append_right _ _⟩
      rw [visitDeps_of_found notMarker fresh found,
        visitDeps_of_found notMarker (fun onOther => fresh (fewer onOther)) found,
        deepen_andThen, deepen_visitAround, onRest other level count fewer further,
        onBody (other ++ [dep]) (level + 1) count fewerBelow below, below]

/-- Where a target is met, it is visited as if it had been asked for. -/
theorem visitAround_eq_deepen_request {path : List String} {depth : Nat} {name : String}
    {body : Target} (notMarker : name ≠ waitMarker) (found : database.plan.get? name = some body)
    (succeed : Succeed database (path ++ [name]) (depth + 1) body.deps) :
    visitAround database name (depth + 1) body.rules
        (visitDeps database (path ++ [name]) (depth + 1) body.deps) =
      (request database name).deepen depth := by
  have alone := succeed.visitDeps_eq_deepen ([] ++ [name]) 1 depth
    (List.subset_append_right _ _) (Nat.add_comm depth 1)
  rw [alone, request, if_neg notMarker, visit_of_found found, deepen_visitAround,
    Nat.add_comm depth 1]

/-! ### Rules -/

def commandsOf (database : Database) (name : String) (rules : List String) : List String :=
  rules.filterMap fun rule => ((database.bindingsFor name).expand rule).toOption

theorem areCommands_commandsOf {name : String} {rules : List String}
    (expand : RulesExpand database name rules) :
    AreCommands database name rules (commandsOf database name rules) := by
  induction rules with
  | nil => exact .nil
  | cons rule rest inductionHypothesis =>
      obtain ⟨⟨command, expanded⟩, onRest⟩ := List.forall_mem_cons.mp expand
      rw [commandsOf, List.filterMap_cons_some (by rw [expanded]; rfl)]
      exact .cons expanded (inductionHypothesis onRest)

private theorem steps_visitRules {name : String} {rules : List String}
    (expand : RulesExpand database name rules) (depth : Nat) :
    (visitRules database name depth rules).steps =
      (commandsOf database name rules).map (.command name depth) := by
  induction rules with
  | nil => rfl
  | cons rule rest inductionHypothesis =>
      obtain ⟨⟨command, expanded⟩, onRest⟩ := List.forall_mem_cons.mp expand
      rw [visitRules, expanded, commandsOf, List.filterMap_cons_some (by rw [expanded]; rfl),
        List.map_cons, Visit.steps_andThen_of_ok rfl, inductionHypothesis onRest]
      rfl

theorem steps_visitAround {name : String} {rules : List String} {deps : Visit}
    (built : deps.result = .ok ()) (expand : RulesExpand database name rules) (depth : Nat) :
    (visitAround database name depth rules deps).steps =
      .enter name depth (database.conditionals.entriesFor name) ::
        (deps.steps ++ (commandsOf database name rules).map (.command name depth) ++
          [.leave name depth]) := by
  have run := (result_visitRules_eq_ok_iff database name depth rules).mpr expand
  rw [visitAround, Visit.steps_andThen_of_ok rfl, Visit.steps_andThen_of_ok built,
    Visit.steps_andThen_of_ok run, steps_visitRules expand, List.append_assoc]
  rfl

private theorem isBlock_visitAround {name : String} {rules : List String} {deps : Visit}
    (built : deps.result = .ok ()) (nested : IsNested deps.steps)
    (expand : RulesExpand database name rules) (depth : Nat) :
    IsBlock name depth (visitAround database name depth rules deps).steps := by
  rw [steps_visitAround built expand]
  exact (nested.append (isNested_commands name depth _)).isBlock name depth _

private theorem Succeed.isNested {path : List String} {depth : Nat} {deps : List String}
    (succeed : Succeed database path depth deps) :
    IsNested (visitDeps database path depth deps).steps := by
  induction succeed with
  | nil path depth =>
      rw [visitDeps_nil]
      exact isNested_nil
  | marker _ onRest =>
      rw [visitDeps_marker]
      exact onRest
  | enter notMarker fresh found expand body _ onBody onRest =>
      rw [steps_visitDeps notMarker fresh found expand body]
      exact (isBlock_visitAround body.result_eq_ok onBody expand _).isNested.append onRest

/-- The steps begin with those of a build of the target alone, as they are for a target of the given
depth. -/
def BeginsBlock (database : Database) (target : String) (depth : Nat) (steps : List Step) : Prop :=
  ∃ block, block <+: steps ∧ IsBlock target depth block ∧
    (request database target).result = .ok () ∧
    block = (request database target).steps.map (.deepen (depth - 1))

def Recurs (database : Database) : List Step → Prop
  | [] => True
  | .enter target depth conditionals :: rest =>
      BeginsBlock database target depth (.enter target depth conditionals :: rest) ∧
        Recurs database rest
  | .command .. :: rest => Recurs database rest
  | .leave .. :: rest => Recurs database rest

private theorem BeginsBlock.append {target : String} {depth : Nat} {steps : List Step}
    (begins : BeginsBlock database target depth steps) (others : List Step) :
    BeginsBlock database target depth (steps ++ others) := by
  obtain ⟨block, isStart, isBlock⟩ := begins
  exact ⟨block, isStart.trans (List.prefix_append steps others), isBlock⟩

private theorem Recurs.append {first second : List Step} (recurs : Recurs database first)
    (recursToo : Recurs database second) : Recurs database (first ++ second) := by
  induction first with
  | nil => exact recursToo
  | cons step rest inductionHypothesis =>
      cases step with
      | enter target depth conditionals =>
          exact ⟨recurs.1.append second, inductionHypothesis recurs.2⟩
      | command target depth text => exact inductionHypothesis recurs
      | leave target depth => exact inductionHypothesis recurs

private theorem Recurs.beginsBlock {before after : List Step} {target : String} {depth : Nat}
    {conditionals : List (String × String)}
    (recurs : Recurs database (before ++ .enter target depth conditionals :: after)) :
    BeginsBlock database target depth (.enter target depth conditionals :: after) := by
  induction before with
  | nil => exact recurs.1
  | cons step rest inductionHypothesis =>
      cases step with
      | enter target depth conditionals => exact inductionHypothesis recurs.2
      | command target depth text => exact inductionHypothesis recurs
      | leave target depth => exact inductionHypothesis recurs

private theorem recurs_commands (name : String) (depth : Nat) (commands : List String) :
    Recurs database (commands.map (.command name depth)) := by
  induction commands with
  | nil => trivial
  | cons command rest inductionHypothesis => exact inductionHypothesis

private theorem recurs_visitAround {path : List String} {depth : Nat} {name : String}
    {body : Target} (notMarker : name ≠ waitMarker) (found : database.plan.get? name = some body)
    (expand : RulesExpand database name body.rules)
    (succeed : Succeed database (path ++ [name]) (depth + 1) body.deps)
    (recurs : Recurs database (visitDeps database (path ++ [name]) (depth + 1) body.deps).steps) :
    Recurs database (visitAround database name (depth + 1) body.rules
      (visitDeps database (path ++ [name]) (depth + 1) body.deps)).steps := by
  have built := succeed.result_eq_ok
  have isBlock := isBlock_visitAround built succeed.isNested expand (depth + 1)
  have whole := visitAround_eq_deepen_request notMarker found succeed
  have ended : (visitAround database name (depth + 1) body.rules
      (visitDeps database (path ++ [name]) (depth + 1) body.deps)).result = .ok () :=
    (result_visitAround_eq_ok_iff ..).mpr ⟨built, expand⟩
  have begins : BeginsBlock database name (depth + 1) _ :=
    ⟨_, List.prefix_refl _, isBlock, (congrArg Visit.result whole).symm.trans ended,
      congrArg Visit.steps whole⟩
  rw [steps_visitAround built expand] at begins ⊢
  exact ⟨begins, (recurs.append (recurs_commands ..)).append trivial⟩

private theorem Succeed.recurs {path : List String} {depth : Nat} {deps : List String}
    (succeed : Succeed database path depth deps) :
    Recurs database (visitDeps database path depth deps).steps := by
  induction succeed with
  | nil path depth =>
      rw [visitDeps_nil]
      trivial
  | marker _ onRest =>
      rw [visitDeps_marker]
      exact onRest
  | enter notMarker fresh found expand body _ onBody onRest =>
      rw [steps_visitDeps notMarker fresh found expand body]
      exact (recurs_visitAround notMarker found expand body onBody).append onRest

section

variable {plan : Plan} {name dep target : String} {deps : List String} {way : List Nat}

/-- The positions lead from the dependency at the first of them to the target. -/
def Departs (plan : Plan) (deps : List String) (target : String) (way : List Nat) : Prop :=
  ∃ position further dep, way = position :: further ∧ deps[position]? = some dep ∧
    plan.Route dep further target

private theorem not_route_marker : ¬ plan.Route waitMarker way target := by
  intro route
  cases route with
  | here notMarker => exact notMarker rfl
  | through notMarker => exact notMarker rfl

private theorem encard_route_marker : {way | plan.Route waitMarker way target}.encard = 0 := by
  rw [Set.encard_eq_zero, Set.eq_empty_iff_forall_notMem]
  exact fun way => not_route_marker

private theorem reaches_of_route (route : plan.Route name way target) :
    Reaches plan name target := by
  induction route with
  | here => exact .refl
  | through notMarker found isDep further inductionHypothesis =>
      refine .head ⟨_, found, List.mem_of_getElem? isDep, ?_⟩ inductionHypothesis
      rintro rfl
      exact not_route_marker further

private theorem route_iff_of_found {body : Target} (notMarker : name ≠ waitMarker)
    (found : plan.get? name = some body) :
    plan.Route name way target ↔ (way = [] ∧ name = target) ∨ Departs plan body.deps target way := by
  constructor
  · intro route
    cases route with
    | here => exact Or.inl ⟨rfl, rfl⟩
    | @through _ dep _ other position further _ sameBody isDep onward =>
        rw [found] at sameBody
        cases sameBody
        exact Or.inr ⟨position, further, dep, rfl, isDep, onward⟩
  · rintro (⟨rfl, rfl⟩ | ⟨position, further, dep, rfl, isDep, onward⟩)
    · exact .here notMarker
    · exact .through notMarker found isDep onward

private theorem departs_cons_iff :
    Departs plan (dep :: deps) target way ↔
      (∃ further, plan.Route dep further target ∧ 0 :: further = way) ∨
        ∃ other, Departs plan deps target other ∧ other.modifyHead (· + 1) = way := by
  constructor
  · rintro ⟨position, further, first, rfl, isDep, onward⟩
    cases position with
    | zero =>
        cases isDep
        exact Or.inl ⟨further, onward, rfl⟩
    | succ position =>
        rw [List.getElem?_cons_succ] at isDep
        exact Or.inr ⟨position :: further, ⟨position, further, first, rfl, isDep, onward⟩, rfl⟩
  · rintro (⟨further, onward, rfl⟩ | ⟨_, ⟨position, further, first, rfl, isDep, onward⟩, rfl⟩)
    · exact ⟨0, further, dep, rfl, rfl, onward⟩
    · exact ⟨position + 1, further, first, rfl, isDep, onward⟩

private theorem encard_departs_nil : {way | Departs plan [] target way}.encard = 0 := by
  rw [Set.encard_eq_zero, Set.eq_empty_iff_forall_notMem]
  rintro way ⟨position, further, dep, -, isDep, -⟩
  cases isDep

private theorem encard_departs_cons :
    {way | Departs plan (dep :: deps) target way}.encard =
      {way | plan.Route dep way target}.encard + {way | Departs plan deps target way}.encard := by
  have parts : {way | Departs plan (dep :: deps) target way} =
      (0 :: ·) '' {way | plan.Route dep way target} ∪
        List.modifyHead (· + 1) '' {way | Departs plan deps target way} := by
    ext way
    exact departs_cons_iff
  have moved : Function.Injective (List.modifyHead fun position : Nat => position + 1) := by
    intro first second same
    cases first <;> cases second <;> simp_all
  have apart : Disjoint ((0 :: ·) '' {way | plan.Route dep way target})
      (List.modifyHead (· + 1) '' {way | Departs plan deps target way}) := by
    rw [Set.disjoint_left]
    rintro way ⟨further, -, rfl⟩ ⟨other, ⟨position, onward, first, rfl, -, -⟩, same⟩
    exact absurd (List.cons.inj same).1 (Nat.succ_ne_zero position)
  rw [parts, Set.encard_union_eq apart, moved.encard_image,
    (List.cons_injective (a := 0)).encard_image]

private theorem encard_route {body : Target} (notMarker : name ≠ waitMarker)
    (found : plan.get? name = some body) :
    {way | plan.Route name way target}.encard =
      {way | Departs plan body.deps target way}.encard + if name = target then 1 else 0 := by
  by_cases same : name = target
  · have atOnce : {way | plan.Route name way target} =
        insert [] {way | Departs plan body.deps target way} := by
      ext way
      rw [Set.mem_ofPred_eq, route_iff_of_found notMarker found]
      simp [same]
    have nonempty : [] ∉ {way | Departs plan body.deps target way} := by
      rintro ⟨position, further, dep, impossible, -⟩
      cases impossible
    rw [atOnce, Set.encard_insert_of_notMem nonempty, if_pos same]
  · have later : {way | plan.Route name way target} =
        {way | Departs plan body.deps target way} := by
      ext way
      rw [Set.mem_ofPred_eq, route_iff_of_found notMarker found]
      simp [same]
    rw [later, if_neg same, add_zero]

end

/-! ### The commands of a target -/

private theorem commandsFor_append (first second : Trace) (target : String) :
    Trace.commandsFor (first ++ second) target =
      Trace.commandsFor first target ++ Trace.commandsFor second target :=
  List.filterMap_append

private theorem commandsFor_visitAround {name : String} {rules : List String} {deps : Visit}
    (built : deps.result = .ok ()) (expand : RulesExpand database name rules) (depth : Nat)
    (target : String) :
    Trace.commandsFor (visitAround database name depth rules deps).steps target =
      Trace.commandsFor deps.steps target ++
        if name = target then commandsOf database name rules else [] := by
  have ofRules : Trace.commandsFor ((commandsOf database name rules).map (.command name depth))
      target = if name = target then commandsOf database name rules else [] := by
    by_cases same : name = target
    · simp [Trace.commandsFor, List.filterMap_map, same]
    · simp [Trace.commandsFor, List.filterMap_map, same]
  rw [steps_visitAround built expand, ← ofRules]
  simp [Trace.commandsFor]

/-- The commands of a target come once for each way to it. -/
theorem Succeed.commandsFor_eq {path : List String} {depth : Nat} {deps : List String}
    (succeed : Succeed database path depth deps) {target : String} {commands : List String}
    (areRules : ∀ body, database.plan.get? target = some body →
      commandsOf database target body.rules = commands) :
    ∃ count : Nat, {way | Departs database.plan deps target way}.encard = count ∧
      Trace.commandsFor (visitDeps database path depth deps).steps target =
        (List.replicate count commands).flatten := by
  induction succeed with
  | nil path depth =>
      rw [visitDeps_nil]
      exact ⟨0, encard_departs_nil, rfl⟩
  | marker _ onRest =>
      obtain ⟨count, counted, repeated⟩ := onRest
      rw [visitDeps_marker, encard_departs_cons, encard_route_marker, zero_add]
      exact ⟨count, counted, repeated⟩
  | @enter path depth dep rest body notMarker fresh found expand below _ onBody onRest =>
      obtain ⟨inside, countedInside, repeatedInside⟩ := onBody
      obtain ⟨behind, countedBehind, repeatedBehind⟩ := onRest
      refine ⟨inside + (if dep = target then 1 else 0) + behind, ?_, ?_⟩
      · rw [encard_departs_cons, encard_route notMarker found, countedInside, countedBehind]
        push_cast
        rfl
      · rw [steps_visitDeps notMarker fresh found expand below, commandsFor_append,
          commandsFor_visitAround below.result_eq_ok expand, repeatedInside, repeatedBehind,
          List.replicate_add, List.replicate_add, List.flatten_append, List.flatten_append]
        by_cases same : dep = target
        · subst same
          simp [areRules body found]
        · simp [same]

theorem exists_visitAround_of_request {name : String} (notMarker : name ≠ waitMarker)
    (succeeded : (request database name).result = .ok ()) :
    ∃ body, database.plan.get? name = some body ∧ RulesExpand database name body.rules ∧
      Succeed database ([] ++ [name]) (0 + 1) body.deps ∧
      request database name = visitAround database name (0 + 1) body.rules
        (visitDeps database ([] ++ [name]) (0 + 1) body.deps) := by
  rw [request, if_neg notMarker] at succeeded ⊢
  cases found : database.plan.get? name with
  | none =>
      rw [visit_of_unknown found] at succeeded
      cases succeeded
  | some body =>
      rw [visit_of_found found] at succeeded ⊢
      obtain ⟨atBody, expand⟩ := (result_visitAround_eq_ok_iff ..).mp succeeded
      exact ⟨body, rfl, expand, succeed_of_ok atBody, rfl⟩

private theorem recurs_request {name : String}
    (succeeded : (request database name).result = .ok ()) :
    Recurs database (request database name).steps := by
  by_cases marker : name = waitMarker
  · rw [request, if_pos marker]
    trivial
  · obtain ⟨body, found, expand, succeed, whole⟩ := exists_visitAround_of_request marker succeeded
    rw [whole]
    exact recurs_visitAround marker found expand succeed succeed.recurs

private theorem commandsFor_request {name target : String} {commands : List String}
    (succeeded : (request database name).result = .ok ())
    (areRules : ∀ body, database.plan.get? target = some body →
      commandsOf database target body.rules = commands) :
    ∃ count : Nat, {way | database.plan.Route name way target}.encard = count ∧
      Trace.commandsFor (request database name).steps target =
        (List.replicate count commands).flatten := by
  by_cases marker : name = waitMarker
  · rw [request, if_pos marker, marker]
    exact ⟨0, encard_route_marker, rfl⟩
  · obtain ⟨body, found, expand, succeed, whole⟩ := exists_visitAround_of_request marker succeeded
    obtain ⟨inside, counted, repeated⟩ := succeed.commandsFor_eq areRules
    refine ⟨inside + if name = target then 1 else 0, ?_, ?_⟩
    · rw [encard_route marker found, counted]
      push_cast
      rfl
    · rw [whole, commandsFor_visitAround succeed.result_eq_ok expand, repeated, List.replicate_add,
        List.flatten_append]
      by_cases same : name = target
      · subst same
        simp [areRules body found]
      · simp [same]

/-- In the trace of a build that succeeds, each step that begins a target begins a block up to the one
that leaves it, and the block is the trace of a build of that target alone, only deeper. So the
commands of a target are those of its rules with its own conditional macros, as often as there are
ways to the target from the one that was asked for. -/
theorem buildInto_recurs (database : Database) {name : String}
    (succeeded : (database.buildInto name .empty).2 = .ok ()) :
    let steps := (database.buildInto name .empty).1.steps.toList
    (∀ before after target depth conditionals,
      steps = before ++ .enter target depth conditionals :: after →
      ∃ block rest, .enter target depth conditionals :: after = block ++ rest ∧
        IsBlock target depth block ∧ (database.buildInto target .empty).2 = .ok () ∧
        block =
          (database.buildInto target .empty).1.steps.toList.map (.deepen (depth - 1))) ∧
    ∀ target, ∃ (count : Nat) (commands : List String),
      {way | database.plan.Route name way target}.encard = count ∧
      Trace.commandsFor steps target = (List.replicate count commands).flatten ∧
      (count ≠ 0 → ∃ body, database.plan.get? target = some body ∧
        AreCommands database target body.rules commands) := by
  have alone : ∀ target, (database.buildInto target .empty).1.steps.toList =
        (request database target).steps ∧
      (database.buildInto target .empty).2 = (request database target).result := by
    intro target
    obtain ⟨later, laterSteps, built⟩ := exists_record_of_request database target .empty
    rw [built]
    exact ⟨laterSteps, rfl⟩
  intro steps
  have traced : steps = (request database name).steps := (alone name).1
  rw [(alone name).2] at succeeded
  rw [traced]
  constructor
  · intro before after target depth conditionals split
    have recurs := recurs_request succeeded
    rw [split] at recurs
    obtain ⟨block, ⟨rest, isStart⟩, isBlock, builds, same⟩ := recurs.beginsBlock
    rw [(alone target).1, (alone target).2]
    exact ⟨block, rest, isStart.symm, isBlock, builds, same⟩
  · intro target
    have areRules : ∀ body, database.plan.get? target = some body →
        commandsOf database target body.rules =
          commandsOf database target (((database.plan.get? target).map Target.rules).getD []) := by
      intro body found
      rw [found, Option.map_some, Option.getD_some]
    obtain ⟨count, counted, repeated⟩ := commandsFor_request succeeded areRules
    refine ⟨count, _, counted, repeated, ?_⟩
    intro someWay
    obtain ⟨way, route⟩ : {way | database.plan.Route name way target}.Nonempty := by
      rw [← Set.encard_ne_zero, counted]
      exact_mod_cast someWay
    have notMarker : name ≠ waitMarker := by
      rintro rfl
      exact not_route_marker route
    obtain ⟨body, found, expand⟩ :=
      ((result_request_eq_ok_iff notMarker).mp succeeded target (reaches_of_route route)).known
    refine ⟨body, found, ?_⟩
    rw [← areRules body found]
    exact areCommands_commandsOf expand

theorem buildInto_recurs_diamond :
    let plan := (((Plan.commit .empty (.start ["all"] ["left", ".WAIT", "right", "left"])).commit
      (.start ["left", "right"] ["base"])).commit ⟨["base"], ⟨[], ["echo $(NAME)"]⟩⟩)
    let database : Database := ⟨.empty, .assign .empty "all" "NAME" "x", plan, false⟩
    let steps := (database.buildInto "all" .empty).1.steps.toList
    (database.buildInto "all" .empty).2 = .ok () ∧
      {way | plan.Route "all" way "base"}.encard = 3 ∧
      Trace.commandsFor steps "base" = ["echo ", "echo ", "echo "] ∧
      ∃ block rest, steps = [.enter "all" 1 [("NAME", "x")], .enter "left" 2 []] ++ (block ++ rest) ∧
        IsBlock "base" 3 block ∧
        block = (database.buildInto "base" .empty).1.steps.toList.map (.deepen 2) := by
  intro plan database steps
  have visited : (request database "all").result = .ok () := by cbv
  have ran : Trace.commandsFor (request database "all").steps "base" =
      ["echo ", "echo ", "echo "] := by cbv
  have begun : (request database "all").steps = [.enter "all" 1 [("NAME", "x")],
      .enter "left" 2 []] ++ .enter "base" 3 [] :: (request database "all").steps.drop 3 := by cbv
  obtain ⟨later, laterSteps, built⟩ := exists_record_of_request database "all" .empty
  have traced : steps = (request database "all").steps :=
    (congrArg (fun outcome => outcome.1.steps.toList) built).trans laterSteps
  have succeeded : (database.buildInto "all" .empty).2 = .ok () := by rw [built, visited]
  rw [← traced] at ran begun
  obtain ⟨blocks, ways⟩ := buildInto_recurs database succeeded
  obtain ⟨count, commands, counted, repeated, areRules⟩ := ways "base"
  obtain ⟨block, rest, cut, isBlock, -, same⟩ := blocks _ _ "base" 3 [] begun
  have three : count = 3 := by
    have lengths := congrArg List.length (ran.symm.trans repeated)
    have someWay : count ≠ 0 := by
      rintro rfl
      cases lengths
    obtain ⟨body, found, ofRules⟩ := areRules someWay
    have sameBody : plan.get? "base" = some ⟨[], ["echo $(NAME)"]⟩ := by cbv
    rw [show plan.get? "base" = some body from found] at sameBody
    cases sameBody
    have single : commands.length = 1 := ofRules.length_eq.symm
    simpa [single] using lengths.symm
  subst three
  exact ⟨succeeded, counted, ran, block, rest, cut ▸ begun, isBlock, same⟩

end Build

end DryMake
