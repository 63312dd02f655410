import DryMake.Proofs.Build.Bracketing
import DryMake.Proofs.Build.Recurrence
import DryMake.Proofs.Build.Requests

/-!
How deep the steps of a build are. A step is as deep as the chain of dependencies is long that leads
to its target from one that was asked for. No target is twice on a chain, so the depth is bounded by
the size of the plan, and by nothing else.
-/

namespace DryMake.Build

variable {database : Database}

/-- A chain of dependencies leads to the target of the step from one of the names, and is as long as
the step is deep. -/
def IsLedTo (plan : Plan) (names : List String) (step : Step) : Prop :=
  ∃ root ∈ names, ∃ way, Way plan root way ∧ way.head? = some root ∧
    way.getLast? = some step.target ∧ way.length = step.depth

private theorem isLedTo_of_mem_visitDeps {names : List String} {path : List String} {depth : Nat}
    {deps : List String} (height : path.length = depth)
    (leads : ∀ dep ∈ deps, dep ≠ waitMarker → dep ∉ path → dep ∈ database.plan.names →
      ∃ root ∈ names, Way database.plan root (path ++ [dep]) ∧ (path ++ [dep]).head? = some root) :
    ∀ step ∈ (visitDeps database path depth deps).steps, IsLedTo database.plan names step := by
  induction path, depth, deps using visit_induction database with
  | nil path depth =>
      rw [visitDeps_nil]
      exact List.forall_mem_nil _
  | marker path depth rest onRest =>
      rw [visitDeps_marker]
      exact onRest height (List.forall_mem_cons.mp leads).2
  | cycle path depth dep rest notMarker onPath =>
      rw [visitDeps_of_mem notMarker onPath]
      exact List.forall_mem_nil _
  | unknown path depth dep rest notMarker fresh unknown =>
      rw [visitDeps_of_unknown notMarker fresh unknown]
      exact List.forall_mem_nil _
  | enter path depth dep rest body notMarker fresh found onBody onRest =>
      obtain ⟨leadsHere, leadsOnRest⟩ := List.forall_mem_cons.mp leads
      obtain ⟨root, asked, way, starts⟩ :=
        leadsHere notMarker fresh (Table.mem_names_of_get? found)
      have higher : (path ++ [dep]).length = depth + 1 := by
        rw [List.length_append, height, List.length_singleton]
      rw [visitDeps_of_found notMarker fresh found]
      intro step member
      rcases Visit.mem_steps_andThen member with around | later
      · rcases of_mem_visitAround around with ⟨target, level⟩ | inside
        · refine ⟨root, asked, path ++ [dep], way, starts, ?_, ?_⟩
          · rw [target, List.getLast?_concat]
          · rw [level, higher]
        · refine onBody higher (fun next isDep notMarkerToo freshToo known => ?_) step inside
          refine ⟨root, asked, way.concat ⟨body, found, isDep, notMarkerToo⟩ freshToo known, ?_⟩
          rw [List.head?_append_of_ne_nil _ (List.concat_ne_nil dep path), starts]
      · exact onRest height leadsOnRest step later

private theorem isLedTo_of_mem_requestAll {names : List String} {step : Step}
    (member : step ∈ (requestAll database names).steps) : IsLedTo database.plan names step := by
  rw [requestAll_eq_visitDeps] at member
  refine isLedTo_of_mem_visitDeps rfl (fun dep asked notMarker _ known => ?_) step member
  exact ⟨dep, asked, way_single notMarker known, rfl⟩

/-- No target is twice on a chain, so no step is deeper than the plan is large. -/
theorem IsLedTo.depth_le_size {plan : Plan} {names : List String} {step : Step}
    (led : IsLedTo plan names step) : step.depth ≤ plan.size := by
  obtain ⟨root, -, way, leads, -, -, height⟩ := led
  have bounded := leads.distinct.length_le_of_subset fun name member => (leads.known name member).1
  rw [← height]
  simpa [Table.names, Table.size] using bounded

/-- When the visits of dependencies succeed, each chain that starts with one of them is gone down to
its end. -/
theorem Succeed.exists_step {path : List String} {depth : Nat} {deps : List String}
    (succeed : Succeed database path depth deps) :
    ∀ name way, name ∈ deps → name ≠ waitMarker → (name :: way).IsChain (Needs database.plan) →
      ∃ step ∈ (visitDeps database path depth deps).steps,
        (name :: way).getLast? = some step.target ∧ step.depth = depth + (name :: way).length := by
  induction succeed with
  | nil path depth =>
      intro name way member
      cases member
  | marker _ onRest =>
      intro name way member notMarker chain
      rw [visitDeps_marker]
      exact onRest name way (List.mem_of_ne_of_mem notMarker member) notMarker chain
  | @enter path depth dep rest body notMarkerDep fresh found expand below _ onBody onRest =>
      intro name way member notMarker chain
      rw [steps_visitDeps notMarkerDep fresh found expand below]
      rcases List.mem_cons.mp member with rfl | later
      · cases way with
        | nil =>
            have begun := enter_mem_visitAround database name (depth + 1) body.rules
              (visitDeps database (path ++ [name]) (depth + 1) body.deps)
            exact ⟨_, List.mem_append_left _ begun, rfl, rfl⟩
        | cons next more =>
            obtain ⟨⟨known, sameBody, isDep, nextNotMarker⟩, further⟩ :=
              List.isChain_cons_cons.mp chain
            obtain rfl := Option.some.inj (found.symm.trans sameBody)
            obtain ⟨step, inside, target, level⟩ := onBody next more isDep nextNotMarker further
            have around := mem_visitAround_of_mem_deps inside database name (depth + 1) body.rules
            refine ⟨step, List.mem_append_left _ around, target, level.trans ?_⟩
            simp only [List.length_cons]
            omega
      · obtain ⟨step, inside, shown⟩ := onRest name way later notMarker chain
        exact ⟨step, List.mem_append_right _ inside, shown⟩

/-- The steps of requests are as deep as the chains are long that lead to their targets, and where the
requests succeed, there is a step at the end of each chain. So no step is indented by more than three
columns for each target of the plan. -/
theorem depths_of_buildAllInto (database : Database) (announced : Bool) (names : List String) :
    let built := database.buildAllInto announced .empty names
    (∀ step ∈ built.1.steps.toList, IsLedTo database.plan names step ∧
      step.indent ≤ 3 * database.plan.size) ∧
    (built.2 = .ok () → ∀ root ∈ names, root ≠ waitMarker → ∀ way,
      (root :: way).IsChain (Needs database.plan) → ∃ step ∈ built.1.steps.toList,
        (root :: way).getLast? = some step.target ∧ step.depth = (root :: way).length) ∧
    (database.plan.size ≤ 21845 → ∀ step ∈ built.1.steps.toList, step.indent ≤ 65535) := by
  intro built
  obtain ⟨steps, result⟩ := buildAllInto_eq_requestAll database announced .empty names
  have sameSteps : built.1.steps.toList = (requestAll database names).steps := steps
  have led : ∀ step ∈ built.1.steps.toList, IsLedTo database.plan names step ∧
      step.indent ≤ 3 * database.plan.size := by
    rw [sameSteps]
    intro step member
    have led := isLedTo_of_mem_requestAll member
    exact ⟨led, Nat.mul_le_mul_left 3 led.depth_le_size⟩
  refine ⟨led, ?_, ?_⟩
  · intro succeeded root asked notMarker way chain
    rw [show built.2 = _ from result, requestAll_eq_visitDeps] at succeeded
    obtain ⟨step, member, target, level⟩ :=
      (succeed_of_ok succeeded).exists_step root way asked notMarker chain
    rw [← requestAll_eq_visitDeps, ← sameSteps] at member
    exact ⟨step, member, target, level.trans (Nat.zero_add _)⟩
  · intro small step member
    exact (led step member).2.trans (Nat.mul_le_mul_left 3 small)

/-- A target that is met along two ways, one of them longer than the other. -/
theorem depths_of_buildAllInto_diamond :
    let plan := ((Plan.commit .empty (.start ["all"] ["left", ".WAIT", "base"])).commit
      (.start ["left"] ["base"])).commit ⟨["base"], ⟨[], ["echo"]⟩⟩
    let database : Database := ⟨.empty, .empty, plan, false⟩
    let built := database.buildAllInto true .empty ["left", "all"]
    built.2 = .ok () ∧
      (∃ step ∈ built.1.steps.toList, step.target = "base" ∧ step.depth = 3) ∧
      ∀ step ∈ built.1.steps.toList, step.indent ≤ 9 ∧ step.indent ≤ 65535 := by
  intro plan database built
  have visited : (requestAll database ["left", "all"]).result = .ok () := by cbv
  have succeeded : built.2 = .ok () :=
    (buildAllInto_eq_requestAll database true .empty ["left", "all"]).2.trans visited
  have ofAll : plan.get? "all" = some ⟨["left", ".WAIT", "base"], []⟩ := by cbv
  have ofLeft : plan.get? "left" = some ⟨["base"], []⟩ := by cbv
  have chain : ["all", "left", "base"].IsChain (Needs plan) := by
    refine List.isChain_cons_cons.mpr ⟨⟨_, ofAll, by simp, by decide⟩, ?_⟩
    exact List.isChain_cons_cons.mpr ⟨⟨_, ofLeft, by simp, by decide⟩, .singleton "base"⟩
  have size : plan.size = 3 := by cbv
  obtain ⟨steps, chains, narrow⟩ := depths_of_buildAllInto database true ["left", "all"]
  have small : database.plan.size ≤ 21845 := by
    rw [show database.plan.size = 3 from size]
    decide
  refine ⟨succeeded, ?_, fun step member => ⟨?_, narrow small step member⟩⟩
  · obtain ⟨step, member, target, level⟩ :=
      chains succeeded "all" (by simp) (by decide) ["left", "base"] chain
    exact ⟨step, member, (Option.some.inj target).symm, level⟩
  · have bounded := (steps step member).2
    rwa [show database.plan.size = 3 from size] at bounded

def chainName (index : Nat) : String :=
  "t" ++ index.repr

private theorem chainName_injective : Function.Injective chainName := by
  intro index other same
  have sameText := congrArg String.toList same
  simp only [chainName, String.toList_append, Nat.toList_repr, List.append_cancel_left_eq]
    at sameText
  have sameNumber := congrArg (Nat.ofDigitChars 10 · 0) sameText
  simpa using sameNumber

private theorem chainName_ne_waitMarker (index : Nat) : chainName index ≠ waitMarker := by
  intro same
  have sameText := congrArg String.toList same
  simp [chainName, waitMarker] at sameText

/-- A plan of targets each of which needs the next one. The last one needs a target that is not in the
plan. -/
def chain (count : Nat) : Plan where
  entries := (List.range count).map fun index => (chainName index, ⟨[chainName (index + 1)], []⟩)
  distinct := by
    rw [List.map_map]
    exact List.nodup_range.map chainName_injective

private theorem begins_of_chain {count index : Nat} (isChain : database.plan = chain count)
    (within : index < count) :
    chainName index ∉ (List.range index).map chainName ∧
      database.plan.get? (chainName index) = some ⟨[chainName (index + 1)], []⟩ := by
  constructor
  · intro member
    obtain ⟨other, earlier, same⟩ := List.mem_map.mp member
    rw [chainName_injective same, List.mem_range] at earlier
    exact Nat.lt_irrefl index earlier
  · rw [isChain]
    exact Table.get?_of_mem_entries (List.mem_map.mpr ⟨index, List.mem_range.mpr within, rfl⟩)

theorem exists_step_below {count : Nat} (isChain : database.plan = chain count)
    (further index depth : Nat) (whole : index + (further + 1) = count) :
    ∃ step ∈ (visitDeps database ((List.range index).map chainName) depth [chainName index]).steps,
      step.depth = depth + (further + 1) := by
  induction further generalizing index depth with
  | zero =>
      have within : index < count := by omega
      obtain ⟨fresh, found⟩ := begins_of_chain isChain within
      rw [visitDeps_of_found (chainName_ne_waitMarker index) fresh found]
      exact ⟨_, Visit.mem_steps_andThen_of_left (enter_mem_visitAround ..) _, rfl⟩
  | succ further inductionHypothesis =>
      have within : index < count := by omega
      obtain ⟨fresh, found⟩ := begins_of_chain isChain within
      obtain ⟨step, below, level⟩ := inductionHypothesis (index + 1) (depth + 1) (by omega)
      have longer : (List.range index).map chainName ++ [chainName index] =
          (List.range (index + 1)).map chainName := by
        rw [List.range_succ, List.map_append]
        rfl
      rw [visitDeps_of_found (chainName_ne_waitMarker index) fresh found, longer]
      refine ⟨step, Visit.mem_steps_andThen_of_left (mem_visitAround_of_mem_deps below ..) _, ?_⟩
      omega

theorem exists_deep_step (announced : Bool) (count : Nat) :
    let database : Database := ⟨.empty, .empty, chain (count + 1), false⟩
    ∃ step ∈ (database.buildAllInto announced .empty [chainName 0]).1.steps.toList,
      step.depth = count + 1 := by
  intro database
  obtain ⟨step, member, level⟩ :=
    @exists_step_below database (count + 1) rfl count 0 0 (Nat.zero_add _)
  obtain ⟨steps, -⟩ := buildAllInto_eq_requestAll database announced .empty [chainName 0]
  rw [requestAll_eq_visitDeps] at steps
  rw [show _ = (visitDeps database [] 0 [chainName 0]).steps from steps]
  exact ⟨step, member, level.trans (Nat.zero_add _)⟩

/-- The bound of three columns for each target can be reached, so a plan may be too large for a width
of sixteen bits. -/
theorem exists_indent_above_width :
    let database : Database := ⟨.empty, .empty, chain 21846, false⟩
    ∃ step ∈ (database.buildAllInto false .empty ["t0"]).1.steps.toList, 65535 < step.indent := by
  intro database
  subst database
  have first : chainName 0 = "t0" := by decide
  have deep := exists_deep_step false 21845
  simp only [first, Nat.reduceAdd] at deep
  obtain ⟨step, member, level⟩ := deep
  refine ⟨step, member, ?_⟩
  rw [Step.indent, level]
  omega

end DryMake.Build
