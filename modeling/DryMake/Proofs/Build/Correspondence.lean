import DryMake.Proofs.Build.Visit

/-!
The walk over a stack of frames against the visits. A walk advances the cursor of the innermost target
before it begins a dependency, and runs the rules of a target only when the target is off the stack;
what it records and how it ends is in every case what a visit records and how that ends.
-/

namespace DryMake.Build

/-- From one walk, a build records what a visit records. If the visit fails the build fails with
it, and else it goes on from the other walk. -/
def Leads (database : Database) (walk : Walk) (part : Visit) (next : Walk) : Prop :=
  ∀ record : Record, ∃ later : Record,
    later.steps.toList = record.steps.toList ++ part.steps ∧
      run database walk record =
        match part.result with
        | .error failure => (later, .error failure)
        | .ok () => run database next later

variable {database : Database}

private theorem leads_nothing (walk : Walk) : Leads database walk .nothing walk := by
  intro record
  exact ⟨record, (List.append_nil _).symm, rfl⟩

private theorem Leads.andThen {walk middle next : Walk} {first second : Visit}
    (before : Leads database walk first middle) (after : Leads database middle second next) :
    Leads database walk (first.andThen second) next := by
  intro record
  obtain ⟨halfway, halfwaySteps, halfwayRun⟩ := before record
  unfold Visit.andThen
  cases ended : first.result with
  | error failure =>
      rw [ended] at halfwayRun
      exact ⟨halfway, halfwaySteps, halfwayRun⟩
  | ok value =>
      rw [ended] at halfwayRun
      obtain ⟨later, laterSteps, laterRun⟩ := after halfway
      refine ⟨later, ?_, halfwayRun.trans laterRun⟩
      rw [laterSteps, halfwaySteps, List.append_assoc]

theorem Leads.of_step {walk middle next : Walk} {part : Visit}
    (stepped : ∀ record, step database walk record = (record, .more middle))
    (after : Leads database middle part next) : Leads database walk part next := by
  intro record
  rw [run_of_step_more (stepped record)]
  exact after record

private theorem leads_failed {walk : Walk} {failure : BuildError}
    (stepped : ∀ record, step database walk record = (record, .done (.error failure)))
    (next : Walk) : Leads database walk (.failed failure) next := by
  intro record
  exact ⟨record, (List.append_nil _).symm, run_of_step_done (stepped record)⟩

private theorem Leads.run_eq {walk : Walk} {part : Visit} {active : List String}
    (whole : Leads database walk part ⟨[], active⟩) (record : Record) :
    ∃ later : Record, later.steps.toList = record.steps.toList ++ part.steps ∧
      run database walk record = (later, part.result) := by
  obtain ⟨later, laterSteps, laterRun⟩ := whole record
  refine ⟨later, laterSteps, laterRun.trans ?_⟩
  cases ended : part.result with
  | error failure => rfl
  | ok value => exact run_of_step_done rfl

private theorem runRules_eq (database : Database) (frame : Frame) (rules : List String)
    (record : Record) : ∃ later : Record,
      later.steps.toList = record.steps.toList ++
        (visitRules database frame.name frame.depth rules).steps ∧
      runRules database frame record rules =
        (later, (visitRules database frame.name frame.depth rules).result) := by
  induction rules generalizing record with
  | nil => exact ⟨record, (List.append_nil _).symm, rfl⟩
  | cons rule rest inductionHypothesis =>
      unfold runRules visitRules
      cases expanded : (database.bindingsFor frame.name).expand rule with
      | error cause => exact ⟨record, (List.append_nil _).symm, rfl⟩
      | ok command =>
          obtain ⟨later, laterSteps, laterRun⟩ := inductionHypothesis
            ((record.note (.expanded rule command)).add (.ruleExpanded frame.name command)
              (.command frame.name frame.depth command))
          refine ⟨later, ?_, laterRun⟩
          rw [laterSteps]
          simp [Record.add, Record.note, Visit.andThen, Visit.single]

theorem leads_finish (top : Frame) (below : List Frame) (active : List String)
    (noMore : top.body.deps[top.nextDep]? = none) :
    Leads database ⟨top :: below, active⟩
      ((visitRules database top.name top.depth top.body.rules).andThen
        (.single (.leave top.name top.depth)))
      ⟨below, active.erase top.name⟩ := by
  intro record
  obtain ⟨later, laterSteps, laterRun⟩ := runRules_eq database top top.body.rules record
  unfold Visit.andThen
  cases ended : (visitRules database top.name top.depth top.body.rules).result with
  | error failure =>
      rw [ended] at laterRun
      refine ⟨later, laterSteps, run_of_step_done ?_⟩
      simp only [step, noMore, finish, laterRun]
  | ok value =>
      rw [ended] at laterRun
      refine ⟨later.add (.left top.name top.body.deps) (.leave top.name top.depth), ?_,
        run_of_step_more ?_⟩
      · simp [Record.add, laterSteps, Visit.single]
      · simp only [step, noMore, finish, laterRun]

private theorem leads_enter {top : Frame} {below : List Frame} {active : List String} {dep : String}
    {body : Target} (nextDep : top.body.deps[top.nextDep]? = some dep)
    (notMarker : dep ≠ waitMarker) (fresh : dep ∉ active)
    (found : database.plan.get? dep = some body) :
    Leads database ⟨top :: below, active⟩
      (.single (.enter dep (top.depth + 1) (database.conditionals.entriesFor dep)))
      ⟨.start dep body (top.depth + 1) :: { top with nextDep := top.nextDep + 1 } :: below,
        dep :: active⟩ := by
  intro record
  refine ⟨recordEntered database dep (top.depth + 1) record, ?_, run_of_step_more ?_⟩
  · simp [recordEntered, Record.add, Visit.single]
  · simp only [step, nextDep, if_neg notMarker, if_neg fresh, enter_of_found found,
      List.insert_of_not_mem fresh, Frame.start]

private theorem leads_skip {top : Frame} {below : List Frame} {active : List String} {part : Visit}
    {next : Walk} (nextDep : top.body.deps[top.nextDep]? = some waitMarker)
    (after : Leads database ⟨{ top with nextDep := top.nextDep + 1 } :: below, active⟩ part next) :
    Leads database ⟨top :: below, active⟩ part next := by
  refine Leads.of_step ?_ after
  intro record
  simp only [step, nextDep, reduceIte]

private theorem leads_cycle {top : Frame} {below : List Frame} {active : List String} {dep : String}
    (nextDep : top.body.deps[top.nextDep]? = some dep) (notMarker : dep ≠ waitMarker)
    (isActive : dep ∈ active) (next : Walk) :
    Leads database ⟨top :: below, active⟩
      (.failed (.dependencyCycle
        (((top :: below).map Frame.name).reverse.dropWhile (· != dep) ++ [dep]))) next := by
  refine leads_failed ?_ next
  intro record
  simp only [step, nextDep, if_neg notMarker, if_pos isActive, cycle, List.map_reverse,
    List.map_cons]

private theorem leads_unknown {top : Frame} {below : List Frame} {active : List String}
    {dep : String} (nextDep : top.body.deps[top.nextDep]? = some dep) (notMarker : dep ≠ waitMarker)
    (fresh : dep ∉ active) (unknown : database.plan.get? dep = none) (next : Walk) :
    Leads database ⟨top :: below, active⟩ (.failed (.unknownTarget dep (some top.name))) next := by
  refine leads_failed ?_ next
  intro record
  simp only [step, nextDep, if_neg notMarker, if_neg fresh, enter, unknown]

theorem leads_body {name : String} {body : Target} {depth : Nat} {below : List Frame}
    {active : List String} {deps : Visit}
    (built : Leads database ⟨.start name body depth :: below, name :: active⟩ deps
      ⟨{ Frame.start name body depth with nextDep := 0 + body.deps.length } :: below,
        name :: active⟩) :
    Leads database ⟨.start name body depth :: below, name :: active⟩
      (deps.andThen <| (visitRules database name depth body.rules).andThen <|
        .single (.leave name depth))
      ⟨below, active⟩ := by
  have noMore : body.deps[0 + body.deps.length]? = none :=
    List.getElem?_eq_none (Nat.le_of_eq (Nat.zero_add _).symm)
  have finished : Leads database _ _ _ := leads_finish
    { Frame.start name body depth with nextDep := 0 + body.deps.length } below (name :: active)
    noMore
  rw [Frame.start, List.erase_cons_head] at finished
  exact built.andThen finished

private theorem getElem?_of_drop_eq_cons {deps rest : List String} {dep : String} {count : Nat}
    (dropped : deps.drop count = dep :: rest) :
    deps[count]? = some dep ∧ deps.drop (count + 1) = rest := by
  constructor
  · have first : (deps.drop count)[0]? = some dep := by rw [dropped]; rfl
    rw [List.getElem?_drop] at first
    exact first
  · rw [← List.tail_drop, dropped, List.tail_cons]

/-- Whatever waits on the stack, the walk builds the dependencies of the innermost target that have
not been looked at as the visit does, where the names of the stack are the path. -/
theorem leads_visitDeps (database : Database) (path : List String) (depth : Nat)
    (deps : List String) : ∀ (top : Frame) (below : List Frame),
    ((top :: below).map Frame.name).reverse = path → top.depth = depth →
    top.body.deps.drop top.nextDep = deps →
    Leads database ⟨top :: below, (top :: below).map Frame.name⟩
      (visitDeps database path depth deps)
      ⟨{ top with nextDep := top.nextDep + deps.length } :: below,
        (top :: below).map Frame.name⟩ := by
  have counted : ∀ (top : Frame) (dep : String) (rest : List String),
      top.nextDep + (dep :: rest).length = top.nextDep + 1 + rest.length := by
    intro top dep rest
    rw [List.length_cons]
    omega
  induction path, depth, deps using visit_induction database with
  | nil path depth =>
      intro top below onStack atDepth pending
      rw [visitDeps_nil]
      exact leads_nothing _
  | marker path depth rest onRest =>
      intro top below onStack atDepth pending
      obtain ⟨nextDep, later⟩ := getElem?_of_drop_eq_cons pending
      rw [visitDeps_marker, counted]
      exact leads_skip nextDep
        (onRest { top with nextDep := top.nextDep + 1 } below onStack atDepth later)
  | cycle path depth dep rest notMarker onPath =>
      intro top below onStack atDepth pending
      obtain ⟨nextDep, later⟩ := getElem?_of_drop_eq_cons pending
      rw [visitDeps_of_mem notMarker onPath, ← onStack]
      rw [← onStack, List.mem_reverse] at onPath
      exact leads_cycle nextDep notMarker onPath _
  | unknown path depth dep rest notMarker fresh unknown =>
      intro top below onStack atDepth pending
      obtain ⟨nextDep, later⟩ := getElem?_of_drop_eq_cons pending
      have parent : path.getLast? = some top.name := by
        rw [← onStack, List.getLast?_reverse]
        rfl
      rw [visitDeps_of_unknown notMarker fresh unknown, parent]
      rw [← onStack, List.mem_reverse] at fresh
      exact leads_unknown nextDep notMarker fresh unknown _
  | enter path depth dep rest body notMarker fresh found onBody onRest =>
      intro top below onStack atDepth pending
      obtain ⟨nextDep, later⟩ := getElem?_of_drop_eq_cons pending
      have built := onBody (.start dep body (depth + 1))
        ({ top with nextDep := top.nextDep + 1 } :: below)
        (onStack ▸ List.reverse_cons) rfl List.drop_zero
      have others := onRest { top with nextDep := top.nextDep + 1 } below onStack atDepth later
      rw [visitDeps_of_found notMarker fresh found, counted, ← atDepth]
      rw [← onStack, List.mem_reverse] at fresh
      rw [← atDepth] at built others
      exact ((leads_enter nextDep notMarker fresh found).andThen (leads_body built)).andThen
        others

theorem exists_record_of_request (database : Database) (name : String) (record : Record) :
    ∃ later : Record,
      later.steps.toList = record.steps.toList ++ (request database name).steps ∧
        database.buildInto name record = (later, (request database name).result) := by
  unfold request
  by_cases marker : name = waitMarker
  · rw [if_pos marker, Database.buildInto, if_pos marker]
    exact ⟨record, (List.append_nil _).symm, rfl⟩
  · rw [if_neg marker]
    cases found : database.plan.get? name with
    | none =>
        rw [visit_of_unknown found, Database.buildInto, if_neg marker]
        simp only [enter, found]
        exact ⟨record, (List.append_nil _).symm, rfl⟩
    | some body =>
        have built := leads_visitDeps database [name] 1 body.deps (.start name body 1) [] rfl rfl
          List.drop_zero
        obtain ⟨later, laterSteps, laterRun⟩ :=
          (leads_body built).run_eq (recordEntered database name 1 record)
        rw [visit_of_found found, Database.buildInto_of_found marker found]
        refine ⟨later, ?_, laterRun⟩
        rw [laterSteps]
        simp [recordEntered, Record.add, visitAround, Visit.andThen, Visit.single]

theorem steps_buildInto (database : Database) (name : String) (record : Record) :
    (database.buildInto name record).1.steps.toList =
      record.steps.toList ++ (request database name).steps := by
  obtain ⟨later, laterSteps, built⟩ := exists_record_of_request database name record
  rw [built]
  exact laterSteps

theorem result_buildInto (database : Database) (name : String) (record : Record) :
    (database.buildInto name record).2 = (request database name).result := by
  obtain ⟨later, -, built⟩ := exists_record_of_request database name record
  rw [built]

/-- A request appends to the record the steps of its visit, also those before a failure, and ends as
the visit ends. -/
theorem buildInto_eq_request (database : Database) (name : String) (record : Record) :
    (database.buildInto name record).1.steps.toList =
        record.steps.toList ++ (request database name).steps ∧
      (database.buildInto name record).2 = (request database name).result := by
  obtain ⟨later, laterSteps, built⟩ := exists_record_of_request database name record
  rw [built]
  exact ⟨laterSteps, rfl⟩

example :
    let plan := ((Plan.commit .empty (.start ["all"] ["a"])).commit
      (.start ["a"] [".WAIT", "b"])).commit (.start ["b"] ["a"])
    (Database.buildInto ⟨.empty, .empty, plan, false⟩ "all" .empty).2 =
      .error (.dependencyCycle ["a", "b", "a"]) := by
  cbv

end DryMake.Build
