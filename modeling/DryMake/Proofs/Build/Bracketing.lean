import DryMake.Proofs.Build.OpenVisit

/-!
Builds as their traces show them. The steps that a build records are bracketed like its visits, also
when it fails and leaves visits open; and what it fails with can be checked against the visits that
it leaves open and against the plan.
-/

namespace DryMake.Build

variable {database : Database} {root : String}

/-- The names lead from dependency to dependency, the first of them being needed by the root. -/
structure Way (plan : Plan) (root : String) (path : List String) : Prop where
  distinct : path.Nodup
  linked : path.IsChain (Needs plan)
  known : ∀ name ∈ path, name ∈ plan.names ∧ Reaches plan root name ∧ name ≠ waitMarker

theorem way_single {plan : Plan} (notMarker : root ≠ waitMarker) (known : root ∈ plan.names) :
    Way plan root [root] := by
  constructor
  · exact List.nodup_singleton root
  · exact .singleton root
  · intro name member
    rw [List.mem_singleton.mp member]
    exact ⟨known, .refl, notMarker⟩

private theorem Way.linked_concat {plan : Plan} {above : List String} {name dep : String}
    (way : Way plan root (above ++ [name])) (needed : Needs plan name dep) :
    (above ++ [name] ++ [dep]).IsChain (Needs plan) := by
  refine List.isChain_append.mpr ⟨way.linked, .singleton dep, ?_⟩
  intro last isLast first isFirst
  rw [List.getLast?_concat] at isLast
  cases isLast
  cases isFirst
  exact needed

theorem Way.concat {plan : Plan} {above : List String} {name dep : String}
    (way : Way plan root (above ++ [name])) (needed : Needs plan name dep)
    (fresh : dep ∉ above ++ [name]) (known : dep ∈ plan.names) :
    Way plan root (above ++ [name] ++ [dep]) := by
  constructor
  · exact List.nodup_append.mpr ⟨way.distinct, List.nodup_singleton dep, by grind⟩
  · exact way.linked_concat needed
  · intro other member
    rcases List.mem_append.mp member with older | same
    · exact way.known other older
    · rw [List.mem_singleton.mp same]
      have reached := (way.known name (List.mem_append_right _ (List.mem_singleton_self _))).2.1
      obtain ⟨_, _, _, notMarker⟩ := id needed
      exact ⟨known, reached.tail needed, notMarker⟩

/-- What a failure of a build of `root` says of the steps before it. -/
def Explained (database : Database) (root : String) (steps : List Step) : BuildError → Prop
  | .dependencyCycle cycle =>
      ∃ first between, cycle = first :: between ++ [first] ∧ (first :: between).Nodup ∧
        (∀ name ∈ cycle,
          name ∈ database.plan.names ∧ Reaches database.plan root name ∧ name ≠ waitMarker) ∧
        cycle.IsChain (Needs database.plan) ∧
        first :: between <:+ ((openVisits steps).map OpenVisit.target).reverse
  | .unknownTarget target none =>
      target = root ∧ database.plan.get? root = none ∧ steps = []
  | .unknownTarget target (some parent) =>
      database.plan.get? target = none ∧ Needs database.plan parent target ∧
        ((openVisits steps).map OpenVisit.target).head? = some parent
  | .expansion target rule cause =>
      ∃ visit body ran rest, (openVisits steps).head? = some visit ∧ visit.target = target ∧
        database.plan.get? target = some body ∧ visit.inside = needed body.deps ∧
        body.rules = ran ++ rule :: rest ∧ AreCommands database target ran visit.commands ∧
        (database.bindingsFor target).expand rule = .error cause

private theorem Way.explained_cycle {above : List String} {name dep : String} {steps : List Step}
    (way : Way database.plan root (above ++ [name])) (needed : Needs database.plan name dep)
    (onPath : dep ∈ above ++ [name])
    (onStack : ((openVisits steps).map OpenVisit.target).reverse = above ++ [name]) :
    Explained database root steps
      (.dependencyCycle ((above ++ [name]).dropWhile (· != dep) ++ [dep])) := by
  have isSuffix := List.dropWhile_suffix (l := above ++ [name]) (· != dep)
  have whole : ((above ++ [name]).dropWhile (· != dep) ++ [dep]).IsChain (Needs database.plan) := by
    obtain ⟨dropped, parts⟩ := isSuffix
    exact (way.linked_concat needed).suffix ⟨dropped, by rw [← List.append_assoc, parts]⟩
  cases cut : (above ++ [name]).dropWhile (· != dep) with
  | nil =>
      have none := List.dropWhile_eq_nil_iff.mp cut dep onPath
      simp at none
  | cons first between =>
      have isFirst : first = dep := by
        have stops := List.head_dropWhile_not (· != dep) (l := above ++ [name]) (by simp [cut])
        simpa [cut] using stops
      subst isFirst
      rw [cut] at isSuffix whole
      refine ⟨first, between, rfl, way.distinct.sublist isSuffix.sublist, ?_, whole, ?_⟩
      · intro other member
        apply way.known other
        rcases List.mem_append.mp member with older | same
        · exact isSuffix.subset older
        · exact List.mem_singleton.mp same ▸ onPath
      · exact onStack ▸ isSuffix

/-- While the visits are under way, the part records steps that may come next. If it fails they
explain the failure, and else they leave the other visits under way. -/
def Follows (database : Database) (root : String) (visits : List OpenVisit) (part : Visit)
    (next : List OpenVisit) : Prop :=
  ∀ earlier : List Step, openVisits earlier = visits →
    Legal database visits part.steps ∧
      match part.result with
      | .error failure => Explained database root (earlier ++ part.steps) failure
      | .ok () => openVisits (earlier ++ part.steps) = next

variable {visits middle next : List OpenVisit}

private theorem follows_nothing (visits : List OpenVisit) :
    Follows database root visits .nothing visits := by
  intro earlier under
  refine ⟨trivial, ?_⟩
  rw [Visit.nothing, List.append_nil]
  exact under

private theorem Follows.andThen {first second : Visit}
    (before : Follows database root visits first middle)
    (after : Follows database root middle second next) :
    Follows database root visits (first.andThen second) next := by
  intro earlier under
  obtain ⟨firstLegal, firstEnd⟩ := before earlier under
  unfold Visit.andThen
  cases ended : first.result with
  | error failure =>
      rw [ended] at firstEnd
      exact ⟨firstLegal, firstEnd⟩
  | ok value =>
      rw [ended] at firstEnd
      obtain ⟨secondLegal, secondEnd⟩ := after (earlier ++ first.steps) firstEnd
      rw [openVisits_append, under] at firstEnd
      rw [List.append_assoc] at secondEnd
      exact ⟨legal_append.mpr ⟨firstLegal, firstEnd ▸ secondLegal⟩, secondEnd⟩

private theorem follows_single {step : Step} (allowed : Allowed database visits step) :
    Follows database root visits (.single step) (follow visits step) := by
  intro earlier under
  refine ⟨⟨allowed, trivial⟩, ?_⟩
  rw [Visit.single, openVisits_append, under]
  rfl

private theorem follows_failed {failure : BuildError}
    (explained : ∀ steps, openVisits steps = visits → Explained database root steps failure)
    (next : List OpenVisit) : Follows database root visits (.failed failure) next := by
  intro earlier under
  refine ⟨trivial, ?_⟩
  rw [Visit.failed, List.append_nil]
  exact explained earlier under

/-! ### Visits -/

theorem follows_rules {body : Target} {ran rules : List String} (top : OpenVisit)
    (found : database.plan.get? top.target = some body) (complete : top.inside = needed body.deps)
    (split : body.rules = ran ++ rules)
    (commands : AreCommands database top.target ran top.commands) (below : List OpenVisit) :
    Follows database root (top :: below)
      ((visitRules database top.target (below.length + 1) rules).andThen
        (.single (.leave top.target (below.length + 1)))) below := by
  induction rules generalizing top ran with
  | nil =>
      rw [List.append_nil] at split
      exact (follows_nothing _).andThen
        (follows_single ⟨body, found, rfl, rfl, complete, split ▸ commands⟩)
  | cons rule rest inductionHypothesis =>
      unfold visitRules
      cases expanded : (database.bindingsFor top.target).expand rule with
      | error cause =>
          refine follows_failed ?_ below
          intro steps under
          exact ⟨top, body, ran, rest, under ▸ rfl, rfl, found, complete, split, commands, expanded⟩
      | ok command =>
          have further : AreCommands database top.target (ran ++ [rule])
              (top.commands ++ [command]) :=
            List.rel_append commands (.cons expanded .nil)
          have more : body.rules = (ran ++ [rule]) ++ rest := by
            rw [split, List.append_assoc, List.singleton_append]
          have isNext : Allowed database (top :: below)
              (.command top.target (below.length + 1) command) :=
            ⟨body, found, rfl, rfl, complete, ran ++ [rule], ⟨rest, more.symm⟩, further⟩
          have onRest := inductionHypothesis (top.run command) found complete more further
          dsimp only
          rw [Visit.andThen_assoc]
          exact (follows_single isNext).andThen onRest

/-- The dependencies of the innermost visit that have not been looked at are visited one after the
other inside it, and then there is a visit for each of its dependencies. -/
theorem follows_visitDeps (path : List String) (depth : Nat) (deps : List String) :
    ∀ (top : OpenVisit) (below : List OpenVisit) (body : Target),
    Way database.plan root path → ((top :: below).map OpenVisit.target).reverse = path →
    (top :: below).length = depth → database.plan.get? top.target = some body →
    deps ⊆ body.deps → top.inside ++ needed deps = needed body.deps → top.commands = [] →
    Follows database root (top :: below) (visitDeps database path depth deps)
      (top.meet (needed deps) :: below) := by
  induction path, depth, deps using visit_induction database with
  | nil path depth =>
      intro top below body way onStack height found ofBody pending noCommands
      rw [visitDeps_nil, needed_nil, OpenVisit.meet_nil]
      exact follows_nothing _
  | marker path depth rest onRest =>
      intro top below body way onStack height found ofBody pending noCommands
      rw [needed_marker] at pending
      rw [visitDeps_marker, needed_marker]
      exact onRest top below body way onStack height found
        (List.subset_of_cons_subset ofBody) pending noCommands
  | cycle path depth dep rest notMarker onPath =>
      intro top below body way onStack height found ofBody pending noCommands
      have isNeeded : Needs database.plan top.target dep :=
        ⟨body, found, ofBody List.mem_cons_self, notMarker⟩
      rw [List.map_cons, List.reverse_cons] at onStack
      subst onStack
      rw [visitDeps_of_mem notMarker onPath]
      refine follows_failed ?_ _
      intro steps under
      exact way.explained_cycle isNeeded onPath (by rw [under, List.map_cons, List.reverse_cons])
  | unknown path depth dep rest notMarker fresh unknown =>
      intro top below body way onStack height found ofBody pending noCommands
      have isNeeded : Needs database.plan top.target dep :=
        ⟨body, found, ofBody List.mem_cons_self, notMarker⟩
      have parent : path.getLast? = some top.target := by
        rw [← onStack, List.getLast?_reverse]
        rfl
      rw [visitDeps_of_unknown notMarker fresh unknown, parent]
      refine follows_failed ?_ _
      intro steps under
      exact ⟨unknown, isNeeded, by rw [under]; rfl⟩
  | enter path depth dep rest depBody notMarker fresh depFound onBody onRest =>
      intro top below body way onStack height found ofBody pending noCommands
      have isNeeded : Needs database.plan top.target dep :=
        ⟨body, found, ofBody List.mem_cons_self, notMarker⟩
      have known := Table.mem_names_of_get? depFound
      rw [needed_cons notMarker] at pending ⊢
      have begun : Allowed database (top :: below)
          (.enter dep (depth + 1) (database.conditionals.entriesFor dep)) :=
        ⟨body, found, by rw [height], known, rfl, noCommands, needed rest, by simp [pending]⟩
      have deeper : Way database.plan root (path ++ [dep]) := by
        rw [List.map_cons, List.reverse_cons] at onStack
        subst onStack
        exact way.concat isNeeded fresh known
      have built := onBody (.begin dep) (top.meet [dep] :: below) depBody deeper
        (by simp [← onStack, OpenVisit.begin, OpenVisit.meet]) (by simp [← height]) depFound
        (List.Subset.refl _) rfl rfl
      have ran : Follows database root _ _ (top.meet [dep] :: below) :=
        follows_rules ((OpenVisit.begin dep).meet (needed depBody.deps)) depFound rfl rfl .nil
          (top.meet [dep] :: below)
      have others := onRest (top.meet [dep]) below body way onStack height found
        (List.subset_of_cons_subset ofBody) (by simp [OpenVisit.meet, pending]) noCommands
      rw [visitDeps_of_found notMarker fresh depFound]
      rw [OpenVisit.meet_meet] at others
      have sameDepth : (top.meet [dep] :: below).length + 1 = depth + 1 := by
        rw [← height]
        rfl
      rw [sameDepth] at ran
      exact ((follows_single begun).andThen (built.andThen ran)).andThen others

/-- A request that is met begins with its target, at depth one, and goes on as its visit allows. -/
theorem follows_request {name : String} {body : Target} (notMarker : name ≠ waitMarker)
    (found : database.plan.get? name = some body) :
    ∃ part : Visit,
      request database name =
        (Visit.single (.enter name 1 (database.conditionals.entriesFor name))).andThen part ∧
      Follows database name [.begin name] part [] := by
  refine ⟨(visitDeps database [name] 1 body.deps).andThen
    ((visitRules database name 1 body.rules).andThen (.single (.leave name 1))), ?_, ?_⟩
  · rw [request, if_neg notMarker, visit_of_found found, visitAround, List.nil_append]
  · have way := way_single notMarker (Table.mem_names_of_get? found)
    have built := follows_visitDeps [name] 1 body.deps (.begin name) [] body way rfl rfl found
      (List.Subset.refl _) rfl rfl
    exact built.andThen
      (follows_rules ((OpenVisit.begin name).meet (needed body.deps)) found rfl rfl .nil [])

/-- A build records something when its target is in the plan and is no marker. The first step begins
that target at depth one, and while later steps come there are always visits under way that allow
them: a step is bracketed by the visits that stand open before it. A visit that stays open has met
the first of its dependencies and run the first of its rules, and a build that succeeds leaves none
open. -/
theorem buildInto_bracketed (database : Database) (name : String) (record : Record) :
    ∃ steps, (database.buildInto name record).1.steps.toList = record.steps.toList ++ steps ∧
      (steps ≠ [] ↔ name ≠ waitMarker ∧ name ∈ database.plan.names) ∧
      (∀ first rest, steps = first :: rest →
        first = .enter name 1 (database.conditionals.entriesFor name)) ∧
      (∀ before step after, before ≠ [] → steps = before ++ step :: after →
        Allowed database (openVisits before) step) ∧
      (∀ visit ∈ openVisits steps, visit.Sound database) ∧
      ((database.buildInto name record).2 = .ok () → openVisits steps = []) := by
  obtain ⟨later, laterSteps, built⟩ := exists_record_of_request database name record
  rw [built]
  refine ⟨(request database name).steps, laterSteps, ?_⟩
  by_cases marker : name = waitMarker
  · rw [request, if_pos marker]
    simp [Visit.nothing, openVisits, marker]
  · cases found : database.plan.get? name with
    | none =>
        have unknown : name ∉ database.plan.names := by
          rw [← Table.isSome_get?_iff, found]
          exact Bool.false_ne_true
        rw [request, if_neg marker, visit_of_unknown found]
        simp [Visit.failed, openVisits, unknown]
    | some body =>
        obtain ⟨part, whole, follows⟩ := follows_request marker found
        have known := Table.mem_names_of_get? found
        obtain ⟨legal, ended⟩ :=
          follows [.enter name 1 (database.conditionals.entriesFor name)] rfl
        rw [whole, Visit.steps_andThen_of_ok rfl]
        refine ⟨by simp [Visit.single, marker, known], ?_, ?_, ?_, ?_⟩
        · intro first rest same
          cases same
          rfl
        · intro before step after nonempty split
          cases before with
          | nil => exact absurd rfl nonempty
          | cons first others =>
              obtain ⟨rfl, onRest⟩ := List.cons.inj split
              have allowed : Allowed database (others.foldl follow [.begin name]) step :=
                allowed_of_legal legal onRest
              exact allowed
        · have sound : ∀ visit ∈ part.steps.foldl follow [.begin name], visit.Sound database := by
            refine sound_of_legal legal ?_
            intro visit member
            rw [List.mem_singleton.mp member]
            exact sound_begin known
          exact sound
        · intro succeeded
          rw [((Visit.result_andThen_eq_ok_iff _ _).mp succeeded).2] at ended
          exact ended

/-- A failed build names what is wrong, as its steps and the plan show. A cycle is one of the plan,
its names are different but for the last, and it closes the chain of visits that stay open. An
unknown target was asked for and nothing is recorded, or it is a dependency of the innermost visit
left open. A rule that does not expand is the next one of the innermost visit left open, after
visits for all of its dependencies and commands for the rules above it. -/
theorem buildInto_explained (database : Database) (name : String) (record : Record)
    {failure : BuildError} (failed : (database.buildInto name record).2 = .error failure) :
    ∃ steps, (database.buildInto name record).1.steps.toList = record.steps.toList ++ steps ∧
      Explained database name steps failure := by
  obtain ⟨later, laterSteps, built⟩ := exists_record_of_request database name record
  rw [built] at failed ⊢
  refine ⟨(request database name).steps, laterSteps, ?_⟩
  by_cases marker : name = waitMarker
  · rw [request, if_pos marker] at failed
    cases failed
  · cases found : database.plan.get? name with
    | none =>
        rw [request, if_neg marker, visit_of_unknown found] at failed ⊢
        cases failed
        exact ⟨rfl, found, rfl⟩
    | some body =>
        obtain ⟨part, whole, follows⟩ := follows_request marker found
        obtain ⟨-, ended⟩ :=
          follows [.enter name 1 (database.conditionals.entriesFor name)] rfl
        rw [whole] at failed ⊢
        rw [show part.result = .error failure from failed] at ended
        exact ended

/-- The targets of a cycle are those that the build has begun and not left. -/
theorem buildInto_explained_cycle :
    let plan := ((Plan.commit .empty (.start ["all"] ["leaf", "a"])).commit
      (.start ["a", "leaf"] [".WAIT"])).commit (.start ["a"] ["leaf", "b"])
    let database : Database := ⟨.empty, .empty, plan.commit (.start ["b"] ["a"]), false⟩
    let built := database.buildInto "all" .empty
    built.2 = .error (.dependencyCycle ["a", "b", "a"]) ∧
      ["a", "b"] <:+ ((openVisits built.1.steps.toList).map OpenVisit.target).reverse ∧
      Needs database.plan "b" "a" ∧ Reaches database.plan "all" "b" := by
  intro plan database built
  have failed : built.2 = .error (.dependencyCycle ["a", "b", "a"]) := by
    subst built database plan
    cbv
  obtain ⟨steps, recorded, first, between, cycle, -, known, linked, onStack⟩ :=
    buildInto_explained database "all" .empty failed
  obtain ⟨rfl, same⟩ := List.cons.inj cycle
  have isBetween : between = ["b"] := List.append_inj_left' same.symm rfl
  subst isBetween
  rw [show built.1.steps.toList = steps from recorded]
  have links := List.isChain_cons_cons.mp linked
  exact ⟨failed, onStack, (List.isChain_cons_cons.mp links.2).1, (known "b" (by simp)).2.1⟩

end DryMake.Build
