import DryMake.Budget
import DryMake.Build.Error
import DryMake.Build.Trace
import DryMake.Workspace

/-!
Building a target. Its dependencies are built first, each one to its end before the next, and then
its rules are expanded with its own conditional macros. A target that is met again after it is
finished is built again; one that is met while it is being built depends on itself, which is an
error. The marker `.WAIT` is passed over.

The targets being built are kept on a stack of frames, and their names beside it. A name of these is
not entered again before its target is finished, so every build ends. What a build did before it
failed stays on record.
-/

namespace DryMake

namespace Build

/-- What a build did so far: its steps, and the events that it noted. -/
structure Record where
  steps : Array Step
  log : Array Event

namespace Record

def empty : Record where
  steps := #[]
  log := #[]

def note (record : Record) (event : Event) : Record :=
  { record with log := record.log.push event }

def add (record : Record) (event : Event) (step : Step) : Record where
  steps := record.steps.push step
  log := record.log.push event

end Record

structure Frame where
  name : String
  body : Target
  depth : Nat
  /-- The number of dependencies that have been looked at. -/
  nextDep : Nat
deriving DecidableEq, Repr

def Frame.start (name : String) (body : Target) (depth : Nat) : Frame where
  name
  body
  depth
  nextDep := 0

structure Walk where
  /-- The targets that are being built, the innermost one first. -/
  frames : List Frame
  active : List String
deriving DecidableEq, Repr

def Walk.start (root : Frame) : Walk where
  frames := [root]
  active := [root.name]

def runRules (database : Database) (frame : Frame) (record : Record) :
    List String → Record × Except BuildError Unit
  | [] => (record, .ok ())
  | rule :: rest =>
      match (database.bindingsFor frame.name).expand rule with
      | .error cause => (record, .error (.expansion frame.name rule cause))
      | .ok command =>
          let record := (record.note (.expanded rule command)).add
            (.ruleExpanded frame.name command) (.command frame.name frame.depth command)
          runRules database frame record rest

def finish (database : Database) (frame : Frame) (record : Record) :
    Record × Except BuildError Unit :=
  match runRules database frame record frame.body.rules with
  | (record, .error failure) => (record, .error failure)
  | (record, .ok ()) =>
      (record.add (.left frame.name frame.body.deps) (.leave frame.name frame.depth), .ok ())

def recordEntered (database : Database) (name : String) (depth : Nat) (record : Record) :
    Record :=
  record.add (.entered name depth)
    (.enter name depth (database.conditionals.entriesFor name))

def enter (database : Database) (name : String) (neededBy? : Option String) (depth : Nat)
    (record : Record) : Record × Except BuildError Frame :=
  match database.plan.get? name with
  | none => (record, .error (.unknownTarget name neededBy?))
  | some body => (recordEntered database name depth record, .ok (.start name body depth))

theorem enter_of_found {database : Database} {name : String} {body : Target}
    (found : database.plan.get? name = some body) (neededBy? : Option String) (depth : Nat)
    (record : Record) :
    enter database name neededBy? depth record =
      (recordEntered database name depth record, .ok (.start name body depth)) := by
  simp only [enter, found]

/-- The names of a cycle that is closed by a target on the stack: from that target up to the
innermost one, and the target again. -/
def cycle (frames : List Frame) (name : String) : List String :=
  (frames.reverse.map Frame.name).dropWhile (· != name) ++ [name]

inductive Next where
  | more (later : Walk)
  | done (result : Except BuildError Unit)

/-- Looks at the next dependency of the innermost target, or finishes it. -/
def step (database : Database) (walk : Walk) (record : Record) : Record × Next :=
  match walk.frames with
  | [] => (record, .done (.ok ()))
  | top :: below =>
      match top.body.deps[top.nextDep]? with
      | none =>
          match finish database top record with
          | (record, .error failure) => (record, .done (.error failure))
          | (record, .ok ()) =>
              (record, .more { frames := below, active := walk.active.erase top.name })
      | some dep =>
          let top := { top with nextDep := top.nextDep + 1 }
          if dep = waitMarker then (record, .more { walk with frames := top :: below })
          else if dep ∈ walk.active then
            (record, .done (.error (.dependencyCycle (cycle (top :: below) dep))))
          else
            match enter database dep (some top.name) (top.depth + 1) record with
            | (record, .error failure) => (record, .done (.error failure))
            | (record, .ok child) =>
                (record, .more
                  { frames := child :: top :: below, active := walk.active.insert child.name })

theorem of_enter_eq_ok {database : Database} {name : String} {neededBy? : Option String}
    {depth : Nat} {record later : Record} {frame : Frame}
    (entered : enter database name neededBy? depth record = (later, .ok frame)) :
    ∃ body, database.plan.get? name = some body ∧ frame = .start name body depth := by
  unfold enter at entered
  split at entered
  · injection entered with _ impossible
    contradiction
  · rename_i body found
    injection entered with _ result
    injection result with same
    exact ⟨body, found, same.symm⟩

inductive Move (database : Database) : Walk → Walk → Prop where
  | finish {top : Frame} {below : List Frame} {active : List String}
      (noMore : top.body.deps[top.nextDep]? = none) :
      Move database ⟨top :: below, active⟩ ⟨below, active.erase top.name⟩
  | skip {top : Frame} {below : List Frame} {active : List String}
      (nextDep : top.body.deps[top.nextDep]? = some waitMarker) :
      Move database ⟨top :: below, active⟩
        ⟨{ top with nextDep := top.nextDep + 1 } :: below, active⟩
  | enter {top : Frame} {below : List Frame} {active : List String} {dep : String}
      {body : Target} (nextDep : top.body.deps[top.nextDep]? = some dep)
      (fresh : dep ∉ active) (found : database.plan.get? dep = some body) :
      Move database ⟨top :: below, active⟩
        ⟨.start dep body (top.depth + 1) :: { top with nextDep := top.nextDep + 1 } :: below,
          active.insert dep⟩

theorem move_of_step {database : Database} {walk next : Walk} {record later : Record}
    (stepped : step database walk record = (later, .more next)) :
    Move database walk next := by
  obtain ⟨frames, active⟩ := walk
  unfold step at stepped
  simp only at stepped
  split at stepped
  · cases stepped
  · split at stepped
    · rename_i noMore
      split at stepped
      · cases stepped
      · cases stepped
        exact .finish noMore
    · rename_i dep nextDep
      split at stepped
      · rename_i marker
        cases stepped
        exact .skip (marker ▸ nextDep)
      · split at stepped
        · cases stepped
        · rename_i fresh
          split at stepped
          · cases stepped
          · rename_i entered
            obtain ⟨body, found, rfl⟩ := of_enter_eq_ok entered
            cases stepped
            exact .enter nextDep fresh found

def base (plan : Plan) : Nat :=
  Budget.largest (plan.entries.map fun entry => entry.2.deps.length) + 2

def Frame.load (frame : Frame) : Budget.Load String where
  pending := frame.body.deps.length - frame.nextDep
  opened := some frame.name

def Walk.weight (plan : Plan) (walk : Walk) : Nat :=
  Budget.total (base plan) plan.names walk.active (walk.frames.map Frame.load)

private theorem plan_base_pos (plan : Plan) : 0 < base plan :=
  Nat.succ_pos _

private theorem length_succ_lt_plan_base {plan : Plan} {name : String} {body : Target}
    (found : plan.get? name = some body) : body.deps.length + 1 < base plan := by
  have bounded : body.deps.length ≤
      Budget.largest (plan.entries.map fun entry => entry.2.deps.length) :=
    Budget.le_largest (List.mem_map.mpr ⟨(name, body), Table.mem_entries_of_get? found, rfl⟩)
  unfold base
  omega

private theorem pending_lt {top : Frame} {dep : String}
    (nextDep : top.body.deps[top.nextDep]? = some dep) :
    top.body.deps.length - (top.nextDep + 1) < top.load.pending := by
  have within := (List.getElem?_eq_some_iff.mp nextDep).1
  unfold Frame.load
  dsimp only
  omega

theorem step_decreases {database : Database} {walk next : Walk} {record later : Record}
    (stepped : step database walk record = (later, .more next)) :
    next.weight database.plan < walk.weight database.plan := by
  have positive := plan_base_pos database.plan
  unfold Walk.weight
  cases move_of_step stepped with
  | @finish top => exact Budget.total_close_lt positive database.plan.names _ top.load _
  | @skip top _ _ nextDep =>
      exact Budget.total_read_lt positive (pending_lt nextDep) (some top.name) _ _ _
  | @enter top _ _ _ _ nextDep fresh found =>
      exact Budget.total_open_lt (pending_lt nextDep) (length_succ_lt_plan_base found)
        (Table.mem_names_of_get? found) fresh (some top.name) _

def run (database : Database) (walk : Walk) (record : Record) :
    Record × Except BuildError Unit :=
  match _stepped : step database walk record with
  | (record, .more next) => run database next record
  | (record, .done result) => (record, result)
termination_by walk.weight database.plan
decreasing_by exact step_decreases _stepped

theorem run_of_step_more {database : Database} {walk next : Walk} {record later : Record}
    (stepped : step database walk record = (later, .more next)) :
    run database walk record = run database next later := by
  rw [run]
  split
  · rename_i other further same
    rw [stepped] at same
    cases same
    rfl
  · rename_i other result same
    rw [stepped] at same
    cases same

theorem run_of_step_done {database : Database} {walk : Walk} {record later : Record}
    {result : Except BuildError Unit}
    (stepped : step database walk record = (later, .done result)) :
    run database walk record = (later, result) := by
  rw [run]
  split
  · rename_i other further same
    rw [stepped] at same
    cases same
  · rename_i other outcome same
    rw [stepped] at same
    cases same
    rfl

end Build

namespace Database

def buildInto (database : Database) (name : String) (record : Build.Record) :
    Build.Record × Except BuildError Unit :=
  if name = waitMarker then (record, .ok ())
  else
    match Build.enter database name none 1 record with
    | (record, .error failure) => (record, .error failure)
    | (record, .ok root) => Build.run database (.start root) record

theorem buildInto_of_found {database : Database} {name : String} {body : Target}
    (notMarker : name ≠ waitMarker) (found : database.plan.get? name = some body)
    (record : Build.Record) :
    database.buildInto name record =
      Build.run database (.start (.start name body 1))
        (Build.recordEntered database name 1 record) := by
  rw [buildInto, if_neg notMarker, Build.enter_of_found found]

/-- Builds targets one after the other, up to the first that fails. If the requests are announced,
each one is noted before it is met. -/
def buildAllInto (database : Database) (announced : Bool) (record : Build.Record) :
    List String → Build.Record × Except BuildError Unit
  | [] => (record, .ok ())
  | name :: rest =>
      let record := if announced then record.note (.requested name) else record
      match database.buildInto name record with
      | (record, .error failure) => (record, .error failure)
      | (record, .ok ()) => database.buildAllInto announced record rest

end Database

end DryMake
