import DryMake.Proofs.Build.Reachability

/-!
The visits under way at a point of a trace. The steps before the point tell which they are, read as
brackets: a step that begins a target opens a visit inside the innermost one, and a step that leaves
a target closes the innermost one. These visits alone decide which steps may come next.
-/

namespace DryMake.Build

/-- A visit that is begun and not finished, as the steps tell of it. -/
structure OpenVisit where
  target : String
  /-- The targets begun directly inside it, in order. -/
  inside : List String
  commands : List String
deriving DecidableEq, Repr

namespace OpenVisit

def begin (target : String) : OpenVisit := ⟨target, [], []⟩

def meet (visit : OpenVisit) (targets : List String) : OpenVisit :=
  { visit with inside := visit.inside ++ targets }

def run (visit : OpenVisit) (command : String) : OpenVisit :=
  { visit with commands := visit.commands ++ [command] }

@[simp] theorem meet_nil (visit : OpenVisit) : visit.meet [] = visit := by
  simp [meet]

@[simp] theorem meet_meet (visit : OpenVisit) (first second : List String) :
    (visit.meet first).meet second = visit.meet (first ++ second) := by
  simp [meet]

end OpenVisit

/-- What a step does to the visits under way, of which the innermost one stands first. -/
def follow : List OpenVisit → Step → List OpenVisit
  | [], .enter target _ _ => [.begin target]
  | top :: below, .enter target _ _ => .begin target :: top.meet [target] :: below
  | top :: below, .command _ _ command => top.run command :: below
  | _ :: below, .leave _ _ => below
  | [], _ => []

def openVisits (steps : List Step) : List OpenVisit :=
  steps.foldl follow []

theorem openVisits_append (earlier later : List Step) :
    openVisits (earlier ++ later) = later.foldl follow (openVisits earlier) :=
  List.foldl_append

/-- The dependencies for which something is built. -/
def needed (deps : List String) : List String :=
  deps.filter (· ≠ waitMarker)

@[simp] theorem needed_nil : needed [] = [] := rfl

@[simp] theorem needed_marker (rest : List String) : needed (waitMarker :: rest) = needed rest := by
  simp [needed]

theorem needed_cons {dep : String} (notMarker : dep ≠ waitMarker) (rest : List String) :
    needed (dep :: rest) = dep :: needed rest := by
  simp [needed, notMarker]

/-- The commands are those to which the rules of a target expand, one for each rule. -/
def AreCommands (database : Database) (name : String) (rules commands : List String) : Prop :=
  List.Forall₂ (fun rule command => (database.bindingsFor name).expand rule = .ok command)
    rules commands

/-- A step that may come next while visits are under way. A target is begun only as the next
dependency of the innermost visit, before any command of that visit, and one level below it. A
command comes once there is a visit for each dependency, and is that of the next rule. The visit is
left with a command for each rule. -/
def Allowed (database : Database) : List OpenVisit → Step → Prop
  | [], _ => False
  | top :: below, step =>
      ∃ body, database.plan.get? top.target = some body ∧
        match step with
        | .enter target depth conditionals =>
            depth = (top :: below).length + 1 ∧ target ∈ database.plan.names ∧
              conditionals = database.conditionals.entriesFor target ∧
              top.commands = [] ∧ top.inside ++ [target] <+: needed body.deps
        | .command target depth command =>
            target = top.target ∧ depth = (top :: below).length ∧
              top.inside = needed body.deps ∧
              ∃ rules, rules <+: body.rules ∧
                AreCommands database target rules (top.commands ++ [command])
        | .leave target depth =>
            target = top.target ∧ depth = (top :: below).length ∧
              top.inside = needed body.deps ∧ AreCommands database target body.rules top.commands

def Legal (database : Database) : List OpenVisit → List Step → Prop
  | _, [] => True
  | visits, step :: rest => Allowed database visits step ∧ Legal database (follow visits step) rest

variable {database : Database} {visits : List OpenVisit}

theorem legal_append {first second : List Step} :
    Legal database visits (first ++ second) ↔
      Legal database visits first ∧ Legal database (first.foldl follow visits) second := by
  induction first generalizing visits with
  | nil => simp [Legal]
  | cons step rest inductionHypothesis =>
      simp only [List.cons_append, Legal, List.foldl_cons, inductionHypothesis, and_assoc]

theorem allowed_of_legal {steps before after : List Step} {step : Step}
    (legal : Legal database visits steps) (split : steps = before ++ step :: after) :
    Allowed database (before.foldl follow visits) step := by
  rw [split, legal_append] at legal
  exact legal.2.1

/-- There are visits for the first dependencies and commands of the first rules, and no command
before there is a visit for each dependency. -/
def OpenVisit.Sound (database : Database) (visit : OpenVisit) : Prop :=
  ∃ body, database.plan.get? visit.target = some body ∧
    visit.inside <+: needed body.deps ∧
    (visit.commands ≠ [] → visit.inside = needed body.deps) ∧
    ∃ rules, rules <+: body.rules ∧ AreCommands database visit.target rules visit.commands

theorem sound_begin {name : String} (known : name ∈ database.plan.names) :
    (OpenVisit.begin name).Sound database := by
  have named := (database.plan.isSome_get?_iff name).mpr known
  obtain ⟨body, found⟩ := Option.isSome_iff_exists.mp named
  exact ⟨body, found, List.nil_prefix, fun ran => absurd rfl ran, [], List.nil_prefix, .nil⟩

private theorem sound_follow {step : Step} (allowed : Allowed database visits step)
    (sound : ∀ visit ∈ visits, visit.Sound database) :
    ∀ visit ∈ follow visits step, visit.Sound database := by
  cases visits with
  | nil => cases allowed
  | cons top below =>
      obtain ⟨body, found, allowed⟩ := allowed
      obtain ⟨onTop, onBelow⟩ := List.forall_mem_cons.mp sound
      cases step with
      | enter target depth conditionals =>
          obtain ⟨-, known, -, noCommands, isNext⟩ := allowed
          have met : (top.meet [target]).Sound database :=
            ⟨body, found, isNext, fun ran => absurd noCommands ran, [], List.nil_prefix,
              noCommands ▸ .nil⟩
          exact List.forall_mem_cons.mpr
            ⟨sound_begin known, List.forall_mem_cons.mpr ⟨met, onBelow⟩⟩
      | command target depth command =>
          obtain ⟨rfl, -, complete, rules, ofBody, commands⟩ := allowed
          have ran : (top.run command).Sound database :=
            ⟨body, found, complete ▸ List.prefix_refl _, fun _ => complete, rules, ofBody, commands⟩
          exact List.forall_mem_cons.mpr ⟨ran, onBelow⟩
      | leave target depth => exact onBelow

theorem sound_of_legal {steps : List Step} (legal : Legal database visits steps)
    (sound : ∀ visit ∈ visits, visit.Sound database) :
    ∀ visit ∈ steps.foldl follow visits, visit.Sound database := by
  induction steps generalizing visits with
  | nil => exact sound
  | cons step rest inductionHypothesis =>
      exact inductionHypothesis legal.2 (sound_follow legal.1 sound)

end DryMake.Build
