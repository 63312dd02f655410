import DryMake.Proofs.Build.Correspondence

/-!
Requests that are met one after the other, up to the first that fails. Each of them is built as if it
were the only one: nothing that was recorded before it has a part in its build, and it only adds to
the record.
-/

namespace DryMake.Build

/-- Requests met one after the other, up to the first that fails. -/
def requestAll (database : Database) : List String → Visit
  | [] => .nothing
  | name :: rest => (request database name).andThen (requestAll database rest)

/-- What is asked for is built like the dependencies of a target to which nothing leads. -/
theorem requestAll_eq_visitDeps (database : Database) (names : List String) :
    requestAll database names = visitDeps database [] 0 names := by
  induction names with
  | nil => exact (visitDeps_nil [] 0).symm
  | cons name rest inductionHypothesis =>
      rw [requestAll, inductionHypothesis, request]
      by_cases marker : name = waitMarker
      · rw [if_pos marker, marker, visitDeps_marker]
        rfl
      · rw [if_neg marker, visitDeps, if_neg marker, dif_neg List.not_mem_nil]

private theorem exists_record_of_buildAllInto_cons (database : Database) (announced : Bool)
    (record : Record) (name : String) :
    ∃ built : Record,
      built.steps.toList = record.steps.toList ++ (request database name).steps ∧
        ∀ rest, database.buildAllInto announced record (name :: rest) =
          match (request database name).result with
          | .error failure => (built, .error failure)
          | .ok () => database.buildAllInto announced built rest := by
  have sameSteps :
      (if announced then record.note (.requested name) else record).steps = record.steps := by
    split <;> rfl
  obtain ⟨built, builtSteps, ran⟩ := exists_record_of_request database name
    (if announced then record.note (.requested name) else record)
  rw [sameSteps] at builtSteps
  refine ⟨built, builtSteps, fun rest => ?_⟩
  rw [Database.buildAllInto, ran]
  cases (request database name).result <;> rfl

theorem buildAllInto_eq_requestAll (database : Database) (announced : Bool) (record : Record)
    (targets : List String) :
    (database.buildAllInto announced record targets).1.steps.toList =
        record.steps.toList ++ (requestAll database targets).steps ∧
      (database.buildAllInto announced record targets).2 =
        (requestAll database targets).result := by
  induction targets generalizing record with
  | nil => exact ⟨(List.append_nil _).symm, rfl⟩
  | cons name rest inductionHypothesis =>
      obtain ⟨built, builtSteps, ran⟩ :=
        exists_record_of_buildAllInto_cons database announced record name
      rw [ran, requestAll, Visit.andThen]
      cases (request database name).result with
      | error failure => exact ⟨builtSteps, rfl⟩
      | ok value =>
          obtain ⟨restSteps, restResult⟩ := inductionHypothesis built
          refine ⟨?_, restResult⟩
          rw [restSteps, builtSteps, List.append_assoc]

theorem buildAllInto_append_of_failed {database : Database} {tried : List String}
    (failed : (requestAll database tried).result ≠ .ok ()) (announced : Bool) (record : Record)
    (others : List String) :
    database.buildAllInto announced record (tried ++ others) =
      database.buildAllInto announced record tried := by
  induction tried generalizing record with
  | nil => exact absurd rfl failed
  | cons name rest inductionHypothesis =>
      obtain ⟨built, -, ran⟩ := exists_record_of_buildAllInto_cons database announced record name
      rw [requestAll, Visit.andThen] at failed
      rw [List.cons_append, ran, ran]
      cases ended : (request database name).result with
      | error failure => rfl
      | ok value =>
          rw [ended] at failed
          exact inductionHypothesis failed built

section

variable {database : Database}

private theorem exists_firstFailure (database : Database) (names : List String) :
    (∀ name ∈ names, (request database name).result = .ok ()) ∨
      ∃ before last rest failure, names = before ++ [last] ++ rest ∧
        (∀ name ∈ before, (request database name).result = .ok ()) ∧
        (request database last).result = .error failure := by
  induction names with
  | nil => exact Or.inl (List.forall_mem_nil _)
  | cons name rest inductionHypothesis =>
      cases here : (request database name).result with
      | error failure =>
          exact Or.inr ⟨[], name, rest, failure, rfl, List.forall_mem_nil _, here⟩
      | ok value =>
          rcases inductionHypothesis with
            onRest | ⟨before, last, others, failure, rfl, onBefore, failed⟩
          · exact Or.inl (List.forall_mem_cons.mpr ⟨here, onRest⟩)
          · exact Or.inr ⟨name :: before, last, others, failure, rfl,
              List.forall_mem_cons.mpr ⟨here, onBefore⟩, failed⟩

private theorem requestAll_append_of_ok {names : List String}
    (succeed : ∀ name ∈ names, (request database name).result = .ok ()) (rest : List String) :
    requestAll database (names ++ rest) =
      (Visit.mk (names.flatMap fun name => (request database name).steps) (.ok ())).andThen
        (requestAll database rest) := by
  induction names with
  | nil => rfl
  | cons name others inductionHypothesis =>
      obtain ⟨here, onOthers⟩ := List.forall_mem_cons.mp succeed
      rw [List.cons_append, requestAll, inductionHypothesis onOthers]
      simp [Visit.andThen, here]

private theorem requestAll_of_ok {names : List String}
    (succeed : ∀ name ∈ names, (request database name).result = .ok ()) :
    requestAll database names =
      ⟨names.flatMap fun name => (request database name).steps, .ok ()⟩ := by
  have whole := requestAll_append_of_ok succeed []
  simpa [requestAll, Visit.andThen, Visit.nothing] using whole

private theorem requestAll_of_failed {before : List String} {last : String} {failure : BuildError}
    (succeed : ∀ name ∈ before, (request database name).result = .ok ())
    (failed : (request database last).result = .error failure) (rest : List String) :
    requestAll database (before ++ [last] ++ rest) =
      ⟨(before ++ [last]).flatMap fun name => (request database name).steps, .error failure⟩ := by
  rw [List.append_assoc, requestAll_append_of_ok succeed, List.singleton_append, requestAll]
  simp [Visit.andThen, failed]

private theorem result_requestAll_eq_ok_iff (database : Database) (names : List String) :
    (requestAll database names).result = .ok () ↔
      ∀ name ∈ names, (request database name).result = .ok () := by
  induction names with
  | nil => simp [requestAll, Visit.nothing]
  | cons name rest inductionHypothesis =>
      rw [requestAll, Visit.result_andThen_eq_ok_iff, inductionHypothesis, List.forall_mem_cons]

end

/-- Requests leave what was recorded before them and, after it, the steps that each of them records
when it is built alone, up to the first that fails. That one's failure is theirs, and what is asked
for after it plays no part. What was recorded before, and whether the requests are announced, plays
no part either; nor does the order of the requests in whether they all succeed. -/
theorem buildAllInto_composes (database : Database) (announced : Bool) (record : Record)
    (names : List String) :
    let alone := fun name => database.buildInto name .empty
    let built := database.buildAllInto announced record names
    let fresh := database.buildAllInto false .empty names
    (∃ met rest, names = met ++ rest ∧
      built.1.steps.toList =
        record.steps.toList ++ met.flatMap (fun name => (alone name).1.steps.toList) ∧
      ((rest = [] ∧ built.2 = .ok () ∧ ∀ name ∈ met, (alone name).2 = .ok ()) ∨
        ∃ before last failure, met = before ++ [last] ∧ built.2 = .error failure ∧
          (∀ name ∈ before, (alone name).2 = .ok ()) ∧ (alone last).2 = .error failure ∧
          ∀ others, database.buildAllInto announced record (met ++ others) = built)) ∧
    (fresh.2 = built.2 ∧
      built.1.steps.toList = record.steps.toList ++ fresh.1.steps.toList) ∧
    ∀ others, names.Perm others →
      ((database.buildAllInto announced record others).2 = .ok () ↔ built.2 = .ok ()) := by
  intro alone built fresh
  have aloneSteps : ∀ name, (alone name).1.steps.toList = (request database name).steps :=
    fun name => steps_buildInto database name .empty
  have aloneResult : ∀ name, (alone name).2 = (request database name).result :=
    fun name => result_buildInto database name .empty
  obtain ⟨builtSteps, builtResult⟩ := buildAllInto_eq_requestAll database announced record names
  obtain ⟨freshSteps, freshResult⟩ := buildAllInto_eq_requestAll database false .empty names
  simp only [aloneSteps, aloneResult]
  refine ⟨?_, ⟨freshResult.trans builtResult.symm, ?_⟩, ?_⟩
  · rcases exists_firstFailure database names with
      succeed | ⟨before, last, rest, failure, split, succeed, failed⟩
    · rw [requestAll_of_ok succeed] at builtSteps builtResult
      exact ⟨names, [], (List.append_nil names).symm, builtSteps,
        Or.inl ⟨rfl, builtResult, succeed⟩⟩
    · have stops := requestAll_of_failed succeed failed []
      rw [List.append_nil] at stops
      have failedThere : (requestAll database (before ++ [last])).result ≠ .ok () := by
        rw [stops]
        exact fun impossible => by cases impossible
      have same : ∀ others, database.buildAllInto announced record (before ++ [last] ++ others) =
          built := by
        intro others
        have unmet := buildAllInto_append_of_failed failedThere announced record
        rw [unmet others, ← unmet rest, ← split]
      rw [split, requestAll_of_failed succeed failed rest] at builtSteps builtResult
      rw [← split] at builtSteps builtResult
      exact ⟨before ++ [last], rest, split, builtSteps,
        Or.inr ⟨before, last, failure, rfl, builtResult, succeed, failed, same⟩⟩
  · exact builtSteps.trans (congrArg (record.steps.toList ++ ·) freshSteps.symm)
  · intro others reordered
    obtain ⟨-, othersResult⟩ := buildAllInto_eq_requestAll database announced record others
    rw [othersResult, builtResult, result_requestAll_eq_ok_iff, result_requestAll_eq_ok_iff]
    simp only [reordered.mem_iff]

end DryMake.Build
