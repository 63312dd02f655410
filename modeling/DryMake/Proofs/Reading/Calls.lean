import DryMake.Proofs.Reading.Nesting

/-!
One reader that is called again and again. A call finds the chain and the database as the calls
before it have left them. The files that it reads join the chain in front of what stands there, and
every way of leaving a file, at its end or after a failure, takes it from the chain. So a call leaves
the chain as it was, however deep in its inclusions it fails, and a reader that has been called is
not told from a fresh one.
-/

namespace DryMake.Reader

structure State where
  chain : List Path
  database : Database

/-- The moment at which a call begins. The chain that it finds is not emptied. -/
def State.call (state : State) (reader : Reader) (source : Source) : Moment :=
  let fresh := reader.start source state.database
  { fresh with chain := fresh.chain ++ state.chain }

def Moment.result (moment : Moment) : Except ReadError Unit :=
  match moment.failure? with
  | none => .ok ()
  | some failure => .error failure

def Moment.state (moment : Moment) : State := ⟨moment.chain, moment.database⟩

def Answers (reader : Reader) (source : Source) (earlier : State)
    (result : Except ReadError Unit) (later : State) : Prop :=
  ∃ last, Steps reader (earlier.call reader source) last ∧ reader.step last = none ∧
    last.result = result ∧ last.state = later

/-- The calls of a list are answered one after the other, whether or not they fail; each answer is a
result and the state after it. The files may have changed from one call to the next. -/
inductive Calls : State → List (Reader × Source) → List (Except ReadError Unit × State) → Prop where
  | done (state : State) : Calls state [] []
  | call {state next : State} {reader : Reader} {source : Source}
      {result : Except ReadError Unit} {rest : List (Reader × Source)}
      {answers : List (Except ReadError Unit × State)}
      (answered : Answers reader source state result next) (further : Calls next rest answers) :
      Calls state ((reader, source) :: rest) ((result, next) :: answers)

/-- The answers if each call is made on a fresh reader, with nothing on its chain. -/
def answersAnew (workspace : Workspace) :
    List (Reader × Source) → List (Except ReadError Unit × State)
  | [] => []
  | (reader, source) :: rest =>
      let outcome := (reader.read source).run workspace
      (outcome.1, ⟨[], outcome.2.database⟩) :: answersAnew outcome.2 rest

def Moment.reading (moment : Moment) : List Path :=
  (moment.sheets.filter Sheet.listed).map Sheet.file

/-- The chain holds the files that are being read, and below them what stood there before. -/
def Moment.Above (bottom : List Path) (moment : Moment) : Prop :=
  moment.chain = moment.reading ++ bottom

variable {reader : Reader} {bottom chain : List Path} {database : Database}
  {failure? : Option ReadError}

private theorem Moment.Above.leave {top : Sheet} {below : List Sheet}
    (above : Moment.Above bottom ⟨top :: below, chain, database, failure?⟩) (later : Database) :
    Moment.Above bottom ⟨below, chainAfter top.listed chain, later, failure?⟩ := by
  unfold Above reading at above ⊢
  dsimp only at above ⊢
  cases onChain : top.listed with
  | false =>
      rw [List.filter_cons_of_neg (by rw [onChain]; exact Bool.false_ne_true)] at above
      exact above
  | true =>
      rw [List.filter_cons_of_pos onChain, List.map_cons, List.cons_append] at above
      rw [above]
      rfl

private theorem Moment.Above.enter {moment : Moment} (above : moment.Above bottom) (path : Path)
    (contents : Contents) : (moment.enter path contents).Above bottom := by
  cases contents with
  | directory | binary => exact above
  | text text => exact congrArg (path :: ·) above

private theorem above_step {earlier later : Moment} (above : earlier.Above bottom)
    (stepped : reader.step earlier = some later) : later.Above bottom := by
  apply step_keeps _ _ _ above stepped
  · intro top below chain database failure? later above
    exact above.leave later
  · intro file listed open? lines below chain database above next? rest later failure?
    cases listed <;> exact above
  · intro moment path contents _ _ above
    exact above.enter path contents

private theorem above_call (reader : Reader) (source : Source) (state : State) :
    (state.call reader source).Above state.chain :=
  congrArg (· ++ state.chain) (reader.nested_start source state.database).listed

/-- While a call is being answered, its files stand on the chain in front of what it found. -/
theorem above_steps {source : Source} {state : State} {moment : Moment}
    (steps : Steps reader (state.call reader source) moment) : moment.Above state.chain := by
  induction steps with
  | refl => exact reader.above_call source state
  | tail _ stepped inductionHypothesis => exact above_step inductionHypothesis stepped

private theorem sheets_of_step_eq_none {moment : Moment} (ended : reader.step moment = none) :
    moment.sheets = [] := by
  obtain ⟨sheets, chain, database, failure?⟩ := moment
  cases sheets with
  | nil => rfl
  | cons top below =>
      obtain ⟨file, listed, open?, lines⟩ := top
      cases failure? with
      | some failure => cases ended
      | none =>
          cases lines with
          | nil => cases ended
          | cons line rest =>
              obtain ⟨_, _, -, isNext⟩ | ⟨_, _, -, isNext⟩ | ⟨_, _, _, -, -, -, isNext⟩ :=
                reader.step_of_line chain file listed open? line rest below database
              all_goals
                rw [isNext] at ended
                cases ended

theorem eq_of_steps_of_ended {moment first second : Moment} (steps : Steps reader moment first)
    (ended : reader.step first = none) (otherSteps : Steps reader moment second)
    (otherEnded : reader.step second = none) : first = second := by
  have unique : Relator.RightUnique fun earlier later => reader.step earlier = some later := by
    intro earlier later other stepped otherwise
    exact Option.some.inj (stepped.symm.trans otherwise)
  have stays : ∀ {last other : Moment}, reader.step last = none → Steps reader last other →
      last = other := by
    intro last other atEnd further
    cases further.cases_head with
    | inl same => exact same
    | inr goesOn =>
        obtain ⟨next, stepped, -⟩ := goesOn
        rw [atEnd] at stepped
        cases stepped
  cases Relation.ReflTransGen.total_of_right_unique unique steps otherSteps with
  | inl further => exact stays ended further
  | inr further => exact (stays otherEnded further).symm

private theorem Answers.chain_eq {source : Source} {earlier later : State}
    {result : Except ReadError Unit} (answered : Answers reader source earlier result later) :
    later.chain = earlier.chain := by
  obtain ⟨last, steps, ended, -, rfl⟩ := answered
  have above : last.Above earlier.chain := above_steps steps
  unfold Moment.Above Moment.reading at above
  rw [sheets_of_step_eq_none ended] at above
  exact above

/-- A call that finds nothing on the chain is answered by the reading of its source. -/
theorem answers_iff_of_fresh (reader : Reader) (source : Source) (workspace : Workspace)
    (result : Except ReadError Unit) (later : State) :
    let outcome := (reader.read source).run workspace
    Answers reader source ⟨[], workspace.database⟩ result later ↔
      result = outcome.1 ∧ later = ⟨[], outcome.2.database⟩ := by
  intro outcome
  have begun : State.call ⟨[], workspace.database⟩ reader source =
      reader.start source workspace.database := by
    unfold State.call
    dsimp only
    rw [List.append_nil]
  have effect : (outcome.1, outcome.2.database) = reader.ofSource source workspace.database :=
    reader.does_read source workspace
  have walk := reader.steps_of_start source workspace.database
  rw [← effect, ← begun] at walk
  have atEnd : ∀ answer : Except ReadError Unit × Database,
      reader.step (.ended [] [] answer) = none ∧
        (Moment.ended [] [] answer).result = answer.1 ∧
        (Moment.ended [] [] answer).state = ⟨[], answer.2⟩ := by
    intro answer
    obtain ⟨_ | _, _⟩ := answer <;> exact ⟨rfl, rfl, rfl⟩
  obtain ⟨ended, isResult, isState⟩ := atEnd (outcome.1, outcome.2.database)
  constructor
  · intro answered
    obtain ⟨last, steps, lastEnded, rfl, rfl⟩ := answered
    cases eq_of_steps_of_ended steps lastEnded walk ended
    exact ⟨isResult, isState⟩
  · intro same
    obtain ⟨rfl, rfl⟩ := same
    exact ⟨_, walk, ended, isResult, isState⟩

private theorem Calls.chain_eq {state : State} {calls : List (Reader × Source)}
    {answers : List (Except ReadError Unit × State)} (answered : Calls state calls answers) :
    ∀ answer ∈ answers, answer.2.chain = state.chain := by
  induction answered with
  | done state =>
      intro answer member
      cases member
  | call answered further inductionHypothesis =>
      have restored := answered.chain_eq
      intro answer member
      cases List.mem_cons.mp member with
      | inl same => exact same ▸ restored
      | inr later => exact (inductionHypothesis answer later).trans restored

private theorem calls_iff_of_fresh (calls : List (Reader × Source)) (workspace : Workspace)
    (answers : List (Except ReadError Unit × State)) :
    Calls ⟨[], workspace.database⟩ calls answers ↔ answers = answersAnew workspace calls := by
  induction calls generalizing workspace answers with
  | nil =>
      constructor
      · intro answered
        cases answered
        rfl
      · intro same
        rw [same]
        exact .done _
  | cons call rest inductionHypothesis =>
      obtain ⟨reader, source⟩ := call
      constructor
      · intro answered
        cases answered with
        | call answered further =>
            obtain ⟨rfl, rfl⟩ :=
              (reader.answers_iff_of_fresh source workspace _ _).mp answered
            rw [(inductionHypothesis _ _).mp further]
            rfl
      · intro same
        rw [same]
        apply Calls.call
        · exact (reader.answers_iff_of_fresh source workspace _ _).mpr ⟨rfl, rfl⟩
        · exact (inductionHypothesis _ _).mpr rfl

/-- A reader keeps nothing between its calls but the database. Whatever the calls of a sequence read,
and wherever they fail, each has the result of a fresh reading and leaves the database of a fresh
reading. Each leaves the chain as it found it, since all that stands on the chain beside that is the
files which the call itself is reading; so no file of an earlier call is refused as a cycle. -/
theorem calls_leave_nothing (calls : List (Reader × Source))
    (answers : List (Except ReadError Unit × State)) :
    (∀ workspace : Workspace,
      Calls ⟨[], workspace.database⟩ calls answers ↔ answers = answersAnew workspace calls) ∧
    (∀ state, Calls state calls answers → ∀ answer ∈ answers, answer.2.chain = state.chain) ∧
    (∀ reader source state moment, Steps reader (State.call state reader source) moment →
      moment.chain = (moment.sheets.filter Sheet.listed).map Sheet.file ++ state.chain) := by
  refine ⟨?_, ?_, ?_⟩
  · intro workspace
    exact calls_iff_of_fresh calls workspace answers
  · intro state answered
    exact answered.chain_eq
  · intro reader source state moment steps
    exact above_steps steps

theorem calls_leave_nothing_deep :
    let files : Option Contents → FileSystem := fun deepest => .ofLookup fun path =>
      if path.text = "a" then some (.text "include b")
      else if path.text = "b" then some (.text "V = 1\ninclude c")
      else if path.text = "c" then deepest
      else none
    let calls : List (Reader × Source) :=
      [(⟨files none, none⟩, .makefile ⟨"a"⟩),
        (⟨files (some (.text "")), none⟩, .lines ⟨"again"⟩ ["include a", "include b"])]
    ∃ first second : State,
      Calls ⟨[], .empty false⟩ calls
        [(.error (.missingFile ⟨"c"⟩ (some ⟨⟨"b"⟩, 2⟩)), first), (.ok (), second)] ∧
      first.chain = [] ∧ second.chain = [] := by
  intro files calls
  have results : (answersAnew (.empty false) calls).map Prod.fst =
      [.error (.missingFile ⟨"c"⟩ (some ⟨⟨"b"⟩, 2⟩)), .ok ()] := by
    subst calls files
    cbv
  have answered := ((calls_leave_nothing calls _).1 (.empty false)).mpr rfl
  have restored := (calls_leave_nothing calls _).2.1 _ answered
  generalize answersAnew (.empty false) calls = answers at results answered restored
  obtain ⟨⟨_, first⟩, further, rfl, rfl, onFurther⟩ := List.map_eq_cons_iff.mp results
  obtain ⟨⟨_, second⟩, others, rfl, rfl, onOthers⟩ := List.map_eq_cons_iff.mp onFurther
  obtain rfl := List.map_eq_nil_iff.mp onOthers
  refine ⟨first, second, answered, ?_, ?_⟩
  · exact restored _ List.mem_cons_self
  · exact restored _ (List.mem_cons_of_mem _ List.mem_cons_self)

end DryMake.Reader
