import DryMake.Proofs.Build.Bracketing

/-!
What a rendered trace tells. A line of it begins with blanks and a mark; the mark tells what kind of
line it is, and the blanks how deep its target is. A line does not name the target to which a command
belongs, nor tell how many lines there are for a step. A step ends where the next line is not one of a
conditional macro, and a command belongs to the target that was begun last and is not left.
-/

namespace DryMake

namespace Text

theorem append_cons_inj_of_mark {mark : Char → Bool} {before other rest others : List Char}
    {c d : Char} (free : ∀ x ∈ before, mark x = false) (otherFree : ∀ x ∈ other, mark x = false)
    (isMark : mark c = true) (isOther : mark d = true)
    (same : before ++ c :: rest = other ++ d :: others) :
    before = other ∧ c = d ∧ rest = others := by
  induction before generalizing other with
  | nil =>
      cases other with
      | nil =>
          obtain ⟨rfl, rfl⟩ := List.cons.inj same
          exact ⟨rfl, rfl, rfl⟩
      | cons first more =>
          obtain ⟨rfl, -⟩ := List.cons.inj same
          rw [otherFree c List.mem_cons_self] at isMark
          cases isMark
  | cons first more inductionHypothesis =>
      cases other with
      | nil =>
          obtain ⟨rfl, -⟩ := List.cons.inj same
          rw [free first List.mem_cons_self] at isOther
          cases isOther
      | cons head tail =>
          obtain ⟨rfl, sameRest⟩ := List.cons.inj same
          obtain ⟨rfl, sameMark, sameBehind⟩ := inductionHypothesis
            (fun x member => free x (List.mem_cons_of_mem _ member))
            (fun x member => otherFree x (List.mem_cons_of_mem _ member)) sameRest
          exact ⟨rfl, sameMark, sameBehind⟩

private theorem append_cons_inj_of_notMem {before other rest others : List Char} {c : Char}
    (absent : c ∉ before) (otherAbsent : c ∉ other)
    (same : before ++ c :: rest = other ++ c :: others) : before = other ∧ rest = others := by
  have free : ∀ {text : List Char}, c ∉ text → ∀ x ∈ text, (x == c) = false := by
    intro text absent x member
    exact beq_false_of_ne fun isC => absent (isC ▸ member)
  obtain ⟨sameBefore, -, sameRest⟩ := append_cons_inj_of_mark (free absent) (free otherAbsent)
    (beq_self_eq_true c) (beq_self_eq_true c) same
  exact ⟨sameBefore, sameRest⟩

theorem eq_of_flatMap_ended {lines others : List (List Char)} (oneLine : ∀ line ∈ lines, '\n' ∉ line)
    (otherOneLine : ∀ line ∈ others, '\n' ∉ line)
    (same : lines.flatMap (· ++ ['\n']) = others.flatMap (· ++ ['\n'])) : lines = others := by
  induction lines generalizing others with
  | nil =>
      cases others with
      | nil => rfl
      | cons other more => simp at same
  | cons line rest inductionHypothesis =>
      cases others with
      | nil => simp at same
      | cons other more =>
          obtain ⟨here, onRest⟩ := List.forall_mem_cons.mp oneLine
          obtain ⟨there, onMore⟩ := List.forall_mem_cons.mp otherOneLine
          simp only [List.flatMap_cons, List.append_assoc, List.singleton_append] at same
          obtain ⟨rfl, sameRest⟩ := append_cons_inj_of_notMem here there same
          rw [inductionHypothesis onRest onMore sameRest]

def marked (indent : Nat) (mark : Char) (behind : List Char) : List Char :=
  List.replicate indent ' ' ++ mark :: behind

private theorem marked_inj {indent other : Nat} {mark another : Char} {behind text : List Char}
    (notBlank : mark ≠ ' ') (otherNotBlank : another ≠ ' ')
    (same : marked indent mark behind = marked other another text) :
    indent = other ∧ mark = another ∧ behind = text := by
  have blank : ∀ count, ∀ x ∈ List.replicate count ' ', (x != ' ') = false := by
    intro count x member
    rw [List.eq_of_mem_replicate member]
    rfl
  obtain ⟨sameIndent, sameMark, sameBehind⟩ := append_cons_inj_of_mark (blank indent) (blank other)
    (bne_iff_ne.mpr notBlank) (bne_iff_ne.mpr otherNotBlank) same
  have sameLength := congrArg List.length sameIndent
  rw [List.length_replicate, List.length_replicate] at sameLength
  exact ⟨sameLength, sameMark, sameBehind⟩

end Text

namespace Step

open Text (marked)

def conditionalRow (depth : Nat) (setting : String × String) : List Char :=
  marked (3 * depth + 6) '\\' (' ' :: (setting.1.toList ++ '=' :: ' ' :: setting.2.toList))

def rows : Step → List (List Char)
  | enter name depth conditionals =>
      marked (3 * depth + 1) '-' ("-> ".toList ++ name.toList) ::
        conditionals.map (conditionalRow depth)
  | command _ depth text => [marked (3 * depth + 6) ':' (' ' :: text.toList)]
  | leave name depth => [marked (3 * depth + 1) '<' ("-- ".toList ++ name.toList)]

private theorem marked_eq_pad {step : Step} {depth : Nat} (atDepth : step.depth = depth)
    (indent : Nat) (mark : Char) (behind : List Char) :
    marked (3 * depth + indent) mark behind = step.pad.toList ++ marked indent mark behind := by
  rw [pad, Step.indent, atDepth, String.toList_ofList, marked, marked, ← List.append_assoc,
    List.replicate_append_replicate]

private theorem toList_settings {pad : String} {depth : Nat}
    (padded : ∀ indent mark behind,
      marked (3 * depth + indent) mark behind = pad.toList ++ marked indent mark behind)
    (conditionals : List (String × String)) :
    (String.join (conditionals.map fun (key, value) =>
        "\n" ++ pad ++ "      \\ " ++ key ++ "= " ++ value)).toList ++ ['\n'] =
      '\n' :: (conditionals.map (conditionalRow depth)).flatMap (· ++ ['\n']) := by
  induction conditionals with
  | nil => rfl
  | cons setting rest inductionHypothesis =>
      rw [List.map_cons, String.join_cons, String.toList_append, List.append_assoc,
        inductionHypothesis, List.map_cons, List.flatMap_cons, conditionalRow, padded]
      simp [marked]

theorem toList_render (step : Step) :
    step.render.toList ++ ['\n'] = step.rows.flatMap (· ++ ['\n']) := by
  cases step with
  | enter name depth conditionals =>
      have padded := @marked_eq_pad (enter name depth conditionals) depth rfl
      rw [render, rows, String.toList_append, List.append_assoc, toList_settings padded,
        List.flatMap_cons, padded]
      simp [marked]
  | command name depth text =>
      rw [render, rows, @marked_eq_pad (command name depth text) depth rfl]
      simp [marked]
  | leave name depth =>
      rw [render, rows, @marked_eq_pad (leave name depth) depth rfl]
      simp [marked]

/-- Nothing that the step shows has a line feed in it, and no name of a conditional macro has an
equals sign. -/
def IsPlain : Step → Prop
  | enter target _ conditionals =>
      '\n' ∉ target.toList ∧ ∀ setting ∈ conditionals,
        '\n' ∉ setting.1.toList ∧ '=' ∉ setting.1.toList ∧ '\n' ∉ setting.2.toList
  | command target _ text => '\n' ∉ target.toList ∧ '\n' ∉ text.toList
  | leave target _ => '\n' ∉ target.toList

instance (step : Step) : Decidable step.IsPlain :=
  match step with
  | enter _ _ _ => inferInstanceAs (Decidable (_ ∧ _))
  | command _ _ _ => inferInstanceAs (Decidable (_ ∧ _))
  | leave _ _ => inferInstanceAs (Decidable (¬ _))

private theorem notMem_of_mem_rows {step : Step} (plain : step.IsPlain) {row : List Char}
    (member : row ∈ step.rows) : '\n' ∉ row := by
  cases step with
  | enter target depth conditionals =>
      obtain ⟨inTarget, inSettings⟩ := plain
      rcases List.mem_cons.mp member with rfl | isSetting
      · simp [marked, List.mem_replicate, inTarget]
      · obtain ⟨setting, isOne, rfl⟩ := List.mem_map.mp isSetting
        obtain ⟨inKey, -, inValue⟩ := inSettings setting isOne
        simp [conditionalRow, marked, List.mem_replicate, inKey, inValue]
  | command target depth text =>
      rw [List.mem_singleton.mp member]
      simp [marked, List.mem_replicate, plain.2]
  | leave target depth =>
      have inTarget : '\n' ∉ target.toList := plain
      rw [List.mem_singleton.mp member]
      simp [marked, List.mem_replicate, inTarget]

end Step

private theorem Trace.toList_render (trace : Trace) :
    trace.render.toList = (trace.flatMap Step.rows).flatMap (· ++ ['\n']) := by
  unfold Trace.render
  induction trace with
  | nil => rfl
  | cons step rest inductionHypothesis =>
      rw [List.map_cons, String.join_cons, String.toList_append, inductionHypothesis,
        String.toList_append, List.flatMap_cons, List.flatMap_append, ← Step.toList_render]
      rfl

/-! ### From lines back to steps -/

open Text (marked marked_inj append_cons_inj_of_notMem)

theorem head?_flatMap_rows_ne (steps : List Step) (depth : Nat) (setting : String × String) :
    (steps.flatMap Step.rows).head? ≠ some (Step.conditionalRow depth setting) := by
  intro starts
  cases steps with
  | nil => cases starts
  | cons step rest =>
      cases step with
      | enter | command | leave =>
          have mark := (marked_inj (by decide) (by decide) (Option.some.inj starts)).2.1
          exact absurd mark (by decide)

private theorem conditionalRow_inj {depth level : Nat} {setting other : String × String}
    (equalsFree : '=' ∉ setting.1.toList) (otherEqualsFree : '=' ∉ other.1.toList)
    (same : Step.conditionalRow depth setting = Step.conditionalRow level other) :
    setting = other := by
  obtain ⟨-, -, sameBehind⟩ := marked_inj (by decide) (by decide) same
  obtain ⟨sameKey, sameValue⟩ :=
    append_cons_inj_of_notMem equalsFree otherEqualsFree (List.cons.inj sameBehind).2
  have sameText := (List.cons.inj sameValue).2
  rw [String.toList_inj] at sameKey sameText
  exact Prod.ext sameKey sameText

private theorem settings_inj {depth : Nat} {settings others : List (String × String)}
    {rest more : List Step} (equalsFree : ∀ setting ∈ settings, '=' ∉ setting.1.toList)
    (otherEqualsFree : ∀ setting ∈ others, '=' ∉ setting.1.toList)
    (same : settings.map (Step.conditionalRow depth) ++ rest.flatMap Step.rows =
      others.map (Step.conditionalRow depth) ++ more.flatMap Step.rows) :
    settings = others ∧ rest.flatMap Step.rows = more.flatMap Step.rows := by
  induction settings generalizing others with
  | nil =>
      cases others with
      | nil => exact ⟨rfl, same⟩
      | cons other further =>
          exact absurd (congrArg List.head? same) (head?_flatMap_rows_ne rest depth other)
  | cons setting settings inductionHypothesis =>
      cases others with
      | nil => exact absurd (congrArg List.head? same.symm) (head?_flatMap_rows_ne more depth setting)
      | cons other further =>
          obtain ⟨here, onSettings⟩ := List.forall_mem_cons.mp equalsFree
          obtain ⟨there, onFurther⟩ := List.forall_mem_cons.mp otherEqualsFree
          obtain ⟨sameRow, sameBelow⟩ := List.cons.inj same
          obtain rfl := conditionalRow_inj here there sameRow
          obtain ⟨rfl, sameRest⟩ := inductionHypothesis onSettings onFurther sameBelow
          exact ⟨rfl, sameRest⟩

def Step.shown : Step → Step
  | enter target depth conditionals => enter target depth conditionals
  | command _ depth text => command "" depth text
  | leave target depth => leave target depth

/-- The lines of a first step and of what comes behind it are told from one another. -/
theorem rows_inj {step other : Step} {rest more : List Step} (plain : step.IsPlain)
    (otherPlain : other.IsPlain)
    (same : step.rows ++ rest.flatMap Step.rows = other.rows ++ more.flatMap Step.rows) :
    step.shown = other.shown ∧ rest.flatMap Step.rows = more.flatMap Step.rows := by
  cases step with
  | enter target depth conditionals =>
      cases other with
      | enter name level others =>
          obtain ⟨sameRow, sameBelow⟩ := List.cons.inj same
          obtain ⟨sameIndent, -, sameText⟩ := marked_inj (by decide) (by decide) sameRow
          obtain rfl : depth = level := by omega
          obtain rfl := String.toList_inj.mp (List.append_cancel_left sameText)
          obtain ⟨rfl, sameRest⟩ := settings_inj (fun setting member => (plain.2 setting member).2.1)
            (fun setting member => (otherPlain.2 setting member).2.1) sameBelow
          exact ⟨rfl, sameRest⟩
      | command | leave =>
          have mark := (marked_inj (by decide) (by decide) (List.cons.inj same).1).2.1
          exact absurd mark (by decide)
  | command target depth text =>
      cases other with
      | command name level words =>
          obtain ⟨sameRow, sameRest⟩ := List.cons.inj same
          obtain ⟨sameIndent, -, sameText⟩ := marked_inj (by decide) (by decide) sameRow
          obtain rfl : depth = level := by omega
          obtain rfl := String.toList_inj.mp (List.cons.inj sameText).2
          exact ⟨rfl, sameRest⟩
      | enter | leave =>
          have mark := (marked_inj (by decide) (by decide) (List.cons.inj same).1).2.1
          exact absurd mark (by decide)
  | leave target depth =>
      cases other with
      | leave name level =>
          obtain ⟨sameRow, sameRest⟩ := List.cons.inj same
          obtain ⟨sameIndent, -, sameText⟩ := marked_inj (by decide) (by decide) sameRow
          obtain rfl : depth = level := by omega
          obtain rfl := String.toList_inj.mp (List.append_cancel_left sameText)
          exact ⟨rfl, sameRest⟩
      | enter | command =>
          have mark := (marked_inj (by decide) (by decide) (List.cons.inj same).1).2.1
          exact absurd mark (by decide)

/-! ### Owners of commands -/

/-- While the targets are under way, the innermost one first, each command belongs to the innermost
one, and it is that one that is left. -/
def IsOwned : List String → List Step → Prop
  | _, [] => True
  | active, .enter target _ _ :: rest => IsOwned (target :: active) rest
  | active, .command target _ _ :: rest => active.head? = some target ∧ IsOwned active rest
  | active, .leave _ _ :: rest => IsOwned active.tail rest

theorem eq_of_rows_eq {active : List String} {steps others : List Step}
    (owned : IsOwned active steps) (otherOwned : IsOwned active others)
    (plain : ∀ step ∈ steps, step.IsPlain) (otherPlain : ∀ step ∈ others, step.IsPlain)
    (same : steps.flatMap Step.rows = others.flatMap Step.rows) : steps = others := by
  have nonempty : ∀ step : Step, step.rows ≠ [] := by
    intro step
    cases step <;> exact List.cons_ne_nil _ _
  induction steps generalizing active others with
  | nil =>
      cases others with
      | nil => rfl
      | cons other more =>
          exact absurd (List.append_eq_nil_iff.mp same.symm).1 (nonempty other)
  | cons step rest inductionHypothesis =>
      cases others with
      | nil => exact absurd (List.append_eq_nil_iff.mp same).1 (nonempty step)
      | cons other more =>
          obtain ⟨here, onRest⟩ := List.forall_mem_cons.mp plain
          obtain ⟨there, onMore⟩ := List.forall_mem_cons.mp otherPlain
          rw [List.flatMap_cons, List.flatMap_cons] at same
          obtain ⟨sameShown, sameRest⟩ := rows_inj here there same
          cases step with
          | enter target depth conditionals =>
              cases other with
              | enter name level settings =>
                  cases sameShown
                  rw [inductionHypothesis owned otherOwned onRest onMore sameRest]
              | command | leave => cases sameShown
          | command target depth text =>
              cases other with
              | command name level words =>
                  cases sameShown
                  obtain ⟨isOwner, ownedRest⟩ := owned
                  obtain ⟨isOther, ownedMore⟩ := otherOwned
                  obtain rfl := Option.some.inj (isOwner.symm.trans isOther)
                  rw [inductionHypothesis ownedRest ownedMore onRest onMore sameRest]
              | enter | leave => cases sameShown
          | leave target depth =>
              cases other with
              | leave name level =>
                  cases sameShown
                  rw [inductionHypothesis owned otherOwned onRest onMore sameRest]
              | enter | command => cases sameShown

/-- Renderings lose nothing of steps whose commands belong to the innermost target. -/
theorem eq_of_render_eq {steps others : Trace} (owned : IsOwned [] steps)
    (otherOwned : IsOwned [] others) (plain : ∀ step ∈ steps, step.IsPlain)
    (otherPlain : ∀ step ∈ others, step.IsPlain)
    (same : steps.render = others.render) : steps = others := by
  have oneLine : ∀ {trace : Trace}, (∀ step ∈ trace, step.IsPlain) →
      ∀ row ∈ trace.flatMap Step.rows, '\n' ∉ row := by
    intro trace plain row member
    obtain ⟨step, isOne, inStep⟩ := List.mem_flatMap.mp member
    exact Step.notMem_of_mem_rows (plain step isOne) inStep
  have sameText := congrArg String.toList same
  rw [Trace.toList_render, Trace.toList_render] at sameText
  have sameRows := Text.eq_of_flatMap_ended (oneLine plain) (oneLine otherPlain) sameText
  exact eq_of_rows_eq owned otherOwned plain otherPlain sameRows

/-- The owner of a command is not in its line. -/
example : Trace.render [.command "a" 1 "cc"] = Trace.render [.command "b" 1 "cc"] := by
  decide

namespace Build

variable {database : Database}

private theorem isOwned_of_legal {visits : List OpenVisit} {steps : List Step}
    (legal : Legal database visits steps) : IsOwned (visits.map OpenVisit.target) steps := by
  induction steps generalizing visits with
  | nil => trivial
  | cons step rest inductionHypothesis =>
      obtain ⟨allowed, onRest⟩ := legal
      have ownedRest := inductionHypothesis onRest
      cases visits with
      | nil => exact absurd allowed id
      | cons top below =>
          obtain ⟨body, -, allowed⟩ := allowed
          cases step with
          | enter target depth conditionals => exact ownedRest
          | command target depth text => exact ⟨congrArg some allowed.1.symm, ownedRest⟩
          | leave target depth => exact ownedRest

private theorem isOwned_request (database : Database) (name : String) :
    IsOwned [] (request database name).steps := by
  by_cases marker : name = waitMarker
  · rw [request, if_pos marker]
    trivial
  · cases found : database.plan.get? name with
    | none =>
        rw [request, if_neg marker, visit_of_unknown found]
        trivial
    | some body =>
        obtain ⟨part, whole, follows⟩ := follows_request marker found
        obtain ⟨legal, -⟩ := follows [.enter name 1 (database.conditionals.entriesFor name)] rfl
        rw [whole, Visit.steps_andThen_of_ok rfl]
        exact isOwned_of_legal legal

/-- A build is told by the rendering of its trace, also one that fails, if nothing in the trace has a
line feed in it and no name of a conditional macro an equals sign. -/
theorem buildInto_eq_of_render_eq (database other : Database) (name another : String) :
    let trace : Trace := (database.buildInto name .empty).1.steps.toList
    let second : Trace := (other.buildInto another .empty).1.steps.toList
    (∀ step ∈ trace, step.IsPlain) → (∀ step ∈ second, step.IsPlain) →
      trace.render = second.render → trace = second := by
  intro trace second plain otherPlain same
  have owned : IsOwned [] trace := by
    rw [show trace = (request database name).steps from steps_buildInto database name .empty]
    exact isOwned_request database name
  have otherOwned : IsOwned [] second := by
    rw [show second = (request other another).steps from steps_buildInto other another .empty]
    exact isOwned_request other another
  exact eq_of_render_eq owned otherOwned plain otherPlain same

theorem buildInto_eq_of_render_eq_failed :
    let plan := Plan.commit .empty ⟨["lib"], ⟨[], ["\tcc $(X)"]⟩⟩
    let another := Plan.commit .empty ⟨["lib"], ⟨[], ["\tcc a"]⟩⟩
    let first : Database := ⟨MacroTable.assign .empty false "X" "a",
      ConditionalTable.assign .empty "all" "a b" " = ", plan.commit (.start ["all"] ["lib", "x"]),
      false⟩
    let second : Database := ⟨.empty, first.conditionals,
      another.commit (.start ["all"] ["lib", "all"]), true⟩
    let trace : Trace := (first.buildInto "all" .empty).1.steps.toList
    let other : Trace := (second.buildInto "all" .empty).1.steps.toList
    trace.render = other.render ∧ trace = other ∧
      (first.buildInto "all" .empty).2 ≠ (second.buildInto "all" .empty).2 := by
  intro plan another first second trace other
  let shown : Trace := [.enter "all" 1 [("a b", " = ")], .enter "lib" 2 [],
    .command "lib" 2 "\tcc a", .leave "lib" 2]
  have built : ((request first "all").steps, (request first "all").result) =
      (shown, .error (.unknownTarget "x" (some "all"))) := by cbv
  have builtToo : ((request second "all").steps, (request second "all").result) =
      (shown, .error (.dependencyCycle ["all", "all"])) := by cbv
  obtain ⟨steps, unknown⟩ := Prod.mk.inj built
  obtain ⟨stepsToo, cycle⟩ := Prod.mk.inj builtToo
  rw [← result_buildInto _ _ .empty] at unknown cycle
  have isTrace : trace = shown := (steps_buildInto first "all" .empty).trans steps
  have isOther : other = shown := (steps_buildInto second "all" .empty).trans stepsToo
  have same : trace.render = other.render := by rw [isTrace, isOther]
  have plain : ∀ step ∈ shown, step.IsPlain := by decide
  have ofTrace : ∀ step ∈ trace, step.IsPlain := isTrace ▸ plain
  have ofOther : ∀ step ∈ other, step.IsPlain := isOther ▸ plain
  refine ⟨same, ?_, ?_⟩
  · exact buildInto_eq_of_render_eq first second "all" "all" ofTrace ofOther same
  · rw [unknown, cycle]
    intro impossible
    cases impossible

end Build

end DryMake
