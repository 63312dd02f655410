import DryMake.Proofs.Reading.Agreement
import DryMake.Proofs.Reading.Grouping
import DryMake.Proofs.Reading.Merge

/-!
Lines that do not define targets. A line of no effect can be left out, and a rule can go before an
assignment that stands above it: an assignment does not see what is open, and a rule is kept as it
is written and sees no macro. So the rules of a file can be brought together, each directly below
its definition or another of its rules, and the file is read as before.
-/

namespace DryMake

/-- A line of no effect is left out, or a rule goes before the assignment above it. -/
inductive Rearranges : List String → List String → Prop where
  | leaveOut (before : List String) {line : String} (idle : (Line.ofString line).isIdle = true)
      (after : List String) : Rearranges (before ++ line :: after) (before ++ after)
  | raise (before : List String) {assignment rule : String}
      (assigns : (Line.ofString assignment).isAssignment = true)
      (isRule : (Line.ofString rule).isRule = true) (after : List String) :
      Rearranges (before ++ assignment :: rule :: after) (before ++ rule :: assignment :: after)

abbrev Rearranged : List String → List String → Prop :=
  Relation.ReflTransGen Rearranges

private theorem Rearranges.cons {lines others : List String} (step : Rearranges lines others)
    (line : String) : Rearranges (line :: lines) (line :: others) := by
  cases step with
  | leaveOut before idle after => exact .leaveOut (line :: before) idle after
  | raise before assigns isRule after => exact .raise (line :: before) assigns isRule after

private theorem rearranged_cons {lines others : List String} (steps : Rearranged lines others)
    (line : String) : Rearranged (line :: lines) (line :: others) :=
  steps.lift (line :: ·) fun _ _ step => step.cons line

private theorem Rearranges.subset {lines others : List String} (step : Rearranges lines others) :
    others ⊆ lines := by
  intro line member
  cases step with
  | leaveOut before idle after =>
      rcases List.mem_append.mp member with above | below
      · exact List.mem_append_left _ above
      · exact List.mem_append_right _ (List.mem_cons_of_mem _ below)
  | raise before assigns isRule after =>
      rw [List.mem_append, List.mem_cons, List.mem_cons] at member ⊢
      rwa [or_left_comm (a := line = _) (b := line = _)]

private theorem subset_of_rearranged {lines others : List String}
    (steps : Rearranged lines others) :
    others ⊆ lines := by
  induction steps with
  | refl => exact List.Subset.refl lines
  | tail _ step inductionHypothesis => exact List.Subset.trans step.subset inductionHypothesis

namespace Effect

variable {base? : Option Path} {included : Location → Path → Effect Unit} {file : Path}

section

variable {line : LogicalLine} {command : String}
  (shape : Line.ofString line.text = .rule command) (rest : List LogicalLine)

include shape

private theorem ofLines_cons_of_rule (definition : Definition) :
    ofLines base? included file (some definition) (line :: rest) =
      ofLines base? included file (some (definition.addRule command)) rest := by
  simp only [ofLines, ofLine, shape, pure_andThen]

private theorem ofLines_cons_of_rule_outside :
    ofLines base? included file none (line :: rest) =
      fail (.ruleOutsideTarget ⟨file, line.number⟩ command) := by
  simp only [ofLines, ofLine, shape]
  rfl

end

/-- A rule is kept without a look at the macros, and so does not miss the assignment above it. -/
theorem agree_ofLines_raise {assignment rule : LogicalLine}
    (assigns : (Line.ofString assignment.text).isAssignment = true)
    (isRule : (Line.ofString rule.text).isRule = true) (after : List LogicalLine)
    (open? : Option Definition) :
    Agree (ofLines base? included file open? (assignment :: rule :: after))
      (ofLines base? included file open? (rule :: assignment :: after)) := by
  obtain ⟨command, shape⟩ := Line.exists_eq_rule isRule
  rw [ofLines_cons_of_isAssignment assigns]
  cases open? with
  | none =>
      rw [ofLines_cons_of_rule_outside shape, ofLines_cons_of_rule_outside shape]
      exact agree_andThen_fail _ _ _
  | some definition =>
      rw [ofLines_cons_of_rule shape, ofLines_cons_of_rule shape,
        ofLines_cons_of_isAssignment assigns]
      exact agree_refl _

/-- Lines as they are read when nothing is told of where they stand. -/
def ofTexts (base? : Option Path) (included : Location → Path → Effect Unit) (file : Path)
    (open? : Option Definition) (texts : List String) : Effect Unit :=
  ofLines base? included file open? (texts.map (LogicalLine.mk 0))

private theorem agree_of_rearranges {lines others : List String} (step : Rearranges lines others)
    (open? : Option Definition) :
    Agree (ofTexts base? included file open? lines) (ofTexts base? included file open? others) := by
  cases step with
  | @leaveOut before line idle after =>
      have idleLine : (Line.ofString (LogicalLine.mk 0 line).text).isIdle = true := idle
      unfold ofTexts
      rw [List.map_append, List.map_append, List.map_cons]
      apply Agree.ofLines_append
      intro open?
      rw [ofLines_cons_of_isIdle idleLine]
      exact agree_refl _
  | @raise before assignment rule assigns isRule after =>
      have assignsLine : (Line.ofString (LogicalLine.mk 0 assignment).text).isAssignment = true :=
        assigns
      have isRuleLine : (Line.ofString (LogicalLine.mk 0 rule).text).isRule = true := isRule
      unfold ofTexts
      rw [List.map_append, List.map_append, List.map_cons, List.map_cons, List.map_cons,
        List.map_cons]
      apply Agree.ofLines_append
      exact agree_ofLines_raise assignsLine isRuleLine _

private theorem agree_of_rearranged {lines others : List String} (steps : Rearranged lines others)
    (open? : Option Definition) :
    Agree (ofTexts base? included file open? lines) (ofTexts base? included file open? others) := by
  induction steps with
  | refl => exact agree_refl _
  | tail _ step inductionHypothesis =>
      exact inductionHypothesis.trans (agree_of_rearranges step open?)

end Effect

def sink (assignment : String) : List String → List String
  | [] => [assignment]
  | line :: rest =>
      if (Line.ofString line).isRule then line :: sink assignment rest
      else assignment :: line :: rest

/-- The lines that do something, with each assignment below the rules that follow it. -/
def gather : List String → List String
  | [] => []
  | line :: rest =>
      if (Line.ofString line).isIdle then gather rest
      else if (Line.ofString line).isAssignment then sink line (gather rest)
      else line :: gather rest

private theorem rearranged_sink {assignment : String}
    (assigns : (Line.ofString assignment).isAssignment = true) (lines : List String) :
    Rearranged (assignment :: lines) (sink assignment lines) := by
  induction lines with
  | nil => exact .refl
  | cons line rest inductionHypothesis =>
      rw [sink]
      split
      · rename_i isRule
        exact .head (.raise [] assigns isRule rest) (rearranged_cons inductionHypothesis line)
      · exact .refl

private theorem rearranged_gather (lines : List String) : Rearranged lines (gather lines) := by
  induction lines with
  | nil => exact .refl
  | cons line rest inductionHypothesis =>
      rw [gather]
      split
      · rename_i idle
        exact .head (.leaveOut [] idle rest) inductionHypothesis
      · split
        · rename_i assigns
          exact (rearranged_cons inductionHypothesis line).trans (rearranged_sink assigns _)
        · exact rearranged_cons inductionHypothesis line

private theorem perm_sink (assignment : String) (lines : List String) :
    (sink assignment lines).Perm (assignment :: lines) := by
  induction lines with
  | nil => exact .refl _
  | cons line rest inductionHypothesis =>
      rw [sink]
      split
      · exact (inductionHypothesis.cons line).trans (.swap assignment line rest)
      · exact .refl _

private theorem perm_gather (lines : List String) :
    (gather lines).Perm (lines.filter fun line => !(Line.ofString line).isIdle) := by
  induction lines with
  | nil => exact .refl _
  | cons line rest inductionHypothesis =>
      rw [gather, List.filter_cons]
      cases idle : (Line.ofString line).isIdle with
      | true => exact inductionHypothesis
      | false =>
          rw [if_neg Bool.false_ne_true, Bool.not_false, if_pos rfl]
          split
          · exact (perm_sink line _).trans (inductionHypothesis.cons line)
          · exact inductionHypothesis.cons line

def Sunk (lines : List String) : Prop :=
  lines.IsChain fun above line =>
    (Line.ofString line).isRule = true → (Line.ofString above).isAssignment = false

private theorem sunk_sink (assignment : String) {lines : List String} (sunk : Sunk lines) :
    Sunk (sink assignment lines) := by
  induction lines with
  | nil => exact List.isChain_singleton _
  | cons line rest inductionHypothesis =>
      have below := (List.isChain_cons.mp sunk).2
      rw [sink]
      split
      · rename_i isRule
        obtain ⟨command, shape⟩ := Line.exists_eq_rule isRule
        apply List.isChain_cons.mpr
        refine ⟨fun next _ _ => ?_, inductionHypothesis below⟩
        rw [shape]
        rfl
      · rename_i noRule
        apply List.isChain_cons.mpr
        refine ⟨?_, sunk⟩
        rintro next ⟨rfl⟩ isRule
        exact absurd isRule noRule

private theorem sunk_gather (lines : List String) : Sunk (gather lines) := by
  induction lines with
  | nil => exact List.isChain_nil
  | cons line rest inductionHypothesis =>
      rw [gather]
      split
      · exact inductionHypothesis
      · split
        · exact sunk_sink line inductionHypothesis
        · rename_i noAssignment
          apply List.isChain_cons.mpr
          refine ⟨fun next _ _ => ?_, inductionHypothesis⟩
          exact Bool.eq_false_iff.mpr noAssignment

/-! ### Which lines rules stand below -/

namespace Effect

variable {base? : Option Path} {included : Location → Path → Effect Unit} {file : Path}

theorem isChain_of_finished {lines : List LogicalLine} {open? : Option Definition}
    {database later : Database}
    (finished : ofLines base? included file open? lines database = (.ok (), later)) :
    (∀ line ∈ lines.head?, (Line.ofString line.text).isRule = true → open?.isSome = true) ∧
      lines.IsChain fun above line =>
        (Line.ofString line.text).isRule = true → (Line.ofString above.text).isInclusion = false := by
  induction lines generalizing open? database with
  | nil => exact ⟨nofun, List.isChain_nil⟩
  | cons line rest inductionHypothesis =>
      obtain ⟨next, between, here, further⟩ := andThen_eq_ok_iff.mp finished
      obtain ⟨atNext, onRest⟩ := inductionHypothesis further
      have effect := plan_of_ofLine here
      refine ⟨?_, List.isChain_cons.mpr ⟨fun below isBelow isRule => ?_, onRest⟩⟩
      · intro _ isLine isRule
        cases isLine
        obtain ⟨command, shape⟩ := Line.exists_eq_rule isRule
        cases open? with
        | none =>
            rw [ofLines_cons_of_rule_outside shape] at finished
            cases finished
        | some definition => rfl
      · cases shape : Line.ofString line.text with
        | inclusion operand =>
            rw [shape] at effect
            obtain ⟨_, _, rfl, _⟩ := effect
            cases atNext below isBelow isRule
        | _ => rfl

end Effect

/-- Each rule stands directly below its definition or below another of its rules. -/
def RulesTogether (lines : List String) : Prop :=
  (∀ line ∈ lines.head?, (Line.ofString line).isRule = false) ∧
    lines.IsChain fun above line => (Line.ofString line).isRule = true →
      (Line.ofString above).isDefinition = true ∨ (Line.ofString above).isRule = true

private theorem not_isIdle_of_mem_gather {lines : List String} {line : String}
    (member : line ∈ gather lines) : (Line.ofString line).isIdle = false := by
  have kept := (perm_gather lines).mem_iff.mp member
  simpa using (List.mem_filter.mp kept).2

/-- Where no rule is read without a definition, none is left below anything else. -/
theorem rulesTogether_gather {base? : Option Path} {included : Location → Path → Effect Unit}
    {file : Path} {lines : List String} {database later : Database}
    (finished : Effect.ofTexts base? included file none (gather lines) database = (.ok (), later)) :
    RulesTogether (gather lines) := by
  obtain ⟨atStart, belowNoInclusion⟩ := Effect.isChain_of_finished finished
  rw [List.isChain_map] at belowNoInclusion
  constructor
  · intro line isFirst
    apply Bool.eq_false_iff.mpr
    intro isRule
    have first : LogicalLine.mk 0 line ∈ ((gather lines).map (LogicalLine.mk 0)).head? := by
      rw [List.head?_map, isFirst]
      rfl
    cases atStart _ first isRule
  · apply List.isChain_iff_forall_rel_of_append_cons_cons.mpr
    intro above line before after cut isRule
    have noAssignment := List.isChain_iff_forall_rel_of_append_cons_cons.mp (sunk_gather lines) cut
      isRule
    have noInclusion :=
      List.isChain_iff_forall_rel_of_append_cons_cons.mp belowNoInclusion cut isRule
    have member : above ∈ gather lines := by
      rw [cut]
      exact List.mem_append_right _ List.mem_cons_self
    have notIdle := not_isIdle_of_mem_gather member
    cases shape : Line.ofString above with
    | definition targets deps => exact Or.inl rfl
    | rule command => exact Or.inr rfl
    | blank | comment | unknown =>
        rw [shape] at notIdle
        cases notIdle
    | conditional targets assignment =>
        rw [shape] at noAssignment
        cases noAssignment
    | append name value | assign name value =>
        rw [shape] at noAssignment
        cases noAssignment
    | inclusion operand =>
        rw [shape] at noInclusion
        cases noInclusion

private theorem LogicalLine.texts_of_single {lines : List String}
    (single : ∀ line ∈ lines, continued? line = none) : texts lines = lines := by
  induction lines with
  | nil => rfl
  | cons line rest inductionHypothesis =>
      obtain ⟨here, inRest⟩ := List.forall_mem_cons.mp single
      have alone : texts [line] = [line] := by
        simp [texts, ofPhysical, join, here]
      have whole : EndsWhole [line] := by
        intro last isLast
        cases isLast
        exact here
      have cut : texts ([line] ++ rest) = texts [line] ++ texts rest := texts_append whole rest
      rw [List.singleton_append, alone, inductionHypothesis inRest] at cut
      exact cut

namespace Reader

private theorem agree_ofPhysical (reader : Reader) (chain : List Path) (file : Path)
    {lines : List String} (single : ∀ line ∈ lines, LogicalLine.continued? line = none) :
    Effect.Agree
      (.ofLines reader.base? (reader.included chain) file none (LogicalLine.ofPhysical lines))
      (.ofTexts reader.base? (reader.included chain) file none lines) := by
  apply Effect.agree_ofLines (reader.agree_included chain · · ·)
  have same : (LogicalLine.ofPhysical lines).map LogicalLine.text = lines :=
    LogicalLine.texts_of_single single
  rw [same, List.map_map]
  exact (List.map_id lines).symm

/-- Lines of no effect can be left out of a file, and its rules can go before the assignments above
them, any number of times: if the file is read to its end, then so are the changed lines, and they
leave the same database, whatever is included on the way. Thus all that has an effect can stay, and
each rule come to stand directly below its definition or below another of its rules. -/
theorem readPhysicalLines_of_rearranged (reader : Reader) (chain : List Path) (file : Path)
    {lines : List String} (single : ∀ line ∈ lines, LogicalLine.continued? line = none)
    {workspace later : Workspace}
    (finished : (reader.readPhysicalLines (reader.readIncluded chain) file lines).run workspace =
      (.ok (), later)) :
    let read := reader.readPhysicalLines (reader.readIncluded chain) file
    (∀ others, Rearranged lines others →
      ((read others).run workspace).1 = .ok () ∧
        ((read others).run workspace).2.database = later.database) ∧
    ∃ gathered, Rearranged lines gathered ∧ RulesTogether gathered ∧
      gathered.Perm (lines.filter fun line => !(Line.ofString line).isIdle) := by
  intro read
  have effect := reader.does_readPhysicalLines chain file lines workspace
  rw [finished] at effect
  have finishedTexts := (reader.agree_ofPhysical chain file single _ _ _).mp effect.symm
  have changed : ∀ others, Rearranged lines others →
      Effect.ofTexts reader.base? (reader.included chain) file none others workspace.database =
        (.ok (), later.database) := by
    intro others steps
    exact (Effect.agree_of_rearranged steps none _ _ _).mp finishedTexts
  constructor
  · intro others steps
    have singleToo : ∀ line ∈ others, LogicalLine.continued? line = none := fun line member =>
      single line (subset_of_rearranged steps member)
    have ended := reader.does_readPhysicalLines chain file others workspace
    rw [(reader.agree_ofPhysical chain file singleToo _ _ _).mpr (changed others steps)] at ended
    exact Prod.mk.inj ended
  · have gathers := rearranged_gather lines
    exact ⟨gather lines, gathers, rulesTogether_gather (changed _ gathers), perm_gather lines⟩

theorem readPhysicalLines_of_rearranged_spread :
    let files : FileSystem := .ofLookup fun path =>
      if path.text = "b.mk" then some (.text "b: c\n\tthree \\\n\tfour\n") else none
    let reader : Reader := ⟨files, none⟩
    let read := reader.readPhysicalLines (reader.readIncluded []) ⟨"Makefile"⟩
    let lines := ["all: $(X)", "# two rules", "X = b", "\tone $(X)", "all := X = c", "", "\ttwo",
      "include $(X).mk"]
    let others := ["all: $(X)", "\tone $(X)", "\ttwo", "X = b", "all := X = c", "include $(X).mk"]
    let database := ((read lines).run (.empty false)).2.database
    ((read lines).run (.empty false)).1 = .ok () ∧ Rearranged lines others ∧
      ((read others).run (.empty false)).2.database = database ∧
      database.plan.get? "all" = some ⟨[], ["one $(X)", "two"]⟩ := by
  intro files reader read lines others database
  have computed : (((read lines).run (.empty false)).1, database.plan.get? "all") =
      (.ok (), some ⟨[], ["one $(X)", "two"]⟩) := by
    subst database read reader lines files
    cbv
  obtain ⟨ended, target⟩ := Prod.mk.inj computed
  have single : ∀ line ∈ lines, LogicalLine.continued? line = none := by
    subst lines
    decide +kernel
  have steps : Rearranged lines others := by
    have gathered : gather lines = others := by
      subst lines others
      decide +kernel
    rw [← gathered]
    exact rearranged_gather lines
  have alike := (readPhysicalLines_of_rearranged reader [] ⟨"Makefile"⟩ single
    (Prod.ext ended rfl)).1 others steps
  exact ⟨ended, steps, alike.2, target⟩

end Reader

end DryMake
