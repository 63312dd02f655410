import DryMake.Proofs.Reading.Agreement
import DryMake.Proofs.Reading.Grouping
import DryMake.Proofs.Reading.Merge

/-!
Files cut in two. A definition that is open where a file is cut joins the plan at the end of the
first part, and not, as in the whole file, only when the next one begins. Nothing that stands in
between sees the plan, and it sees nothing of what does; so the parts, read one after the other, come
to what the whole comes to, if no rule of the second part belongs to that definition.
-/

namespace DryMake

namespace Effect

variable {Value Result : Type}

/-- On another plan the effect does the same, and the plan stays as it is. -/
def IgnoresPlan (effect : Effect Value) : Prop :=
  ∀ (database : Database) (plan : Plan),
    effect { database with plan } = ((effect database).1, { (effect database).2 with plan })

private theorem ignoresPlan_pure (value : Value) : IgnoresPlan (pure value) :=
  fun _ _ => rfl

private theorem IgnoresPlan.andThen {first : Effect Value} {next : Value → Effect Result}
    (before : IgnoresPlan first) (after : ∀ value, IgnoresPlan (next value)) :
    IgnoresPlan (first.andThen next) := by
  intro database plan
  unfold Effect.andThen
  rw [before database plan]
  cases first database with
  | mk result between =>
      cases result with
      | error failure => rfl
      | ok value => exact after value between plan

private theorem ignoresPlan_ofAssignment (file : Path) {line : LogicalLine}
    (assigns : (Line.ofString line.text).isAssignment = true) :
    IgnoresPlan (ofAssignment file line) := by
  unfold ofAssignment
  refine IgnoresPlan.andThen ?_ fun _ => ignoresPlan_pure ()
  intro database plan
  obtain ⟨action, move⟩ := exists_move none file none line database
  have alike := move.elsewhere file line rfl { database with plan } rfl
  rw [move.ofLine_eq, alike.ofLine_eq]
  cases move with
  | conditional | malformed | append | assign | commentedOut => rfl
  | @unexpanded _ closes => cases closes <;> rfl
  | @idle kind shape idle =>
      rw [shape] at assigns
      cases kind <;> cases idle <;> cases assigns
  | rule shape | strayRule shape | inclusion shape | definition shape =>
      rw [shape] at assigns
      cases assigns

section

variable {effect : Effect Value} (ignores : IgnoresPlan effect)

include ignores

private theorem IgnoresPlan.plan_eq (database : Database) :
    (effect database).2.plan = database.plan :=
  congrArg (fun outcome : Except ReadError Value × Database => outcome.2.plan)
    (ignores database database.plan)

private theorem IgnoresPlan.closed (database : Database) (open? : Option Definition) :
    effect (database.closed open?) =
      ((effect database).1, (effect database).2.closed open?) := by
  unfold Database.closed
  rw [ignores.plan_eq]
  exact ignores database _

/-- It is all one whether something open is closed before the effect or after it. -/
theorem IgnoresPlan.agree_close (open? : Option Definition) (next : Value → Effect Result) :
    Agree (effect.andThen fun value => (close open?).andThen fun _ => next value)
      ((close open?).andThen fun _ => effect.andThen next) := by
  intro database value later
  rw [close_andThen]
  unfold Effect.andThen
  rw [ignores.closed]
  cases effect database with
  | mk result between =>
      cases result with
      | ok middle => exact Iff.rfl
      | error failure => constructor <;> nofun

end

variable {base? : Option Path} {included : Location → Path → Effect Unit} {file : Path}

theorem ofLine_of_closes {line : LogicalLine}
    (closes : (Line.ofString line.text).isDefinition = true ∨
      (Line.ofString line.text).isInclusion = true) (open? : Option Definition) :
    ofLine base? included file open? line =
      (close open?).andThen fun _ => ofLine base? included file none line := by
  funext database
  cases shape : Line.ofString line.text with
  | inclusion operand =>
      simp only [ofLine, shape, close_andThen]
      rfl
  | definition targets deps =>
      simp only [ofLine, shape, close_andThen]
      rfl
  | _ =>
      rw [shape] at closes
      rcases closes with closes | closes <;> cases closes

theorem agree_ofLines_of_noRules {lines : List LogicalLine} (noRules : rulesBelow lines = [])
    (open? : Option Definition) :
    Agree (ofLines base? included file open? lines)
      ((close open?).andThen fun _ => ofLines base? included file none lines) := by
  induction lines with
  | nil => exact agree_refl _
  | cons line rest inductionHypothesis =>
      rw [rulesBelow] at noRules
      cases shape : Line.ofString line.text with
      | rule command =>
          rw [shape] at noRules
          cases noRules
      | inclusion operand | definition targets deps =>
          rw [ofLines, ofLine_of_closes (by simp [shape, Line.isDefinition, Line.isInclusion]),
            andThen_assoc]
          exact agree_refl _
      | blank | comment | unknown =>
          rw [shape] at noRules
          have idle : (Line.ofString line.text).isIdle = true := by
            rw [shape]
            rfl
          rw [ofLines_cons_of_isIdle idle, ofLines_cons_of_isIdle idle]
          exact inductionHypothesis noRules
      | conditional _ _ | append _ _ | assign _ _ =>
          rw [shape] at noRules
          have assigns : (Line.ofString line.text).isAssignment = true := by
            rw [shape]
            rfl
          have later := inductionHypothesis noRules
          rw [ofLines_cons_of_isAssignment assigns, ofLines_cons_of_isAssignment assigns]
          apply ((agree_refl _).andThen fun _ => later).trans
          exact (ignoresPlan_ofAssignment file assigns).agree_close open? _

/-- Lines are read as their parts are, one after the other. -/
theorem agree_ofLines_append {after : List LogicalLine} (noRules : rulesBelow after = [])
    (before : List LogicalLine) (open? : Option Definition) :
    Agree (ofLines base? included file open? (before ++ after))
      ((ofLines base? included file open? before).andThen fun _ =>
        ofLines base? included file none after) := by
  induction before generalizing open? with
  | nil => exact agree_ofLines_of_noRules noRules open?
  | cons line rest inductionHypothesis =>
      rw [List.cons_append, ofLines, ofLines, andThen_assoc]
      exact (agree_refl _).andThen inductionHypothesis

end Effect

namespace Reader

private theorem agree_ofPhysical_append (reader : Reader) (chain : List Path) (file other : Path)
    {before after : List String} (whole : LogicalLine.EndsWhole before)
    (noRules : rulesBelow (LogicalLine.ofPhysical after) = []) :
    Effect.Agree
      (.ofLines reader.base? (reader.included chain) file none
        (LogicalLine.ofPhysical (before ++ after)))
      ((Effect.ofLines reader.base? (reader.included chain) file none
        (LogicalLine.ofPhysical before)).andThen fun _ =>
          .ofLines reader.base? (reader.included chain) other none
            (LogicalLine.ofPhysical after)) := by
  have sameTexts : (LogicalLine.ofPhysical (before ++ after)).map LogicalLine.text =
      (LogicalLine.ofPhysical before ++ LogicalLine.ofPhysical after).map LogicalLine.text := by
    rw [List.map_append]
    exact LogicalLine.texts_append whole after
  have places := reader.agree_included chain
  apply (Effect.agree_ofLines (places · · ·) file file none sameTexts).trans
  apply (Effect.agree_ofLines_append noRules (LogicalLine.ofPhysical before) none).trans
  apply (Effect.agree_refl _).andThen
  intro _
  exact Effect.agree_ofLines (places · · ·) file other none rfl

/-- A file can be cut in two above a definition or an inclusion, or above lines that lead to one
without a rule on the way. The whole is read to its end just if the first part and then the second
are, whatever the second part is called, and then the databases that they leave are the same. -/
theorem readPhysicalLines_append (reader : Reader) (chain : List Path) (file other : Path)
    {before after : List String} (whole : LogicalLine.EndsWhole before)
    (noRules : rulesBelow (LogicalLine.ofPhysical after) = []) (workspace : Workspace) :
    let read := reader.readPhysicalLines (reader.readIncluded chain)
    let all := (read file (before ++ after)).run workspace
    let first := (read file before).run workspace
    let second := (read other after).run first.2
    (all.1 = .ok () ↔ first.1 = .ok () ∧ second.1 = .ok ()) ∧
      (all.1 = .ok () → all.2.database = second.2.database) := by
  intro read all first second
  have allEffect : (all.1, all.2.database) = _ :=
    reader.does_readPhysicalLines chain file (before ++ after) workspace
  have firstEffect : (first.1, first.2.database) = _ :=
    reader.does_readPhysicalLines chain file before workspace
  have secondEffect : (second.1, second.2.database) = _ :=
    reader.does_readPhysicalLines chain other after first.2
  have agree := reader.agree_ofPhysical_append chain file other whole noRules workspace.database ()
  have finishes : ∀ later, (all.1, all.2.database) = (.ok (), later) ↔
      first.1 = .ok () ∧ (second.1, second.2.database) = (.ok (), later) := by
    intro later
    rw [allEffect, agree, Effect.andThen_eq_ok_iff, ← firstEffect, secondEffect]
    constructor
    · intro parts
      obtain ⟨_, between, inFirst, inSecond⟩ := parts
      obtain ⟨succeeded, rfl⟩ := Prod.mk.inj inFirst
      exact ⟨succeeded, inSecond⟩
    · intro parts
      obtain ⟨succeeded, inSecond⟩ := parts
      exact ⟨(), first.2.database, Prod.ext succeeded rfl, inSecond⟩
  constructor
  · constructor
    · intro succeeded
      obtain ⟨inFirst, inSecond⟩ := (finishes _).mp (Prod.ext succeeded rfl)
      exact ⟨inFirst, congrArg Prod.fst inSecond⟩
    · intro parts
      exact congrArg Prod.fst ((finishes _).mpr ⟨parts.1, Prod.ext parts.2 rfl⟩)
  · intro succeeded
    obtain ⟨_, inSecond⟩ := (finishes _).mp (Prod.ext succeeded rfl)
    exact (congrArg Prod.snd inSecond).symm

theorem readPhysicalLines_append_open :
    let files : FileSystem := .ofLookup fun path =>
      if path.text = "b.mk" then some (.text "all: $(X)\n\ttwo\n") else none
    let reader : Reader := ⟨files, none⟩
    let read := reader.readPhysicalLines (reader.readIncluded [])
    let before := ["all: $(X)", "\tone \\", "\t$(X)"]
    let after := ["X = b", "", "include $(X).mk", "all: c"]
    let all := (read ⟨"Makefile"⟩ (before ++ after)).run (.empty false)
    let first := (read ⟨"Makefile"⟩ before).run (.empty false)
    let second := (read ⟨"rest.mk"⟩ after).run first.2
    LogicalLine.EndsWhole before ∧ rulesBelow (LogicalLine.ofPhysical after) = [] ∧
      all.1 = .ok () ∧ second.1 = .ok () ∧ all.2.database = second.2.database ∧
      first.2.database.plan.get? "all" = some ⟨[], ["one $(X)"]⟩ ∧
      second.2.database.plan.get? "all" = some ⟨["b", "c"], ["one $(X)", "two"]⟩ := by
  intro files reader read before after all first second
  have whole : LogicalLine.EndsWhole before := by
    intro last isLast
    cases isLast
    cbv
  have noRules : rulesBelow (LogicalLine.ofPhysical after) = [] := by
    subst after
    decide +kernel
  obtain ⟨finishes, same⟩ := readPhysicalLines_append reader [] ⟨"Makefile"⟩ ⟨"rest.mk"⟩ whole
    noRules (.empty false)
  have computed : (all.1, first.2.database.plan.get? "all", all.2.database.plan.get? "all") =
      (.ok (), some ⟨[], ["one $(X)"]⟩, some ⟨["b", "c"], ["one $(X)", "two"]⟩) := by
    subst all first read after before reader files
    cbv
  simp only [Prod.mk.injEq] at computed
  obtain ⟨ended, target, merged⟩ := computed
  rw [same ended] at merged
  exact ⟨whole, noRules, ended, (finishes.mp ended).2, same ended, target, merged⟩

end Reader

end DryMake
