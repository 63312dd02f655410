import DryMake.Proofs.Build.Correspondence
import DryMake.Proofs.Database.ReadBack
import DryMake.Proofs.Expansion.Grammar

/-!
Commands that are written down by escaping: each backslash and each dollar sign is written twice. What
is written so is one token for each character, and none of them refers to a macro; and a line of it
goes on in the next one just when the command would.
-/

namespace DryMake

namespace Expansion

def escapeChar (c : Char) : List Char :=
  if c = '\\' ∨ c = '$' then [c, c] else [c]

def escape (text : String) : String :=
  String.ofList (text.toList.flatMap escapeChar)

def Token.ofChar (c : Char) : Token :=
  if c = '\\' then .escaped '\\' else if c = '$' then .dollar else .plain c

private theorem toList_escape (text : String) :
    (escape text).toList = text.toList.flatMap escapeChar :=
  String.toList_ofList

private theorem lexeme_ofChar (c : Char) : (Token.ofChar c).lexeme = escapeChar c := by
  unfold Token.ofChar escapeChar
  by_cases backslash : c = '\\'
  · rw [if_pos backslash, if_pos (Or.inl backslash), backslash]
    rfl
  · by_cases dollar : c = '$'
    · rw [if_neg backslash, if_pos dollar, if_pos (Or.inr dollar), dollar]
      rfl
    · rw [if_neg backslash, if_neg dollar, if_neg (not_or.mpr ⟨backslash, dollar⟩)]
      rfl

private theorem isWellFormed_ofChar (c : Char) : (Token.ofChar c).IsWellFormed := by
  unfold Token.ofChar
  split
  · trivial
  · rename_i notBackslash
    split
    · trivial
    · rename_i notDollar
      exact ⟨notBackslash, notDollar⟩

private theorem Bindings.replace_ofChar (bindings : Bindings) (active : List Reference) (c : Char) :
    bindings.replace active (.ofChar c) = .text (String.ofList [c]) := by
  unfold Token.ofChar
  split
  · rename_i backslash
    rw [backslash]
    rfl
  · split
    · rename_i dollar
      rw [dollar]
      rfl
    · rfl

/-- Whatever the macros are, and whichever are open, an escaped text stands for the text. -/
theorem evaluateRest_flatMap_escapeChar (bindings : Bindings) (path : List Reference)
    (text : String) (plain : List Char) :
    bindings.evaluateRest path text (plain.flatMap escapeChar) = .ok (String.ofList plain) := by
  induction plain with
  | nil => exact evaluateRest_of_finished rfl
  | cons c rest inductionHypothesis =>
      have scanned := scan_lexeme_append (isWellFormed_ofChar c) (rest.flatMap escapeChar)
      rw [lexeme_ofChar] at scanned
      rw [List.flatMap_cons, evaluateRest_of_text scanned (bindings.replace_ofChar path c),
        inductionHypothesis]
      exact congrArg Except.ok String.ofList_append.symm

private theorem Bindings.expand_escape (bindings : Bindings) (text : String) :
    bindings.expand (escape text) = .ok text := by
  rw [expand_eq_evaluateRest, toList_escape, evaluateRest_flatMap_escapeChar, String.ofList_toList]

private theorem mem_flatMap_escapeChar_iff {c : Char} {plain : List Char} :
    c ∈ plain.flatMap escapeChar ↔ c ∈ plain := by
  have inOne : ∀ other, c ∈ escapeChar other ↔ other = c := by
    intro other
    unfold escapeChar
    split <;> simp [eq_comm]
  simp [List.mem_flatMap, inOne]

private theorem head?_flatMap_escapeChar (plain : List Char) :
    (plain.flatMap escapeChar).head? = plain.head? := by
  cases plain with
  | nil => rfl
  | cons c rest =>
      rw [List.flatMap_cons, escapeChar]
      split <;> rfl

theorem last_flatMap_escapeChar {last : List Char → Option Char}
    (law : ∀ before after, last (before ++ after) = (last after).or (last before))
    (plain : List Char) : last (plain.flatMap escapeChar) = last plain := by
  have twice : ∀ c, last (escapeChar c) = last [c] := by
    intro c
    unfold escapeChar
    split
    · rw [← List.singleton_append, law, Option.or_self]
    · rfl
  induction plain with
  | nil => rfl
  | cons c rest inductionHypothesis =>
      rw [List.flatMap_cons, law, inductionHypothesis, twice, ← law, List.singleton_append]

end Expansion

open Expansion in
theorem IsPlainRule.escape {command : String} (plain : IsPlainRule command) :
    IsPlainRule (escape command) where
  inked := by
    have inked := plain.inked
    rw [Text.allBlank, List.all_eq_false] at inked ⊢
    obtain ⟨c, member, ink⟩ := inked
    exact ⟨c, toList_escape command ▸ mem_flatMap_escapeChar_iff.mpr member, ink⟩
  oneLine := by
    rw [toList_escape, mem_flatMap_escapeChar_iff]
    exact plain.oneLine
  unindented := by
    rw [toList_escape, head?_flatMap_escapeChar]
    exact plain.unindented
  noReturn := by
    rw [toList_escape, last_flatMap_escapeChar fun _ _ => List.getLast?_append]
    exact plain.noReturn
  ends := by
    have sameInk := last_flatMap_escapeChar Text.lastInk?_append command.toList
    rw [Text.lastInk?, ← toList_escape] at sameInk
    rw [sameInk]
    exact plain.ends

namespace Effect

private theorem passes_targetAndRule {target rule : String} (plain : IsPlainName target)
    (plainRule : IsPlainRule rule) (open? : Option Definition) (database : Database) :
    Passes [targetLine target [], ruleLine rule] open? database (some ⟨[target], ⟨[], [rule]⟩⟩)
      (database.closed open?) :=
  (passes_targetLine plain (List.forall_mem_nil _) open? database).append
    (passes_ruleLines (List.forall_mem_singleton.mpr plainRule) _ _)

end Effect

private theorem ended_targetAndRule (target rule : String) :
    Database.ended [targetLine target [], ruleLine rule] = target ++ ":\n\t" ++ rule ++ "\n" := by
  have endOfName : ":" ++ ("\n" ++ "\t") = ":\n\t" := rfl
  simp only [Database.ended, List.map_cons, List.map_nil, String.join_cons, String.join_nil,
    targetLine, ruleLine, depsText, reduceIte, String.append_empty, ← endOfName,
    String.append_assoc]

theorem Reader.readText_targetAndRule {target rule : String} {workspace : Workspace}
    (plain : IsPlainName target) (plainRule : IsPlainRule rule)
    (isNew : workspace.database.plan.get? target = none) (reader : Reader) (file : Path) :
    let outcome := (reader.readText file (target ++ ":\n\t" ++ rule ++ "\n")).run workspace
    outcome.1 = .ok () ∧ outcome.2.database.plan.get? target = some ⟨[], [rule]⟩ ∧
      outcome.2.database.conditionals = workspace.database.conditionals := by
  have alone : ∀ line ∈ [targetLine target [], ruleLine rule], StandsAlone line := by
    intro line member
    rcases List.mem_cons.mp member with rfl | second
    · exact standsAlone_targetLine plain (List.forall_mem_nil _)
    · rw [List.mem_singleton.mp second]
      exact standsAlone_ruleLine plainRule
  have passes := Effect.passes_targetAndRule plain plainRule none workspace.database
  obtain ⟨succeeded, database⟩ := Reader.readText_of_passes alone passes reader file
  rw [← ended_targetAndRule]
  refine ⟨succeeded, ?_, ?_⟩
  · rw [database]
    have committed := Plan.get?_commitName workspace.database.plan target ⟨[], [rule]⟩
    rw [isNew] at committed
    exact committed
  · rw [database]
    rfl

namespace Build

private theorem request_of_rule {database : Database} {target rule command : String}
    (notMarker : target ≠ waitMarker)
    (found : database.plan.get? target = some ⟨[], [rule]⟩)
    (expanded : (database.bindingsFor target).expand rule = .ok command) :
    request database target =
      ⟨[.enter target 1 (database.conditionals.entriesFor target), .command target 1 command,
        .leave target 1], .ok ()⟩ := by
  rw [request, if_neg notMarker, visit_of_found found, visitAround, visitDeps_nil]
  simp only [visitRules, expanded]
  rfl

end Build

/-- An escaped text expands to the text, whatever the macros are. So a rule with an escaped command,
written for a target that is new, runs as just that command. -/
theorem Database.builds_escaped :
    (∀ (bindings : Expansion.Bindings) (text : String),
      bindings.expand (Expansion.escape text) = .ok text) ∧
    ∀ (reader : Reader) (file : Path) (workspace : Workspace) (target command : String),
      IsPlainName target → target ≠ waitMarker → workspace.database.plan.get? target = none →
      IsPlainRule command →
      let written := target ++ ":\n\t" ++ Expansion.escape command ++ "\n"
      let read := (reader.readText file written).run workspace
      let built := read.2.database.buildInto target .empty
      read.1 = .ok () ∧ built.2 = .ok () ∧
        built.1.steps.toList =
          [.enter target 1 (workspace.database.conditionals.entriesFor target),
            .command target 1 command, .leave target 1] ∧
        Trace.commands built.1.steps.toList = [command] := by
  refine ⟨Expansion.Bindings.expand_escape, ?_⟩
  intro reader file workspace target command plain notMarker isNew plainRule written read built
  obtain ⟨succeeded, found, conditionals⟩ :=
    Reader.readText_targetAndRule plain plainRule.escape isNew reader file
  have expanded := (read.2.database.bindingsFor target).expand_escape command
  have request := Build.request_of_rule notMarker found expanded
  have steps : built.1.steps.toList = (Build.request read.2.database target).steps :=
    Build.steps_buildInto read.2.database target .empty
  have result : built.2 = (Build.request read.2.database target).result :=
    Build.result_buildInto read.2.database target .empty
  rw [request] at steps result
  refine ⟨succeeded, result, ?_, ?_⟩
  · rw [steps, conditionals]
  · rw [steps]
    rfl

theorem Database.builds_escaped_reference :
    let macros := MacroTable.assign .empty false "X" "1"
    let conditionals := ConditionalTable.assign .empty "all" "X" "$(Y)"
    let workspace : Workspace := ⟨⟨macros, conditionals, .empty, false⟩, #[]⟩
    let reader : Reader := ⟨.ofLookup fun _ => none, none⟩
    let read := (reader.readText ⟨"Makefile"⟩ "all:\n\t echo \\\\$$(X) $$ \n").run workspace
    let built := read.2.database.buildInto "all" .empty
    IsPlainName "all" ∧ IsPlainRule " echo \\$(X) $ " ∧ read.1 = .ok () ∧ built.2 = .ok () ∧
      built.1.steps.toList =
        [.enter "all" 1 [("X", "$(Y)")], .command "all" 1 " echo \\$(X) $ ", .leave "all" 1] := by
  intro macros conditionals workspace reader read built
  have plain : IsPlainName "all" :=
    ⟨by decide, by simp; decide, by simp; decide, by simp, by decide⟩
  have plainRule : IsPlainRule " echo \\$(X) $ " :=
    ⟨by decide, by decide, by decide, by decide, by decide⟩
  have isNew : workspace.database.plan.get? "all" = none := Table.get?_empty "all"
  have entries : conditionals.entriesFor "all" = [("X", "$(Y)")] := by
    rw [ConditionalTable.entriesFor, ConditionalTable.get?_assign_self]
    cbv
  obtain ⟨succeeded, result, steps, -⟩ := Database.builds_escaped.2 reader ⟨"Makefile"⟩ workspace
    "all" " echo \\$(X) $ " plain (by decide) isNew plainRule
  exact ⟨plain, plainRule, succeeded, result, steps.trans (by rw [entries])⟩

end DryMake
