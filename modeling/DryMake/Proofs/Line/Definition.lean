import DryMake.Line
import DryMake.Proofs.Expansion.Grammar
import DryMake.Proofs.Database.Written

/-!
Which lines are definitions. A line with a colon defines targets if no equals sign behind the colon
stands outside of every group. The line scanner that looks for one keeps only a depth and the last
character; it tells a group from other parentheses by the dollar sign before them, and does not know
the two ways to write a dollar sign that stands for itself.
-/

namespace DryMake

open Expansion

namespace Expansion

def Token.isGroup : Token → Bool
  | group _ => true
  | _ => false

def Token.isDollar : Token → Bool
  | plain _ => false
  | escaped c => c == '$'
  | dollar => true
  | group _ => false

/-- The sign is met, when the text is read token by token, outside of every group. -/
def MeetsOutside (sign : Char) (text : List Char) : Prop :=
  ∃ token ∈ tokens text, token.isGroup = false ∧ sign ∈ token.lexeme

/-- No parenthesis outside of the groups comes directly after a dollar sign that stands for itself. -/
def DollarsStandApart (text : List Char) : Prop :=
  (tokens text).IsChain fun token next => token.isDollar = true → next ≠ .plain '('

section

variable {text rest : List Char} {first : Token}

theorem meetsOutside_iff_of_token (scanned : scan text = .token first rest) (sign : Char) :
    MeetsOutside sign text ↔
      (first.isGroup = false ∧ sign ∈ first.lexeme) ∨ MeetsOutside sign rest := by
  simp [MeetsOutside, tokens_of_token scanned]

private theorem not_meetsOutside_nil (sign : Char) : ¬ MeetsOutside sign [] := by
  have atEnd : Stops [] := stops_of_scan rfl nofun
  simp [MeetsOutside, tokens_of_stops atEnd]

end

end Expansion

namespace Line

/-! ### The line scanner, token by token -/

theorem hasBareEquals_cons {afterDollar : Bool} {c : Char}
    (opensNone : afterDollar = true → c ≠ '(') (rest : List Char) :
    hasBareEquals 0 afterDollar (c :: rest) = (c == '=' || hasBareEquals 0 (c == '$') rest) := by
  by_cases opens : c = '('
  · subst opens
    have notAfter : afterDollar = false := by simpa using opensNone
    simp [hasBareEquals, notAfter]
  · by_cases closes : c = ')'
    · subst closes
      simp [hasBareEquals]
    · by_cases equals : c = '='
      · subst equals
        simp [hasBareEquals]
      · rw [hasBareEquals]
        · simp [equals]
        · exact opens
        · exact closes
        · exact equals

theorem hasBareEquals_balanced {depth : Nat} {body : List Char} (balances : Balances depth body)
    (outer : Nat) (afterDollar : Bool) (rest : List Char) :
    hasBareEquals (outer + 1 + depth) afterDollar (body ++ ')' :: rest) =
      hasBareEquals outer false rest := by
  induction body generalizing depth afterDollar with
  | nil =>
      obtain rfl := (balances_nil_iff depth).mp balances
      rfl
  | cons c others inductionHypothesis =>
      by_cases opens : c = '('
      · subst opens
        have inner : Balances (depth + 1) others :=
          (balances_cons_iff (by simp) others).mp balances
        have deeper : hasBareEquals (outer + 1 + depth) afterDollar ('(' :: others ++ ')' :: rest) =
            hasBareEquals (outer + 1 + (depth + 1)) false (others ++ ')' :: rest) := by
          simp [hasBareEquals, Nat.add_assoc]
        rw [deeper, inductionHypothesis inner]
      · by_cases closes : c = ')'
        · subst closes
          cases depth with
          | zero => exact absurd balances (not_balances_zero_close others)
          | succ depth =>
              have inner : Balances depth others :=
                (balances_cons_iff (by simp) others).mp balances
              exact inductionHypothesis inner false
        · have inner : Balances depth others :=
            (balances_cons_iff (by simp [closes, opens]) others).mp balances
          by_cases equals : c = '='
          · subst equals
            rw [List.cons_append, hasBareEquals, inductionHypothesis inner]
            simp
          · rw [List.cons_append, hasBareEquals, inductionHypothesis inner]
            · exact opens
            · exact closes
            · exact equals

private theorem hasBareEquals_group {body : List Char} (balances : Balances 0 body) (depth : Nat)
    (afterDollar : Bool) (rest : List Char) :
    hasBareEquals depth afterDollar ((Token.group body).lexeme ++ rest) =
      hasBareEquals depth false rest := by
  have inside := hasBareEquals_balanced balances depth false rest
  simpa [Token.lexeme, hasBareEquals] using inside

private theorem hasBareEquals_token {token : Token} (wellFormed : token.IsWellFormed)
    {afterDollar : Bool} (opensNone : afterDollar = true → token ≠ .plain '(') (rest : List Char) :
    hasBareEquals 0 afterDollar (token.lexeme ++ rest) = true ↔
      (token.isGroup = false ∧ '=' ∈ token.lexeme) ∨
        hasBareEquals 0 token.isDollar rest = true := by
  cases token with
  | plain c =>
      have notDollar : (c == '$') = false := by simpa using wellFormed.2
      have opensNone : afterDollar = true → c ≠ '(' := by simpa using opensNone
      rw [Token.lexeme, List.singleton_append, hasBareEquals_cons opensNone, notDollar]
      simp [Token.isGroup, Token.isDollar, @eq_comm _ '=' c]
  | escaped c =>
      have passed : hasBareEquals 0 afterDollar ((Token.escaped c).lexeme ++ rest) =
          hasBareEquals 0 false (c :: rest) :=
        hasBareEquals_cons (c := '\\') (by simp) (c :: rest)
      rw [passed, hasBareEquals_cons (by simp)]
      simp [Token.isGroup, Token.isDollar, Token.lexeme, @eq_comm _ '=' c]
  | dollar =>
      have passed : hasBareEquals 0 afterDollar (Token.dollar.lexeme ++ rest) =
          hasBareEquals 0 true rest := rfl
      rw [passed]
      simp [Token.isGroup, Token.isDollar, Token.lexeme]
  | group body =>
      rw [hasBareEquals_group wellFormed]
      simp [Token.isGroup, Token.isDollar]

/-- Where no dollar sign that stands for itself comes before a parenthesis, the line scanner finds
the equals signs that the expansion meets outside of the groups. -/
theorem hasBareEquals_iff {text : List Char} (whole : IsWhole text)
    (apart : DollarsStandApart text) :
    hasBareEquals 0 false text = true ↔ MeetsOutside '=' text := by
  have fromToken : ∀ afterDollar : Bool,
      (afterDollar = true → ∀ next ∈ (tokens text).head?, next ≠ .plain '(') →
      (hasBareEquals 0 afterDollar text = true ↔ MeetsOutside '=' text) := by
    induction text using reading_induction with
    | stops text stops =>
        intro afterDollar opensNone
        rw [IsWhole, unread_of_stops stops] at whole
        rw [whole]
        simp [hasBareEquals, not_meetsOutside_nil]
    | token text first rest scanned onRest =>
        intro afterDollar opensNone
        rw [IsWhole, unread_of_token scanned] at whole
        rw [DollarsStandApart, tokens_of_token scanned, List.isChain_cons] at apart
        rw [tokens_of_token scanned] at opensNone
        rw [meetsOutside_iff_of_token scanned, lexeme_append_of_scan scanned,
          hasBareEquals_token (isWellFormed_of_scan scanned)
            fun after => opensNone after first rfl,
          onRest whole apart.2 first.isDollar fun isDollar next isNext => apart.1 next isNext isDollar]
  exact fromToken false fun impossible => absurd impossible Bool.false_ne_true

private theorem hasBareEquals_append {start rest : List Char} {depth : Nat} {afterDollar : Bool}
    (found : hasBareEquals depth afterDollar (start ++ rest) = true) :
    '=' ∈ start ∨ ∃ later after, hasBareEquals later after rest = true := by
  induction start generalizing depth afterDollar with
  | nil => exact Or.inr ⟨depth, afterDollar, found⟩
  | cons c others inductionHypothesis =>
      have further : c = '=' ∨ ∃ later after, hasBareEquals later after (others ++ rest) = true := by
        rw [List.cons_append] at found
        unfold hasBareEquals at found
        split at found
        · contradiction
        · rename_i same
          cases same
          exact Or.inr ⟨_, _, found⟩
        · rename_i same
          cases same
          exact Or.inr ⟨_, _, found⟩
        · rename_i same
          cases same
          exact Or.inl rfl
        · rename_i same
          cases same
          exact Or.inr ⟨_, _, found⟩
      rcases further with rfl | ⟨later, after, foundLater⟩
      · exact Or.inl List.mem_cons_self
      · exact (inductionHypothesis foundLater).imp_left (List.mem_cons_of_mem c)

theorem meetsOutside_of_hasBareEquals {text : List Char} (whole : IsWhole text) {depth : Nat}
    {afterDollar : Bool} (found : hasBareEquals depth afterDollar text = true) :
    MeetsOutside '=' text := by
  induction text using reading_induction generalizing depth afterDollar with
  | stops text stops =>
      rw [IsWhole, unread_of_stops stops] at whole
      rw [whole] at found
      cases found
  | token text first rest scanned onRest =>
      rw [IsWhole, unread_of_token scanned] at whole
      rw [meetsOutside_iff_of_token scanned]
      rw [lexeme_append_of_scan scanned] at found
      cases isGroup : first.isGroup with
      | false =>
          rcases hasBareEquals_append found with member | ⟨later, after, foundLater⟩
          · exact Or.inl ⟨rfl, member⟩
          · exact Or.inr (onRest whole foundLater)
      | true =>
          cases first with
          | group body =>
              rw [hasBareEquals_group (isWellFormed_of_scan scanned)] at found
              exact Or.inr (onRest whole found)
          | plain c => cases isGroup
          | escaped c => cases isGroup
          | dollar => cases isGroup

/-! ### Definitions -/

/-- The text can stand before the colon of a definition: it is not blank, it does not make the line a
comment, a rule or an inclusion, and the line is not cut within it. -/
structure IsTargetSide (targets : List Char) : Prop where
  inked : Text.allBlank targets = false
  operatorFree : ∀ c ∈ targets, isOperator c = false
  notComment : targets.head? ≠ some '#'
  notRule : targets.head? ≠ some '\t'
  notInclusion : inclusionOperand? targets = none

theorem inclusionOperand?_eq_none_iff (line : List Char) :
    inclusionOperand? line = none ↔
      ∀ separator rest, line = "include".toList ++ separator :: rest →
        separator ≠ ' ' ∧ separator ≠ '\t' := by
  constructor
  · rintro none separator rest rfl
    have shape : "include".toList ++ separator :: rest =
      'i' :: 'n' :: 'c' :: 'l' :: 'u' :: 'd' :: 'e' :: separator :: rest := rfl
    rw [shape, inclusionOperand?] at none
    simpa using none
  · intro separated
    unfold inclusionOperand?
    split
    · rename_i separator rest
      exact if_neg (not_or.mpr (separated separator rest rfl))
    · rfl

theorem isOperator_iff (c : Char) : isOperator c = true ↔ c = ':' ∨ c = '=' ∨ c = '+' := by
  simp [isOperator, or_assoc]

theorem inclusionOperand?_append_operator {operator : Char} (isOne : isOperator operator = true)
    (left rest : List Char) :
    inclusionOperand? (left ++ operator :: rest) = none ↔ inclusionOperand? left = none := by
  have separatesNone : operator ≠ ' ' ∧ operator ≠ '\t' := by
    rcases (isOperator_iff operator).mp isOne with rfl | rfl | rfl <;> decide
  have notInWord : operator ∉ "include".toList := by
    rcases (isOperator_iff operator).mp isOne with rfl | rfl | rfl <;> decide
  rw [inclusionOperand?_eq_none_iff, inclusionOperand?_eq_none_iff]
  constructor
  · rintro separated separator others rfl
    exact separated separator (others ++ operator :: rest) (by simp)
  · intro separated separator others same
    rcases List.append_eq_append_iff.mp same with ⟨between, word, behind⟩ | ⟨between, word, behind⟩
    · cases between with
      | nil =>
          obtain ⟨rfl, -⟩ := List.cons.inj behind
          exact separatesNone
      | cons c later =>
          obtain ⟨rfl, -⟩ := List.cons.inj behind
          exact absurd (word ▸ List.mem_append_right left List.mem_cons_self) notInWord
    · cases between with
      | nil =>
          obtain ⟨rfl, -⟩ := List.cons.inj behind
          exact separatesNone
      | cons c later =>
          obtain ⟨rfl, -⟩ := List.cons.inj behind
          exact separated separator later word

theorem ofChars_eq_ofOperator {line : List Char} (inked : Text.allBlank line = false)
    (notComment : line.head? ≠ some '#') (notRule : line.head? ≠ some '\t')
    (notInclusion : inclusionOperand? line = none) : ofChars line = ofOperator line := by
  cases line with
  | nil => cases inked
  | cons first rest =>
      rw [ofChars, inked, if_neg Bool.false_ne_true, notInclusion]
      · rintro others ⟨⟩
        exact notComment rfl
      · rintro others ⟨⟩
        exact notRule rfl

private theorem head?_append_of_inked {left : List Char} (inked : Text.allBlank left = false)
    (rest : List Char) : (left ++ rest).head? = left.head? := by
  cases left with
  | nil => cases inked
  | cons first others => rfl

theorem ofChars_append_eq_ofOperator {left rest : List Char} (inked : Text.allBlank left = false)
    (notComment : left.head? ≠ some '#') (notRule : left.head? ≠ some '\t')
    (notInclusion : inclusionOperand? (left ++ rest) = none) :
    ofChars (left ++ rest) = ofOperator (left ++ rest) := by
  apply ofChars_eq_ofOperator
  · rw [Text.allBlank, List.all_append, Bool.and_eq_false_iff]
    exact Or.inl inked
  · rw [head?_append_of_inked inked]
    exact notComment
  · rw [head?_append_of_inked inked]
    exact notRule
  · exact notInclusion

theorem ofOperator_eq_definition_iff {line targets deps : List Char} :
    ofOperator line = .definition (String.ofList targets) (String.ofList deps) ↔
      line = targets ++ ':' :: deps ∧ Text.allBlank targets = false ∧
        (∀ c ∈ targets, isOperator c = false) ∧ hasBareEquals 0 false deps = false := by
  constructor
  · intro shape
    have cut := lhs_append_operator line
    have free : ∀ c ∈ lhs line, isOperator c = false := fun c => isOperator_of_mem_lhs
    unfold ofOperator at shape
    dsimp only at shape
    split at shape
    · cases shape
    · rename_i inked
      split at shape
      · cases shape
      · rename_i others _ operator
        split at shape
        · cases shape
        · rename_i noEquals
          injection shape with sameTargets sameDeps
          rw [operator, String.ofList_injective sameTargets, String.ofList_injective sameDeps]
            at cut
          rw [String.ofList_injective sameTargets] at inked free
          rw [String.ofList_injective sameDeps] at noEquals
          exact ⟨cut.symm, by simpa using inked, free, by simpa using noEquals⟩
      · cases shape
      · cases shape
      · cases shape
  · rintro ⟨rfl, inked, free, noEquals⟩
    rw [ofOperator, lhs_append_cons free rfl, operatorAndRest_append_cons free rfl, inked,
      if_neg Bool.false_ne_true]
    split
    · rename_i rest same
      rw [(List.cons.inj same).2] at noEquals
      cases noEquals
    · rename_i others _ same
      obtain rfl := (List.cons.inj same).2
      rw [noEquals, if_neg Bool.false_ne_true]
    · rename_i same
      cases same
    · rename_i same
      cases same
    · rename_i noColon _ _
      exact absurd rfl (noColon _)

/-- Which lines are definitions, and what their two sides are. -/
theorem ofChars_eq_definition_iff {line targets deps : List Char} :
    ofChars line = .definition (String.ofList targets) (String.ofList deps) ↔
      line = targets ++ ':' :: deps ∧ IsTargetSide targets ∧
        hasBareEquals 0 false deps = false := by
  constructor
  · intro shape
    unfold ofChars at shape
    split at shape
    · cases shape
    · rename_i notComment
      split at shape
      · cases shape
      · split at shape
        · cases shape
        · rename_i noInclusion
          split at shape
          · cases shape
          · rename_i notRule
            obtain ⟨rfl, inked, free, noEquals⟩ := ofOperator_eq_definition_iff.mp shape
            refine ⟨rfl, ⟨inked, free, ?_, ?_, ?_⟩, noEquals⟩
            · rw [← head?_append_of_inked inked (':' :: deps)]
              intro isComment
              obtain ⟨rest, same⟩ := List.head?_eq_some_iff.mp isComment
              exact notComment rest same
            · rw [← head?_append_of_inked inked (':' :: deps)]
              intro isRule
              obtain ⟨rest, same⟩ := List.head?_eq_some_iff.mp isRule
              exact notRule rest same
            · exact (inclusionOperand?_append_operator rfl targets deps).mp noInclusion
  · rintro ⟨rfl, side, noEquals⟩
    rw [ofChars_append_eq_ofOperator side.inked side.notComment side.notRule
      ((inclusionOperand?_append_operator rfl targets deps).mpr side.notInclusion)]
    exact ofOperator_eq_definition_iff.mpr ⟨rfl, side.inked, side.operatorFree, noEquals⟩

private theorem ofString_eq_definition_iff {line targets deps : String} :
    ofString line = .definition targets deps ↔
      line = targets ++ ":" ++ deps ∧ IsTargetSide targets.toList ∧
        hasBareEquals 0 false deps.toList = false := by
  have sides : ofChars line.toList =
      .definition (String.ofList targets.toList) (String.ofList deps.toList) ↔ _ :=
    ofChars_eq_definition_iff
  rw [String.ofList_toList, String.ofList_toList] at sides
  rw [ofString, sides, ← String.toList_inj]
  simp

/-- Of a text that can be read to its end, the line scanner finds no equals sign that the expansion
meets within a group. It finds one exactly when the expansion meets one outside of the groups, and a
line with the text behind a colon is a definition exactly when there is none, if no parenthesis comes
after a dollar sign that stands for itself. -/
theorem definition_of_equals_in_groups {deps : String} (whole : IsWhole deps.toList) :
    (hasBareEquals 0 false deps.toList = true → MeetsOutside '=' deps.toList) ∧
    (DollarsStandApart deps.toList →
      (hasBareEquals 0 false deps.toList = true ↔ MeetsOutside '=' deps.toList) ∧
      ∀ line targets, ofString line = .definition targets deps ↔
        line = targets ++ ":" ++ deps ∧ IsTargetSide targets.toList ∧
          ∀ token ∈ tokens deps.toList, '=' ∈ token.lexeme → token.isGroup = true) := by
  refine ⟨meetsOutside_of_hasBareEquals whole, ?_⟩
  intro apart
  have found := hasBareEquals_iff whole apart
  refine ⟨found, ?_⟩
  intro line targets
  have none : hasBareEquals 0 false deps.toList = false ↔
      ∀ token ∈ tokens deps.toList, '=' ∈ token.lexeme → token.isGroup = true := by
    rw [← Bool.not_eq_true, found, MeetsOutside]
    simp only [not_exists, not_and, Bool.eq_false_iff, not_imp_not]
  rw [ofString_eq_definition_iff, none]

theorem definition_of_equals_in_groups_nested :
    let deps := "$(SRC:.c=$(OBJ:=o)) $$ (\\))"
    IsWhole deps.toList ∧ DollarsStandApart deps.toList ∧
      ofString "obj:$(SRC:.c=$(OBJ:=o)) $$ (\\))" = .definition "obj" deps := by
  intro deps
  have whole : IsWhole deps.toList := by
    unfold IsWhole
    cbv
  have read : tokens deps.toList = [.group "SRC:.c=$(OBJ:=o)".toList, .plain ' ', .dollar,
      .plain ' ', .plain '(', .escaped ')', .plain ')'] := by cbv
  have apart : DollarsStandApart deps.toList := by
    rw [DollarsStandApart, read]
    decide
  have side : IsTargetSide "obj".toList := by
    rw [show "obj".toList = ['o', 'b', 'j'] from rfl]
    constructor
    · cbv
    · simp [isOperator]
    · simp
    · simp
    · rfl
  refine ⟨whole, apart, ?_⟩
  refine (((definition_of_equals_in_groups whole).2 apart).2 _ "obj").mpr ⟨rfl, side, ?_⟩
  rw [read]
  decide

/-- The second of two dollar signs opens a group for the line scanner, though the two stand for one
that opens none. So an equals sign outside of every group goes unnoticed. -/
theorem hasBareEquals_misses_equals :
    let deps := " $$(a=b)"
    IsWhole deps.toList ∧ MeetsOutside '=' deps.toList ∧
      hasBareEquals 0 false deps.toList = false ∧
      ofString "t: $$(a=b)" = .definition "t" deps := by
  intro deps
  have read : tokens deps.toList = [.plain ' ', .dollar, .plain '(', .plain 'a', .plain '=',
      .plain 'b', .plain ')'] := by cbv
  refine ⟨?_, ⟨.plain '=', ?_, rfl, List.mem_singleton_self '='⟩, ?_, ?_⟩
  · unfold IsWhole
    cbv
  · rw [read]
    decide
  · cbv
  · cbv

end Line

end DryMake
