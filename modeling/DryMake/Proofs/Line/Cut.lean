import DryMake.Proofs.Line.Spelling

/-!
Lines whose left side has groups. The expansion reads what stands before the sign of a line, so an
operator character may be part of a group there; but the search for the sign does not look at groups,
and finds that character. The line is then cut within the group, and what is left of it cannot be
expanded.
-/

namespace DryMake.Line

open Expansion

section

variable {start left rest : List Char}

private theorem lhs_append_of_free (free : ∀ c ∈ start, isOperator c = false) (rest : List Char) :
    lhs (start ++ rest) = start ++ lhs rest :=
  List.takeWhile_append_of_pos fun c member => by rw [free c member]; rfl

theorem exists_operator (present : ∃ c ∈ left, isOperator c = true) :
    ∃ operator more, left = lhs left ++ operator :: more ∧ isOperator operator = true := by
  obtain ⟨c, member, isOne⟩ := present
  have whole := lhs_append_operator left
  cases behind : operatorAndRest left with
  | nil =>
      rw [behind, List.append_nil] at whole
      rw [← whole] at member
      rw [isOperator_of_mem_lhs member] at isOne
      cases isOne
  | cons operator more =>
      rw [behind] at whole
      refine ⟨operator, more, whole.symm, ?_⟩
      have stops := List.head?_dropWhile_not (fun c => !isOperator c) left
      rw [← operatorAndRest, behind] at stops
      simpa using stops

private theorem lhs_append_of_present (present : ∃ c ∈ left, isOperator c = true)
    (rest : List Char) :
    lhs (left ++ rest) = lhs left := by
  obtain ⟨operator, more, whole, isOne⟩ := exists_operator present
  have further : left ++ rest = lhs left ++ operator :: (more ++ rest) := by
    rw [← List.cons_append, ← List.append_assoc, ← whole]
  rw [further, lhs_append_cons (fun c => isOperator_of_mem_lhs) isOne]

private theorem lhs_group {body : List Char} (present : ∃ c ∈ body, isOperator c = true)
    (rest : List Char) : lhs ((Token.group body).lexeme ++ rest) = '$' :: '(' :: lhs body := by
  have opened : (Token.group body).lexeme ++ rest = ['$', '('] ++ (body ++ (')' :: rest)) := by
    simp [Token.lexeme]
  rw [opened, lhs_append_of_free (by simp [isOperator]), lhs_append_of_present present]
  rfl

end

/-- Each operator in the text is in one of its groups. -/
def OperatorsInGroups (text : List Char) : Prop :=
  ∀ c, isOperator c = true → ¬ MeetsOutside c text

private theorem operatorsInGroups_iff (text : List Char) :
    OperatorsInGroups text ↔
      ∀ token ∈ tokens text, token.isGroup = true ∨ ∀ c ∈ token.lexeme, isOperator c = false := by
  constructor
  · intro inGroups token member
    rw [or_iff_not_imp_left, Bool.not_eq_true]
    intro notGroup c inToken
    rw [← Bool.not_eq_true]
    exact fun isOne => inGroups c isOne ⟨token, member, notGroup, inToken⟩
  · rintro apart c isOne ⟨token, member, notGroup, inToken⟩
    rcases apart token member with isGroup | free
    · exact absurd isGroup (Bool.eq_false_iff.mp notGroup)
    · exact absurd isOne (Bool.eq_false_iff.mp (free c inToken))

/-- If the operators of a text are all in its groups, the first of them cuts the text within a group,
after whole tokens. The group is then opened and not closed. -/
theorem exists_opened_group {text : List Char} (whole : IsWhole text)
    (inGroups : OperatorsInGroups text) (present : ∃ c ∈ text, isOperator c = true) :
    ∃ start inside, IsGrammatical start ∧ NeverCloses inside ∧
      lhs text = start ++ '$' :: '(' :: inside := by
  induction text using reading_induction with
  | stops text stops =>
      rw [IsWhole, unread_of_stops stops] at whole
      obtain ⟨c, member, -⟩ := present
      rw [whole] at member
      cases member
  | token text first rest scanned onRest =>
      have wellFormed := isWellFormed_of_scan scanned
      have outside : ∀ c, isOperator c = true →
          ¬ (first.isGroup = false ∧ c ∈ first.lexeme) ∧ ¬ MeetsOutside c rest := by
        intro c isOne
        have notMet := inGroups c isOne
        rwa [meetsOutside_iff_of_token scanned, not_or] at notMet
      rw [lexeme_append_of_scan scanned] at present ⊢
      by_cases free : ∀ c ∈ first.lexeme, isOperator c = false
      · have later : ∃ c ∈ rest, isOperator c = true := by
          obtain ⟨c, member, isOne⟩ := present
          rcases List.mem_append.mp member with here | later
          · rw [free c here] at isOne
            cases isOne
          · exact ⟨c, later, isOne⟩
        obtain ⟨start, inside, ⟨tokensOfStart, spelled⟩, never, cut⟩ :=
          onRest ((isWhole_iff_of_token scanned).mp whole) (fun c isOne => (outside c isOne).2) later
        have longer : Spells (first :: tokensOfStart) (first.lexeme ++ start) := by
          refine ⟨List.forall_mem_cons.mpr ⟨wellFormed, spelled.wellFormed⟩, ?_⟩
          rw [List.flatMap_cons, spelled.lexemes]
        refine ⟨first.lexeme ++ start, inside, ⟨_, longer⟩, never, ?_⟩
        rw [lhs_append_of_free free, cut, List.append_assoc]
      · simp only [not_forall, Bool.not_eq_false] at free
        obtain ⟨c, member, isOne⟩ := free
        cases first with
        | group body =>
            have inBody : c ∈ body := by
              rcases (isOperator_iff c).mp isOne with rfl | rfl | rfl <;>
                simpa [Token.lexeme] using member
            have isStart : lhs body <+: body := List.takeWhile_prefix _
            exact ⟨[], lhs body, ⟨[], List.forall_mem_nil _, rfl⟩,
              neverCloses_of_isPrefix wellFormed isStart, lhs_group ⟨c, inBody, isOne⟩ rest⟩
        | plain | escaped | dollar => exact absurd ⟨rfl, member⟩ (outside c isOne).1

/-- A text that can be meant to stand before the sign of a line: it can be read, it is not blank, it
does not make the line a comment, a rule or an inclusion, and the line is not to be cut within it. -/
structure IsGroupedLeft (left : List Char) : Prop where
  whole : IsWhole left
  inked : Text.allBlank left = false
  notComment : left.head? ≠ some '#'
  notRule : left.head? ≠ some '\t'
  notInclusion : inclusionOperand? left = none
  inGroups : OperatorsInGroups left

theorem ofOperator_cases (line : List Char) :
    ofOperator line = .unknown ∨ ∃ sign : Sign, ∃ rest,
      ofOperator line = sign.shape (lhs line) rest := by
  by_cases unknown : ofOperator line = .unknown
  · exact Or.inl unknown
  · right
    obtain ⟨left, sign, rest, rfl, admissible⟩ := Spelling.exists_operation unknown
    refine ⟨sign, rest, ?_⟩
    rw [(Spelling.cut_of_isAdmissible admissible).1, Spelling.ofOperator_text admissible]

theorem IsGroupedLeft.ofChars_operation {left rest : List Char} {sign : Sign}
    (side : IsGroupedLeft left)
    (admissible : (Spelling.operation left sign rest).IsAdmissible) :
    ofChars (left ++ (sign.text ++ rest)) = sign.shape left rest := by
  have notInclusion : inclusionOperand? (left ++ (sign.text ++ rest)) = none := by
    cases sign with
    | colon | colonEquals | plusEquals | equals =>
        exact (inclusionOperand?_append_operator rfl left _).mpr side.notInclusion
  rw [ofChars_append_eq_ofOperator side.inked side.notComment side.notRule notInclusion]
  exact Spelling.ofOperator_text admissible

theorem IsGroupedLeft.ofChars_of_present {left : List Char} (side : IsGroupedLeft left)
    (present : ∃ c ∈ left, isOperator c = true) (rest : List Char) :
    ofChars (left ++ rest) = .unknown ∨
      ∃ sign : Sign, ∃ others, ofChars (left ++ rest) = sign.shape (lhs left) others := by
  have notInclusion : inclusionOperand? (left ++ rest) = none := by
    obtain ⟨operator, more, whole, isOne⟩ := exists_operator present
    have notInclusion := side.notInclusion
    rw [whole, inclusionOperand?_append_operator isOne] at notInclusion
    rw [whole, List.append_assoc, List.cons_append, inclusionOperand?_append_operator isOne]
    exact notInclusion
  rw [ofChars_append_eq_ofOperator side.inked side.notComment side.notRule notInclusion,
    ← lhs_append_of_present present rest]
  exact ofOperator_cases _

/-- If a text that can be read is meant to stand before a sign, and its operators are all in its
groups, then it is kept whole where there are none. Where there are some, the first of them cuts the
text within a group, whatever comes behind the text. The line then has no shape, or has a left side
that cannot be expanded, whatever the macros are. -/
theorem ofString_of_grouped {left : String} (side : IsGroupedLeft left.toList) :
    ((∀ c ∈ left.toList, isOperator c = false) → ∀ rest : String,
      ofString (left ++ "=" ++ rest) = .assign left (Text.trimmed rest) ∧
      ofString (left ++ "+=" ++ rest) = .append left (Text.trimmed rest) ∧
      ofString (left ++ ":=" ++ rest) = .conditional left (Text.trimmed rest) ∧
      ('=' ∉ rest.toList → ofString (left ++ ":" ++ rest) = .definition left rest)) ∧
    ((∃ c ∈ left.toList, isOperator c = true) →
      (∃ start inside, IsGrammatical start ∧ NeverCloses inside ∧
        lhs left.toList = start ++ '$' :: '(' :: inside) ∧
      (∀ (bindings : Bindings) (output : String),
        bindings.expand (String.ofList (lhs left.toList)) ≠ .ok output) ∧
      ∀ rest : String, ofString (left ++ rest) = .unknown ∨
        ∃ sign : Sign, ∃ others, ofString (left ++ rest) = sign.shape (lhs left.toList) others) := by
  constructor
  · intro free rest
    have isLeft := Spelling.isLeft_of_operatorFree side.inked free
    have recognised : ∀ sign : Sign, (Spelling.operation left.toList sign rest.toList).IsAdmissible →
        ofString (left ++ String.ofList sign.text ++ rest) =
          sign.shape left.toList rest.toList := by
      intro sign admissible
      rw [← side.ofChars_operation admissible, ofString]
      simp
    have assigned := recognised .equals isLeft
    have appended := recognised .plusEquals isLeft
    have conditional := recognised .colonEquals isLeft
    simp only [Sign.shape, String.ofList_toList] at assigned appended conditional
    refine ⟨assigned, appended, conditional, fun equalsFree => ?_⟩
    have notEquals : rest.toList.head? ≠ some '=' :=
      fun starts => equalsFree (List.mem_of_head? starts)
    have defined := recognised .colon ⟨isLeft, notEquals, hasBareEquals_of_notMem equalsFree 0 false⟩
    simp only [Sign.shape, String.ofList_toList] at defined
    exact defined
  · intro present
    obtain ⟨start, inside, grammatical, never, cut⟩ :=
      exists_opened_group side.whole side.inGroups present
    have broken : BreaksOff (lhs left.toList) :=
      ⟨start, _, grammatical, cut, Or.inr (Or.inr ⟨inside, rfl, never⟩)⟩
    refine ⟨⟨start, inside, grammatical, never, cut⟩, ?_, fun rest => ?_⟩
    · intro bindings output expanded
      rw [expand_eq_evaluateRest, String.toList_ofList] at expanded
      have readable := isWhole_of_evaluateRest_eq_ok _ _ _ _ ⟨output, expanded⟩
      have standing := (breaksOff_iff _).mp broken
      rw [readable] at standing
      cases standing
    · rw [ofString, String.toList_append]
      exact side.ofChars_of_present present rest.toList

theorem isGroupedLeft_group {body : List Char}
    (read : scan (Token.group body).lexeme = .token (.group body) []) :
    IsGroupedLeft (Token.group body).lexeme := by
  have atEnd : Stops [] := stops_of_scan rfl nofun
  have onlyGroup : tokens (Token.group body).lexeme = [.group body] := by
    rw [tokens_of_token read, tokens_of_stops atEnd]
  constructor
  · exact (unread_of_token read).trans (unread_of_stops atEnd)
  · rfl
  · simp [Token.lexeme]
  · simp [Token.lexeme]
  · rfl
  · rw [operatorsInGroups_iff, onlyGroup]
    exact List.forall_mem_singleton.mpr (Or.inl rfl)

/-- A pattern is kept whole if it is written with a percent sign, and is cut if it is written with a
colon. -/
theorem ofString_of_grouped_pattern :
    ofString "$(OBJS%.o): main.h" = .definition "$(OBJS%.o)" " main.h" ∧
      (∀ (bindings : Bindings) (output : String), bindings.expand "$(OBJS" ≠ .ok output) ∧
      ∀ rest : String, ofString ("$(OBJS:.o=.c)" ++ rest) = .unknown ∨
        ∃ sign : Sign, ∃ others,
          ofString ("$(OBJS:.o=.c)" ++ rest) = sign.shape "$(OBJS".toList others := by
  have percentGroup : "$(OBJS%.o)".toList = (Token.group "OBJS%.o".toList).lexeme := by decide
  have colonGroup : "$(OBJS:.o=.c)".toList = (Token.group "OBJS:.o=.c".toList).lexeme := by decide
  have percent : IsGroupedLeft "$(OBJS%.o)".toList :=
    percentGroup ▸ isGroupedLeft_group (by decide)
  have colon : IsGroupedLeft "$(OBJS:.o=.c)".toList :=
    colonGroup ▸ isGroupedLeft_group (by decide)
  have cut : lhs "$(OBJS:.o=.c)".toList = "$(OBJS".toList := by decide
  obtain ⟨-, -, -, definition⟩ := (ofString_of_grouped percent).1 (by simp [isOperator]) " main.h"
  obtain ⟨-, unreadable, shapes⟩ := (ofString_of_grouped colon).2 ⟨':', by decide, rfl⟩
  rw [cut] at unreadable shapes
  exact ⟨definition (by decide), unreadable, shapes⟩

/-- A list of targets that is one pattern is no list of targets for the line: the line has no shape,
though the expansion reads the pattern as one group. -/
theorem ofString_cuts_group :
    IsGroupedLeft "$(OBJS:.o=.c)".toList ∧ '=' ∉ " main.h".toList ∧
      ofString ("$(OBJS:.o=.c)" ++ ":" ++ " main.h") = .unknown ∧
      ¬ ∀ left deps : String, IsGroupedLeft left.toList → '=' ∉ deps.toList →
        ofString (left ++ ":" ++ deps) = .definition left deps := by
  have group : "$(OBJS:.o=.c)".toList = (Token.group "OBJS:.o=.c".toList).lexeme := by decide
  have pattern : IsGroupedLeft "$(OBJS:.o=.c)".toList := group ▸ isGroupedLeft_group (by decide)
  have unknown : ofString ("$(OBJS:.o=.c)" ++ ":" ++ " main.h") = .unknown := by cbv
  refine ⟨pattern, by decide, unknown, fun kept => ?_⟩
  have same := kept "$(OBJS:.o=.c)" " main.h" pattern (by decide)
  rw [unknown] at same
  cases same

end DryMake.Line
