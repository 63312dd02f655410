import DryMake.Proofs.Expansion.Correspondence
import DryMake.Proofs.Expansion.Tokens

/-!
The grammar of texts. A text belongs to it if it is put together from tokens, and then in one way
only. Any other text has a longest part that belongs to it, and after that part either a dollar sign
before a character that no token has there, or the beginning of a token that does not end.
-/

namespace DryMake.Expansion

/-- Within `depth` open parentheses, no start of the text closes more than are open, and the whole
closes all of them. -/
structure Balances (depth : Nat) (body : List Char) : Prop where
  never : ∀ start, start <+: body → start.count ')' ≤ depth + start.count '('
  whole : body.count ')' = depth + body.count '('

theorem balances_nil_iff (depth : Nat) : Balances depth [] ↔ depth = 0 := by
  constructor
  · intro balances
    exact balances.whole.symm
  · rintro rfl
    constructor
    · intro start isStart
      rw [List.prefix_nil.mp isStart]
      exact Nat.zero_le _
    · rfl

theorem balances_cons_iff {depth later : Nat} {c : Char}
    (counts : depth + [c].count '(' = later + [c].count ')') (rest : List Char) :
    Balances depth (c :: rest) ↔ Balances later rest := by
  have split : ∀ (text : List Char) (sign : Char),
      (c :: text).count sign = [c].count sign + text.count sign := fun text sign =>
    @List.count_append _ _ sign [c] text
  constructor
  · intro balances
    constructor
    · intro start isStart
      have bounded := balances.never (c :: start) (List.cons_prefix_cons.mpr ⟨rfl, isStart⟩)
      have closed := split start ')'
      have opened := split start '('
      omega
    · have whole := balances.whole
      have closed := split rest ')'
      have opened := split rest '('
      omega
  · intro balances
    constructor
    · intro start isStart
      rcases List.prefix_cons_iff.mp isStart with rfl | ⟨others, rfl, isStart⟩
      · exact Nat.zero_le _
      · have bounded := balances.never others (List.cons_prefix_cons.mp isStart).2
        have closed := split others ')'
        have opened := split others '('
        omega
    · have whole := balances.whole
      have closed := split rest ')'
      have opened := split rest '('
      omega

theorem not_balances_zero_close (rest : List Char) : ¬ Balances 0 (')' :: rest) := by
  intro balances
  have bounded := balances.never [')'] (List.prefix_append [')'] rest)
  revert bounded
  decide

theorem exists_inner_cons_iff {depth later : Nat} {c : Char} {before others body rest : List Char}
    (counts : depth + [c].count '(' = later + [c].count ')') (inside : c = ')' → depth ≠ 0) :
    (∃ inner, body = (c :: before).reverse ++ inner ∧ others = inner ++ ')' :: rest ∧
        Balances later inner) ↔
      ∃ inner, body = before.reverse ++ inner ∧ c :: others = inner ++ ')' :: rest ∧
        Balances depth inner := by
  constructor
  · rintro ⟨inner, sameBody, sameText, balances⟩
    refine ⟨c :: inner, ?_, ?_, (balances_cons_iff counts inner).mpr balances⟩
    · rw [sameBody, List.reverse_cons, List.append_assoc, List.singleton_append]
    · rw [sameText, List.cons_append]
  · rintro ⟨inner, sameBody, sameText, balances⟩
    cases inner with
    | nil =>
        injection sameText with closes
        exact absurd ((balances_nil_iff depth).mp balances) (inside closes)
    | cons first inner =>
        injection sameText with same sameOthers
        subst same
        refine ⟨inner, ?_, sameOthers, (balances_cons_iff counts inner).mp balances⟩
        rw [sameBody, List.reverse_cons, List.append_assoc, List.singleton_append]

/-- A group is read to the first parenthesis that closes it, the ones within it being balanced. -/
theorem closeGroup_eq_some_iff {depth : Nat} {before text body rest : List Char} :
    closeGroup depth before text = some (body, rest) ↔
      ∃ inner, body = before.reverse ++ inner ∧ text = inner ++ ')' :: rest ∧
        Balances depth inner := by
  induction text generalizing depth before with
  | nil => simp [closeGroup]
  | cons c others inductionHypothesis =>
      by_cases closes : c = ')'
      · subst closes
        cases depth with
        | zero =>
            constructor
            · intro closed
              cases closed
              exact ⟨[], (List.append_nil _).symm, rfl, (balances_nil_iff 0).mpr rfl⟩
            · rintro ⟨inner, sameBody, sameText, balances⟩
              cases inner with
              | nil =>
                  cases sameText
                  rw [sameBody, List.append_nil]
                  rfl
              | cons first inner =>
                  injection sameText with same
                  subst same
                  exact absurd balances (not_balances_zero_close inner)
        | succ outer =>
            have goesOn : closeGroup (outer + 1) before (')' :: others) =
              closeGroup outer (')' :: before) others := rfl
            rw [goesOn, inductionHypothesis]
            exact exists_inner_cons_iff (by simp) fun _ => Nat.succ_ne_zero outer
      · by_cases opens : c = '('
        · subst opens
          have goesOn : closeGroup depth before ('(' :: others) =
            closeGroup (depth + 1) ('(' :: before) others := rfl
          rw [goesOn, inductionHypothesis]
          exact exists_inner_cons_iff (by simp) fun same => absurd same closes
        · have goesOn : closeGroup depth before (c :: others) =
              closeGroup depth (c :: before) others := by
            rw [closeGroup]
            · exact closes
            · exact opens
          rw [goesOn, inductionHypothesis]
          exact exists_inner_cons_iff (by simp [closes, opens]) fun same => absurd same closes

def NeverCloses (inside : List Char) : Prop :=
  ∀ body rest, inside = body ++ ')' :: rest → ¬ Balances 0 body

private theorem closeGroup_eq_none_iff (inside : List Char) :
    closeGroup 0 [] inside = none ↔ NeverCloses inside := by
  constructor
  · intro notClosed body rest same balances
    have closed : closeGroup 0 [] inside = some (body, rest) :=
      closeGroup_eq_some_iff.mpr ⟨body, rfl, same, balances⟩
    rw [notClosed] at closed
    cases closed
  · intro never
    rw [Option.eq_none_iff_forall_ne_some]
    rintro ⟨body, rest⟩ closed
    obtain ⟨inner, sameBody, same, balances⟩ := closeGroup_eq_some_iff.mp closed
    exact never inner rest same balances

theorem neverCloses_of_isPrefix {inside body : List Char} (balances : Balances 0 body)
    (isStart : inside <+: body) : NeverCloses inside := by
  rintro start rest rfl ofStart
  have closed : start ++ [')'] <+: body := by
    refine List.IsPrefix.trans ?_ isStart
    exact ⟨rest, by rw [List.append_assoc, List.singleton_append]⟩
  have onlyCloses : [')'].count ')' = 1 ∧ [')'].count '(' = 0 := by decide
  have bounded := balances.never _ closed
  have whole := ofStart.whole
  rw [List.count_append, List.count_append] at bounded
  omega

/-! ### Tokens -/

def Token.IsWellFormed : Token → Prop
  | plain c => c ≠ '\\' ∧ c ≠ '$'
  | escaped _ => True
  | dollar => True
  | group body => Balances 0 body

theorem scan_lexeme_append {token : Token} (wellFormed : token.IsWellFormed) (rest : List Char) :
    scan (token.lexeme ++ rest) = .token token rest := by
  cases token with
  | plain c => exact scan_cons_of_literal wellFormed.2 wellFormed.1 rest
  | escaped c => rfl
  | dollar => rfl
  | group body =>
      have closed : closeGroup 0 [] (body ++ ')' :: rest) = some (body, rest) :=
        closeGroup_eq_some_iff.mpr ⟨body, rfl, rfl, wellFormed⟩
      have opened : (Token.group body).lexeme ++ rest = '$' :: '(' :: (body ++ ')' :: rest) := by
        simp [Token.lexeme]
      rw [opened, scan, closed]

theorem isWellFormed_of_scan {text rest : List Char} {first : Token}
    (scanned : scan text = .token first rest) : first.IsWellFormed := by
  unfold scan at scanned
  split at scanned <;> try contradiction
  · cases scanned
    trivial
  · cases scanned
    trivial
  · split at scanned
    · rename_i closed
      cases scanned
      obtain ⟨inner, rfl, -, balances⟩ := closeGroup_eq_some_iff.mp closed
      exact balances
    · contradiction
  · rename_i loneBackslash escapes loneDollar _ _ strays
    cases scanned
    constructor
    · rintro rfl
      cases rest with
      | nil => exact loneBackslash rfl rfl
      | cons c others => exact escapes c others rfl rfl
    · rintro rfl
      cases rest with
      | nil => exact loneDollar rfl rfl
      | cons c others => exact strays c others rfl rfl

/-- A dollar sign that begins no token, before a character that shows this. -/
def IsStray (found : Char) (cut : List Char) : Prop :=
  ∃ after, cut = '$' :: found :: after ∧ found ≠ '(' ∧ found ≠ '$'

/-- The beginning of a token that the text ends before completing. -/
def IsCutShort (cut : List Char) : Prop :=
  cut = ['\\'] ∨ cut = ['$'] ∨ ∃ inside, cut = '$' :: '(' :: inside ∧ NeverCloses inside

theorem scan_eq_stray_iff (text : List Char) (found : Char) :
    scan text = .stray found ↔ IsStray found text := by
  constructor
  · intro scanned
    unfold scan at scanned
    split at scanned <;> try contradiction
    · split at scanned <;> contradiction
    · rename_i c after notDollar notOpen
      cases scanned
      exact ⟨after, rfl, notOpen, notDollar⟩
  · rintro ⟨after, rfl, notOpen, notDollar⟩
    rw [scan]
    · exact notDollar
    · exact notOpen

private theorem scan_eq_unterminated_iff (text : List Char) :
    scan text = .unterminated ↔ IsCutShort text := by
  constructor
  · intro scanned
    unfold scan at scanned
    split at scanned <;> try contradiction
    · exact Or.inl rfl
    · exact Or.inr (Or.inl rfl)
    · rename_i inside
      split at scanned
      · contradiction
      · rename_i notClosed
        exact Or.inr (Or.inr ⟨inside, rfl, (closeGroup_eq_none_iff inside).mp notClosed⟩)
  · rintro (rfl | rfl | ⟨inside, rfl, never⟩)
    · rfl
    · rfl
    · rw [scan, (closeGroup_eq_none_iff inside).mpr never]

structure Spells (parts : List Token) (text : List Char) : Prop where
  wellFormed : ∀ token ∈ parts, token.IsWellFormed
  lexemes : parts.flatMap Token.lexeme = text

def IsGrammatical (text : List Char) : Prop :=
  ∃ parts, Spells parts text

private theorem spells_tokens (text : List Char) :
    Spells (tokens text) ((tokens text).flatMap Token.lexeme) := by
  refine ⟨?_, rfl⟩
  induction text using reading_induction with
  | stops text stops =>
      rw [tokens_of_stops stops]
      exact List.forall_mem_nil _
  | token text first rest scanned onRest =>
      rw [tokens_of_token scanned]
      exact List.forall_mem_cons.mpr ⟨isWellFormed_of_scan scanned, onRest⟩

theorem read_append {parts : List Token} {start : List Char} (spelled : Spells parts start)
    (rest : List Char) :
    tokens (start ++ rest) = parts ++ tokens rest ∧ unread (start ++ rest) = unread rest := by
  obtain ⟨wellFormed, rfl⟩ := spelled
  induction parts with
  | nil => exact ⟨rfl, rfl⟩
  | cons first others inductionHypothesis =>
      obtain ⟨here, onOthers⟩ := List.forall_mem_cons.mp wellFormed
      obtain ⟨sameTokens, sameUnread⟩ := inductionHypothesis onOthers
      have scanned := scan_lexeme_append here (others.flatMap Token.lexeme ++ rest)
      rw [List.flatMap_cons, List.append_assoc, tokens_of_token scanned, unread_of_token scanned,
        sameTokens, sameUnread]
      exact ⟨rfl, rfl⟩

/-- A text is put together from tokens in one way at most, and then it can be read to its end. -/
theorem spells_iff {parts : List Token} {text : List Char} :
    Spells parts text ↔ parts = tokens text ∧ IsWhole text := by
  constructor
  · intro spelled
    obtain ⟨sameTokens, sameUnread⟩ := read_append spelled []
    rw [List.append_nil] at sameTokens sameUnread
    have atEnd : Stops [] := stops_of_scan rfl nofun
    rw [tokens_of_stops atEnd, List.append_nil] at sameTokens
    rw [unread_of_stops atEnd] at sameUnread
    exact ⟨sameTokens.symm, sameUnread⟩
  · rintro ⟨rfl, whole⟩
    have all := lexemes_append_unread text
    rw [whole, List.append_nil] at all
    exact ⟨(spells_tokens text).wellFormed, all⟩

/-- What follows the longest part of a text that belongs to the grammar. -/
theorem exists_grammatical_append_iff {kind : List Char → Prop}
    (stops : ∀ cut, kind cut → Stops cut) (text : List Char) :
    (∃ start cut, IsGrammatical start ∧ text = start ++ cut ∧ kind cut) ↔ kind (unread text) := by
  constructor
  · rintro ⟨start, cut, ⟨parts, spelled⟩, rfl, isKind⟩
    rw [(read_append spelled cut).2, unread_of_stops (stops cut isKind)]
    exact isKind
  · intro isKind
    exact ⟨_, unread text, ⟨tokens text, spells_tokens text⟩, (lexemes_append_unread text).symm,
      isKind⟩

def Bindings.undefined : Bindings where
  macros := .empty
  conditional := .empty

private theorem replace_undefined (active : List Reference) (token : Token) :
    Bindings.undefined.replace active token = .text token.meaning := by
  rw [Bindings.replace_eq]
  cases named : token.name? with
  | none => rfl
  | some name =>
      rw [Token.meaning_of_name? named]
      exact Bindings.lookup_of_undefined rfl rfl active

private theorem evaluateRest_undefined (path : List Reference) (text : String) (rest : List Char) :
    Bindings.undefined.evaluateRest path text rest =
      (scan (unread rest)).outcome text (String.join ((tokens rest).map Token.meaning)) := by
  induction rest using reading_induction with
  | stops rest stops =>
      rw [tokens_of_stops stops, unread_of_stops stops]
      exact evaluateRest_of_stops stops _ path text
  | token rest first later scanned onLater =>
      rw [evaluateRest_of_text scanned (replace_undefined path first), onLater,
        tokens_of_token scanned, unread_of_token scanned, List.map_cons, String.join_cons]
      cases scan (unread later) <;> rfl

/-- A dollar sign in the text begins no token, and what stands before it belongs to the grammar. -/
def StraysAt (found : Char) (text : List Char) : Prop :=
  ∃ start cut, IsGrammatical start ∧ text = start ++ cut ∧ IsStray found cut

/-- The last token of the text is not completed, and what stands before it belongs to the grammar. -/
def BreaksOff (text : List Char) : Prop :=
  ∃ start cut, IsGrammatical start ∧ text = start ++ cut ∧ IsCutShort cut

section

variable (text : List Char)

private theorem isGrammatical_iff : IsGrammatical text ↔ scan (unread text) = .finished := by
  constructor
  · rintro ⟨parts, spelled⟩
    rw [(spells_iff.mp spelled).2]
    rfl
  · intro finished
    exact ⟨tokens text, spells_iff.mpr ⟨rfl, eq_nil_of_scan_eq_finished finished⟩⟩

private theorem straysAt_iff (found : Char) :
    StraysAt found text ↔ scan (unread text) = .stray found := by
  rw [scan_eq_stray_iff]
  apply exists_grammatical_append_iff
  intro cut isStray
  exact stops_of_scan ((scan_eq_stray_iff cut found).mpr isStray) nofun

theorem breaksOff_iff : BreaksOff text ↔ scan (unread text) = .unterminated := by
  rw [scan_eq_unterminated_iff]
  apply exists_grammatical_append_iff
  intro cut isCutShort
  exact stops_of_scan ((scan_eq_unterminated_iff cut).mpr isCutShort) nofun

end

/-- Where no macro is defined, a text expands exactly when it is put together from tokens, which it
is in one way at most, and its expansion is what they mean, one after the other. It fails at a dollar
sign that begins no token or within a last token, when all before that belongs to the grammar. One of
the three is so, and never two. -/
theorem expand_reads_grammar (text : String) :
    (∀ output, Bindings.undefined.expand text = .ok output ↔
      ∃ parts, Spells parts text.toList ∧ output = String.join (parts.map Token.meaning)) ∧
    (∀ parts others, Spells parts text.toList → Spells others text.toList → parts = others) ∧
    (∀ found input, Bindings.undefined.expand text = .error (.strayDollar found input) ↔
      input = text ∧ StraysAt found text.toList) ∧
    (∀ input, Bindings.undefined.expand text = .error (.unterminated input) ↔
      input = text ∧ BreaksOff text.toList) ∧
    (IsGrammatical text.toList ∨ (∃ found, StraysAt found text.toList) ∨ BreaksOff text.toList) ∧
    ¬ (IsGrammatical text.toList ∧ ∃ found, StraysAt found text.toList) ∧
    ¬ (IsGrammatical text.toList ∧ BreaksOff text.toList) ∧
    ¬ ((∃ found, StraysAt found text.toList) ∧ BreaksOff text.toList) := by
  have spelledOnce : ∀ parts, Spells parts text.toList ↔
      parts = tokens text.toList ∧ scan (unread text.toList) = .finished := by
    intro parts
    rw [spells_iff, ← isGrammatical_iff]
    constructor
    · rintro ⟨same, whole⟩
      exact ⟨same, tokens text.toList, spells_iff.mpr ⟨rfl, whole⟩⟩
    · rintro ⟨same, _, spelled⟩
      exact ⟨same, (spells_iff.mp spelled).2⟩
  have stops := stops_unread text.toList
  unfold Stops at stops
  rw [expand_eq_evaluateRest, evaluateRest_undefined]
  simp only [isGrammatical_iff, straysAt_iff, breaksOff_iff, spelledOnce]
  generalize scan (unread text.toList) = standing at stops ⊢
  cases standing with
  | token first rest => exact absurd rfl (stops first rest)
  | finished => simp [Scan.outcome, eq_comm]
  | stray found => simp [Scan.outcome, eq_comm, and_comm]
  | unterminated => simp [Scan.outcome, eq_comm]

end DryMake.Expansion
