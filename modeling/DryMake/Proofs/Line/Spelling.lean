import DryMake.Proofs.Line.Definition
import DryMake.Proofs.Text.Trimming

/-!
The grammar of lines. A spelling is a way to put a line together from its parts: each shape has its
own, with conditions on the parts, and where a line can be put together in several ways the shape
that comes first in the order of the shapes is meant. So the spelling of a line is unique, and the
shape that is recognised is the one that the spelling says; a line that has no spelling is unknown.
-/

namespace DryMake.Line

inductive Sign where
  | colon
  | colonEquals
  | plusEquals
  | equals

def Sign.text : Sign → List Char
  | colon => [':']
  | colonEquals => [':', '=']
  | plusEquals => ['+', '=']
  | equals => ['=']

/-- The shape of a line with the sign between two sides. Only behind a colon are blanks kept. -/
def Sign.shape (left rest : List Char) : Sign → Line
  | colon => .definition (String.ofList left) (String.ofList rest)
  | colonEquals => .conditional (String.ofList left) (String.ofList (Text.trim rest))
  | plusEquals => .append (String.ofList left) (String.ofList (Text.trim rest))
  | equals => .assign (String.ofList left) (String.ofList (Text.trim rest))

inductive Spelling where
  | comment (rest : List Char)
  | blank (blanks : List Char)
  | inclusion (separator : Char) (rest : List Char)
  | rule (tabs : Nat) (command : List Char)
  | operation (left : List Char) (sign : Sign) (rest : List Char)

namespace Spelling

def text : Spelling → List Char
  | comment rest => '#' :: rest
  | blank blanks => blanks
  | inclusion separator rest => "include".toList ++ separator :: rest
  | rule tabs command => List.replicate tabs '\t' ++ command
  | operation left sign rest => left ++ (sign.text ++ rest)

def shape : Spelling → Line
  | comment _ => .comment
  | blank _ => .blank
  | inclusion _ rest => .inclusion (String.ofList (Text.trim rest))
  | rule _ command => .rule (String.ofList command)
  | operation left sign rest => sign.shape left rest

private theorem shape_ne_unknown (spelling : Spelling) : spelling.shape ≠ .unknown := by
  intro same
  cases spelling with
  | operation left sign rest => cases sign <;> cases same
  | _ => cases same

/-- The order in which shapes are tried. -/
def rank : Spelling → Nat
  | comment _ => 0
  | blank _ => 1
  | inclusion _ _ => 2
  | rule _ _ => 3
  | operation _ _ _ => 4

structure IsLeft (left : List Char) : Prop where
  inked : Text.allBlank left = false
  colonFree : ':' ∉ left
  equalsFree : '=' ∉ left
  plusFree : '+' ∉ left

def IsAdmissible : Spelling → Prop
  | comment _ => True
  | blank blanks => Text.allBlank blanks = true
  | inclusion separator _ => separator = ' ' ∨ separator = '\t'
  | rule tabs command => 0 < tabs ∧ command.head? ≠ some '\t'
  | operation left .colon deps =>
      IsLeft left ∧ deps.head? ≠ some '=' ∧ hasBareEquals 0 false deps = false
  | operation left _ _ => IsLeft left

def NoneBefore (bound : Nat) (line : List Char) : Prop :=
  ∀ spelling : Spelling, spelling.text = line → spelling.IsAdmissible → bound ≤ spelling.rank

/-- The line is put together so, and not in a way that is tried before. -/
structure Spells (spelling : Spelling) (line : String) : Prop where
  same : spelling.text = line.toList
  admissible : spelling.IsAdmissible
  first : NoneBefore spelling.rank line.toList

/-! ### A spelling is unique -/

variable {left rest others : List Char} {sign other : Sign}

private theorem IsLeft.operatorFree (isLeft : IsLeft left) : ∀ c ∈ left, isOperator c = false := by
  intro c member
  have noColon : c ≠ ':' := fun same => isLeft.colonFree (same ▸ member)
  have noEquals : c ≠ '=' := fun same => isLeft.equalsFree (same ▸ member)
  have noPlus : c ≠ '+' := fun same => isLeft.plusFree (same ▸ member)
  simp [isOperator, noColon, noEquals, noPlus]

theorem isLeft_of_operatorFree (inked : Text.allBlank left = false)
    (free : ∀ c ∈ left, isOperator c = false) : IsLeft left where
  inked := inked
  colonFree member := absurd (free _ member) (by decide)
  equalsFree member := absurd (free _ member) (by decide)
  plusFree member := absurd (free _ member) (by decide)

private theorem isLeft_of_isAdmissible (admissible : (operation left sign rest).IsAdmissible) :
    IsLeft left := by
  cases sign with
  | colon => exact admissible.1
  | colonEquals | plusEquals | equals => exact admissible

/-- A line is cut at its first operator character, and that is where the sign begins. -/
theorem cut_of_isAdmissible (admissible : (operation left sign rest).IsAdmissible) :
    lhs (operation left sign rest).text = left ∧
      operatorAndRest (operation left sign rest).text = sign.text ++ rest := by
  have free := (isLeft_of_isAdmissible admissible).operatorFree
  cases sign with
  | colon | colonEquals | plusEquals | equals =>
      exact ⟨lhs_append_cons free rfl _, operatorAndRest_append_cons free rfl _⟩

theorem sign_eq_of_text_eq (admissible : (operation left sign rest).IsAdmissible)
    (otherAdmissible : (operation left other others).IsAdmissible)
    (same : sign.text ++ rest = other.text ++ others) : sign = other ∧ rest = others := by
  cases sign with
  | colon =>
      cases other with
      | colon => exact ⟨rfl, (List.cons.inj same).2⟩
      | colonEquals =>
          obtain rfl := (List.cons.inj same).2
          exact absurd rfl admissible.2.1
      | plusEquals | equals => cases same
  | colonEquals =>
      cases other with
      | colon =>
          obtain rfl := (List.cons.inj same).2
          exact absurd rfl otherAdmissible.2.1
      | colonEquals => exact ⟨rfl, List.append_cancel_left same⟩
      | plusEquals | equals => cases same
  | plusEquals =>
      cases other with
      | plusEquals => exact ⟨rfl, List.append_cancel_left same⟩
      | colon | colonEquals | equals => cases same
  | equals =>
      cases other with
      | equals => exact ⟨rfl, (List.cons.inj same).2⟩
      | colon | colonEquals | plusEquals => cases same

theorem dropWhile_rule {tabs : Nat} {command : List Char} (apart : command.head? ≠ some '\t') :
    (List.replicate tabs '\t' ++ command).dropWhile (· == '\t') = command := by
  rw [List.dropWhile_append_of_pos fun c member => by simp [List.eq_of_mem_replicate member]]
  cases command with
  | nil => rfl
  | cons first rest => exact List.dropWhile_cons_of_neg (by simpa using apart)

private theorem eq_of_rank_eq {spelling another : Spelling} (admissible : spelling.IsAdmissible)
    (otherAdmissible : another.IsAdmissible) (sameText : spelling.text = another.text)
    (sameRank : spelling.rank = another.rank) : spelling = another := by
  cases spelling with
  | comment rest =>
      cases another with
      | comment others => rw [(List.cons.inj sameText).2]
      | _ => cases sameRank
  | blank blanks =>
      cases another with
      | blank others => exact congrArg blank sameText
      | _ => cases sameRank
  | inclusion separator rest =>
      cases another with
      | inclusion otherSeparator others =>
          obtain ⟨rfl, rfl⟩ := List.cons.inj (List.append_cancel_left sameText)
          rfl
      | _ => cases sameRank
  | rule tabs command =>
      cases another with
      | rule number others =>
          dsimp only [text] at sameText
          have sameCommand := congrArg (List.dropWhile (· == '\t')) sameText
          rw [dropWhile_rule admissible.2, dropWhile_rule otherAdmissible.2] at sameCommand
          rw [sameCommand] at sameText ⊢
          have sameTabs := congrArg List.length (List.append_cancel_right sameText)
          rw [List.length_replicate, List.length_replicate] at sameTabs
          rw [sameTabs]
      | _ => cases sameRank
  | operation left sign rest =>
      cases another with
      | operation otherLeft other others =>
          obtain ⟨isLhs, isRest⟩ := cut_of_isAdmissible admissible
          obtain ⟨isOtherLhs, isOtherRest⟩ := cut_of_isAdmissible otherAdmissible
          rw [sameText] at isLhs isRest
          obtain rfl := isLhs.symm.trans isOtherLhs
          obtain ⟨rfl, rfl⟩ :=
            sign_eq_of_text_eq admissible otherAdmissible (isRest.symm.trans isOtherRest)
          rfl
      | _ => cases sameRank

private theorem eq_of_spells {spelling another : Spelling} {line : String}
    (spells : spelling.Spells line) (otherSpells : another.Spells line) :
    spelling = another := by
  apply eq_of_rank_eq spells.admissible otherSpells.admissible
  · exact spells.same.trans otherSpells.same.symm
  · apply Nat.le_antisymm
    · exact spells.first another otherSpells.same otherSpells.admissible
    · exact otherSpells.first spelling spells.same spells.admissible

/-- Of the ways to put a line together one is tried first. -/
theorem exists_spells {spelling : Spelling} {line : String} (same : spelling.text = line.toList)
    (admissible : spelling.IsAdmissible) : ∃ first : Spelling, first.Spells line := by
  obtain ⟨first, ⟨isSame, isAdmissible⟩, least⟩ :=
    WellFounded.has_min (measure rank).wf
      {spelling | spelling.text = line.toList ∧ spelling.IsAdmissible} ⟨spelling, same, admissible⟩
  refine ⟨first, isSame, isAdmissible, ?_⟩
  intro other otherSame otherAdmissible
  exact Nat.le_of_not_lt (least other ⟨otherSame, otherAdmissible⟩)

/-! ### The recogniser -/

section

variable {bound : Nat} {line : List Char}

private theorem NoneBefore.notComment (noneBefore : NoneBefore bound line) (later : 0 < bound) :
    line.head? ≠ some '#' := by
  intro starts
  obtain ⟨rest, rfl⟩ := List.head?_eq_some_iff.mp starts
  exact absurd (noneBefore (comment rest) rfl trivial) (Nat.not_le.mpr later)

private theorem NoneBefore.inked (noneBefore : NoneBefore bound line) (later : 1 < bound) :
    Text.allBlank line = false := by
  apply Bool.eq_false_iff.mpr
  intro allBlank
  exact absurd (noneBefore (blank line) rfl allBlank) (Nat.not_le.mpr later)

private theorem NoneBefore.notInclusion (noneBefore : NoneBefore bound line) (later : 2 < bound) :
    inclusionOperand? line = none := by
  apply (inclusionOperand?_eq_none_iff line).mpr
  intro separator rest same
  apply not_or.mp
  intro separates
  exact absurd (noneBefore (inclusion separator rest) same.symm separates) (Nat.not_le.mpr later)

private theorem exists_rule (rest : List Char) :
    ∃ tabs command, (rule tabs command).text = '\t' :: rest ∧ (rule tabs command).IsAdmissible := by
  have onlyTabs : rest.takeWhile (· == '\t') =
      List.replicate (rest.takeWhile (· == '\t')).length '\t' := by
    apply List.eq_replicate_of_mem
    intro c member
    simpa using List.mem_takeWhile_imp member
  refine ⟨(rest.takeWhile (· == '\t')).length + 1, rest.dropWhile (· == '\t'), ?_, ?_⟩
  · dsimp only [text]
    rw [List.replicate_succ, List.cons_append, ← onlyTabs, List.takeWhile_append_dropWhile]
  · refine ⟨Nat.succ_pos _, ?_⟩
    intro starts
    have notTab := List.head?_dropWhile_not (· == '\t') rest
    rw [starts] at notTab
    exact absurd notTab (by decide)

private theorem NoneBefore.notRule (noneBefore : NoneBefore bound line) (later : 3 < bound) :
    line.head? ≠ some '\t' := by
  intro starts
  obtain ⟨rest, rfl⟩ := List.head?_eq_some_iff.mp starts
  obtain ⟨tabs, command, same, admissible⟩ := exists_rule rest
  exact absurd (noneBefore _ same admissible) (Nat.not_le.mpr later)

private theorem NoneBefore.ofChars_eq (noneBefore : NoneBefore bound line) (later : 3 < bound) :
    ofChars line = ofOperator line := by
  apply ofChars_eq_ofOperator
  · exact noneBefore.inked (by omega)
  · exact noneBefore.notComment (by omega)
  · exact noneBefore.notRule later
  · exact noneBefore.notInclusion (by omega)

end

theorem ofOperator_text (admissible : (operation left sign rest).IsAdmissible) :
    ofOperator (operation left sign rest).text = sign.shape left rest := by
  obtain ⟨isLhs, isRest⟩ := cut_of_isAdmissible admissible
  have isLeft := isLeft_of_isAdmissible admissible
  cases sign with
  | colon =>
      apply ofOperator_eq_definition_iff.mpr
      exact ⟨rfl, isLeft.inked, isLeft.operatorFree, admissible.2.2⟩
  | colonEquals | plusEquals | equals =>
      rw [ofOperator, isLhs, isRest, isLeft.inked, if_neg Bool.false_ne_true]
      rfl

theorem exists_operation {line : List Char} (known : ofOperator line ≠ .unknown) :
    ∃ left sign rest, (operation left sign rest).text = line ∧
      (operation left sign rest).IsAdmissible := by
  have cut_with : ∀ {rest}, operatorAndRest line = rest → lhs line ++ rest = line := by
    intro rest operator
    rw [← operator, lhs_append_operator]
  unfold ofOperator at known
  dsimp only at known
  split at known
  · exact absurd rfl known
  · rename_i inked
    have isLeft : IsLeft (lhs line) :=
      isLeft_of_operatorFree (Bool.eq_false_iff.mpr inked) fun c => isOperator_of_mem_lhs
    split at known
    · rename_i rest operator
      exact ⟨lhs line, .colonEquals, rest, cut_with operator, isLeft⟩
    · rename_i deps noEquals operator
      split at known
      · exact absurd rfl known
      · rename_i noneBare
        have noneFound := Bool.eq_false_iff.mpr noneBare
        refine ⟨lhs line, .colon, deps, cut_with operator, isLeft, ?_, noneFound⟩
        intro starts
        obtain ⟨rest, rfl⟩ := List.head?_eq_some_iff.mp starts
        exact noEquals rest rfl
    · rename_i rest operator
      exact ⟨lhs line, .plusEquals, rest, cut_with operator, isLeft⟩
    · rename_i rest operator
      exact ⟨lhs line, .equals, rest, cut_with operator, isLeft⟩
    · exact absurd rfl known

private theorem ofChars_eq_blank {line : List Char} (notComment : line.head? ≠ some '#')
    (allBlank : Text.allBlank line = true) : ofChars line = .blank := by
  unfold ofChars
  split
  · exact absurd rfl notComment
  · exact if_pos allBlank

private theorem ofChars_eq_inclusion {separator : Char} {rest : List Char}
    (inked : Text.allBlank (inclusion separator rest).text = false)
    (admissible : (inclusion separator rest).IsAdmissible) :
    ofChars (inclusion separator rest).text = (inclusion separator rest).shape := by
  have operand : inclusionOperand? (inclusion separator rest).text =
      some (Text.trim (separator :: rest)) := if_pos admissible
  have blank : Text.isBlank separator = true := by
    cases admissible with
    | inl same => rw [same]; rfl
    | inr same => rw [same]; rfl
  rw [Text.trim_cons_blank blank] at operand
  unfold ofChars
  split
  · rename_i same
    cases same
  · rw [inked, if_neg Bool.false_ne_true, operand]
    rfl

private theorem ofChars_eq_rule {tabs : Nat} {command : List Char}
    (inked : Text.allBlank (rule tabs command).text = false)
    (notInclusion : inclusionOperand? (rule tabs command).text = none)
    (admissible : (rule tabs command).IsAdmissible) :
    ofChars (rule tabs command).text = (rule tabs command).shape := by
  obtain ⟨positive, apart⟩ := admissible
  obtain ⟨others, rfl⟩ := Nat.exists_eq_succ_of_ne_zero (Nat.ne_of_gt positive)
  have begins : (rule (others + 1) command).text =
      '\t' :: (List.replicate others '\t' ++ command) := rfl
  rw [begins] at inked notInclusion ⊢
  unfold ofChars
  split
  · rename_i same
    cases same
  · rw [inked, if_neg Bool.false_ne_true, notInclusion]
    exact congrArg (fun found => Line.rule (String.ofList found)) (dropWhile_rule apart)

private theorem Spells.ofString_eq {spelling : Spelling} {line : String}
    (spells : spelling.Spells line) :
    ofString line = spelling.shape := by
  obtain ⟨same, admissible, first⟩ := spells
  rw [ofString, ← same]
  rw [← same] at first
  cases spelling with
  | comment rest => rfl
  | blank blanks => exact ofChars_eq_blank (first.notComment Nat.one_pos) admissible
  | inclusion separator rest =>
      exact ofChars_eq_inclusion (first.inked (Nat.lt_succ_self 1)) admissible
  | rule tabs command =>
      have inked := first.inked (Nat.lt_add_of_pos_left (n := 1) Nat.two_pos)
      exact ofChars_eq_rule inked (first.notInclusion (Nat.lt_succ_self 2)) admissible
  | operation left sign rest =>
      rw [first.ofChars_eq (Nat.lt_succ_self 3)]
      exact ofOperator_text admissible

private theorem exists_spells_of_known {line : String} (known : ofString line ≠ .unknown) :
    ∃ spelling : Spelling, spelling.Spells line := by
  apply Classical.byContradiction
  intro none
  have noneBefore : NoneBefore 5 line.toList := by
    intro spelling same admissible
    exact absurd (exists_spells same admissible) none
  rw [ofString, noneBefore.ofChars_eq (by decide)] at known
  obtain ⟨left, sign, rest, same, admissible⟩ := exists_operation known
  exact none (exists_spells same admissible)

end Spelling

/-- The recogniser accepts the grammar of lines. Among the ways to put a line together that are tried
at the same time there is one at most, and so a line has one spelling at most. A shape is recognised
just when the line has a spelling of this shape, and what has none is unknown. -/
theorem ofString_iff_spells (line : String) :
    (∀ spelling another : Spelling, spelling.text = line.toList → another.text = line.toList →
      spelling.IsAdmissible → another.IsAdmissible → spelling.rank = another.rank →
        spelling = another) ∧
    (∀ spelling another : Spelling, spelling.Spells line → another.Spells line →
      spelling = another) ∧
    ∀ shape, ofString line = shape ↔
      (∃ spelling : Spelling, spelling.Spells line ∧ spelling.shape = shape) ∨
        (shape = .unknown ∧ ∀ spelling : Spelling, ¬ spelling.Spells line) := by
  refine ⟨?_, ?_, ?_⟩
  · intro spelling another same otherSame admissible otherAdmissible
    exact Spelling.eq_of_rank_eq admissible otherAdmissible (same.trans otherSame.symm)
  · intro spelling another spells otherSpells
    exact Spelling.eq_of_spells spells otherSpells
  intro shape
  constructor
  · intro recognised
    by_cases spelled : ∃ spelling : Spelling, spelling.Spells line
    · obtain ⟨spelling, spells⟩ := spelled
      exact Or.inl ⟨spelling, spells, spells.ofString_eq.symm.trans recognised⟩
    · right
      constructor
      · apply Classical.byContradiction
        intro known
        exact spelled (Spelling.exists_spells_of_known (recognised ▸ known))
      · exact not_exists.mp spelled
  · intro meant
    cases meant with
    | inl spelled =>
        obtain ⟨spelling, spells, rfl⟩ := spelled
        exact spells.ofString_eq
    | inr unspelled =>
        obtain ⟨rfl, none⟩ := unspelled
        apply Classical.byContradiction
        intro known
        obtain ⟨spelling, spells⟩ := Spelling.exists_spells_of_known known
        exact none spelling spells

theorem ofString_iff_spells_inclusion :
    (∀ spelling : Spelling,
      spelling.Spells "include a = b" ↔ spelling = .inclusion ' ' "a = b".toList) ∧
    ∀ spelling : Spelling, ¬ spelling.Spells "a+b = c" := by
  constructor
  · have recognised : ofString "include a = b" = .inclusion "a = b" := by cbv
    obtain ⟨-, unique, shapes⟩ := ofString_iff_spells "include a = b"
    have spelled : Spelling.Spells (.inclusion ' ' "a = b".toList) "include a = b" := by
      cases (shapes _).mp recognised with
      | inr unspelled => cases unspelled.1
      | inl spelled =>
          obtain ⟨spelling, spells, isShape⟩ := spelled
          cases spelling with
          | inclusion separator rest =>
              have same : "include".toList ++ separator :: rest =
                  "include".toList ++ ' ' :: "a = b".toList := spells.same
              obtain ⟨rfl, rfl⟩ := List.cons.inj (List.append_cancel_left same)
              exact spells
          | operation left sign rest => cases sign <;> cases isShape
          | _ => cases isShape
    intro spelling
    constructor
    · intro spells
      exact unique spelling _ spells spelled
    · intro same
      exact same ▸ spelled
  · have recognised : ofString "a+b = c" = .unknown := by cbv
    obtain ⟨-, -, shapes⟩ := ofString_iff_spells "a+b = c"
    cases (shapes _).mp recognised with
    | inl spelled =>
        obtain ⟨spelling, -, isShape⟩ := spelled
        exact absurd isShape spelling.shape_ne_unknown
    | inr unspelled => exact unspelled.2

end DryMake.Line
