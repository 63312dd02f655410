import DryMake.Proofs.Reading.Move
import Mathlib

/-!
Effects that succeed alike. Where a line stands, and in which file, is told only when it fails, so
lines of the same texts succeed alike. An assignment does the same whatever is open, and leaves it
open; a line of no effect does nothing at all.
-/

namespace DryMake

namespace Line

def isAssignment : Line → Bool
  | conditional .. => true
  | append .. => true
  | assign .. => true
  | _ => false

def isRule : Line → Bool
  | rule _ => true
  | _ => false

def isDefinition : Line → Bool
  | definition .. => true
  | _ => false

def isInclusion : Line → Bool
  | inclusion _ => true
  | _ => false

theorem exists_eq_rule {line : Line} (isRule : line.isRule = true) :
    ∃ command, line = .rule command := by
  cases line with
  | rule command => exact ⟨command, rfl⟩
  | _ => cases isRule

end Line

namespace Effect

variable {Value Middle Result : Type}

/-- The effects succeed on the same databases, with the same values and the same databases after
them. How they fail is left open. -/
def Agree (effect other : Effect Value) : Prop :=
  ∀ database value later,
    effect database = (.ok value, later) ↔ other database = (.ok value, later)

theorem agree_refl (effect : Effect Value) : Agree effect effect :=
  fun _ _ _ => Iff.rfl

theorem Agree.trans {first second third : Effect Value} (before : Agree first second)
    (after : Agree second third) : Agree first third :=
  fun database value later => (before database value later).trans (after database value later)

private theorem agree_fail (failure other : ReadError) :
    Agree (fail failure : Effect Value) (fail other) := by
  intro database value later
  constructor <;> nofun

theorem Agree.andThen {first firstOther : Effect Value} {next nextOther : Value → Effect Result}
    (before : Agree first firstOther) (after : ∀ value, Agree (next value) (nextOther value)) :
    Agree (first.andThen next) (firstOther.andThen nextOther) := by
  intro database value later
  rw [andThen_eq_ok_iff, andThen_eq_ok_iff]
  apply exists₂_congr
  intro middle between
  exact and_congr (before database middle between) (after middle between value later)

theorem agree_andThen_fail (first : Effect Value) (failure other : ReadError) :
    Agree (first.andThen fun _ => (fail failure : Effect Result)) (fail other) := by
  intro database value later
  constructor
  · intro succeeded
    obtain ⟨_, _, _, impossible⟩ := andThen_eq_ok_iff.mp succeeded
    cases impossible
  · nofun

theorem andThen_assoc (first : Effect Value) (next : Value → Effect Middle)
    (last : Middle → Effect Result) :
    (first.andThen next).andThen last = first.andThen fun value => (next value).andThen last := by
  funext database
  unfold andThen
  cases first database with
  | mk result between => cases result <;> rfl

theorem pure_andThen (value : Value) (next : Value → Effect Result) :
    (pure value).andThen next = next value :=
  rfl

variable {base? : Option Path} {included : Location → Path → Effect Unit}

/-- Where a line stands is told only when it fails. -/
theorem agree_ofLine
    (agree : ∀ location other path, Agree (included location path) (included other path))
    (file otherFile : Path) (open? : Option Definition) {line other : LogicalLine}
    (sameText : line.text = other.text) :
    Agree (ofLine base? included file open? line)
      (ofLine base? included otherFile open? other) := by
  intro database next later
  obtain ⟨action, move⟩ := exists_move base? file open? line database
  rw [move.ofLine_eq, (move.elsewhere otherFile _ sameText.symm database rfl).ofLine_eq]
  cases action with
  | goOn | begin | update => exact Iff.rfl
  | enter path =>
      have inFile := agree ⟨file, line.number⟩ ⟨otherFile, other.number⟩ path
      exact ((agree_refl (close open?)).andThen fun _ => inFile.andThen fun _ =>
        agree_refl (pure none)) database next later
  | refuse closes failure => constructor <;> nofun

theorem agree_ofLines
    (agree : ∀ location other path, Agree (included location path) (included other path))
    (file otherFile : Path) (open? : Option Definition) {lines others : List LogicalLine}
    (sameTexts : lines.map LogicalLine.text = others.map LogicalLine.text) :
    Agree (ofLines base? included file open? lines)
      (ofLines base? included otherFile open? others) := by
  induction lines generalizing open? others with
  | nil =>
      rw [List.map_nil, eq_comm, List.map_eq_nil_iff] at sameTexts
      rw [sameTexts]
      exact agree_refl _
  | cons line rest inductionHypothesis =>
      obtain ⟨other, further, rfl, sameText, onRest⟩ := List.map_eq_cons_iff.mp sameTexts.symm
      exact (agree_ofLine agree file otherFile open? sameText.symm).andThen fun next =>
        inductionHypothesis next onRest.symm

theorem Agree.ofLines_append {file : Path} {lines others : List LogicalLine}
    (agree : ∀ open?, Agree (ofLines base? included file open? lines)
      (ofLines base? included file open? others))
    (before : List LogicalLine) (open? : Option Definition) :
    Agree (ofLines base? included file open? (before ++ lines))
      (ofLines base? included file open? (before ++ others)) := by
  induction before generalizing open? with
  | nil => exact agree open?
  | cons line rest inductionHypothesis =>
      exact (agree_refl _).andThen inductionHypothesis

def ofAssignment (file : Path) (line : LogicalLine) : Effect Unit :=
  (ofLine none (fun _ _ => pure ()) file none line).andThen fun _ => pure ()

section

variable {file : Path} {line : LogicalLine} {open? : Option Definition}

private theorem ofLine_of_isIdle (idle : (Line.ofString line.text).isIdle = true) :
    ofLine base? included file open? line = pure open? := by
  cases shape : Line.ofString line.text with
  | blank | comment | unknown => simp only [ofLine, shape]
  | _ =>
      rw [shape] at idle
      cases idle

private theorem ofLine_of_isAssignment (assigns : (Line.ofString line.text).isAssignment = true) :
    ofLine base? included file open? line = (ofAssignment file line).andThen fun _ => pure open? := by
  unfold ofAssignment
  rw [andThen_assoc]
  cases shape : Line.ofString line.text with
  | conditional targets assignment =>
      simp only [ofLine, shape]
      cases Reader.splitAssignment assignment with
      | none => rfl
      | some sides => simp only [andThen_assoc, pure_andThen]
  | append name value => simp only [ofLine, shape, andThen_assoc, pure_andThen]
  | assign name value =>
      simp only [ofLine, shape, andThen_assoc]
      apply congrArg (andThen _)
      funext name
      split
      · rfl
      · simp only [andThen_assoc, pure_andThen]
  | _ =>
      rw [shape] at assigns
      cases assigns

theorem ofLines_cons_of_isIdle (idle : (Line.ofString line.text).isIdle = true)
    (rest : List LogicalLine) :
    ofLines base? included file open? (line :: rest) = ofLines base? included file open? rest := by
  rw [ofLines, ofLine_of_isIdle idle, pure_andThen]

theorem ofLines_cons_of_isAssignment (assigns : (Line.ofString line.text).isAssignment = true)
    (rest : List LogicalLine) :
    ofLines base? included file open? (line :: rest) =
      (ofAssignment file line).andThen fun _ => ofLines base? included file open? rest := by
  rw [ofLines, ofLine_of_isAssignment assigns, andThen_assoc]
  rfl

end

end Effect

namespace Reader

theorem agree_included (reader : Reader) (chain : List Path) (location other : Location)
    (path : Path) :
    Effect.Agree (reader.included chain location path) (reader.included chain other path) := by
  rcases reader.included_cases chain path with missing | cycle | ⟨contents, _, _, reads⟩
  · rw [missing, missing]
    exact Effect.agree_fail _ _
  · rw [cycle, cycle]
    exact Effect.agree_fail _ _
  · rw [reads, reads]
    exact Effect.agree_refl _

end Reader

end DryMake
