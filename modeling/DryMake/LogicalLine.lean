import DryMake.Text.Blank

/-!
Logical lines. A physical line whose last character, trailing blanks aside, is a backslash goes on
in the next line; the lines of such a group are joined by single spaces, and the group has the
number of its first line. A line on its own is kept exactly as it is.
-/

namespace DryMake

/-- A line as the grammar sees it, and the number of the physical line at which it starts. -/
structure LogicalLine where
  number : Nat
  text : String
deriving DecidableEq, Repr

namespace LogicalLine

def continued? (line : String) : Option (List Char) :=
  match (Text.trimEnd line.toList).reverse with
  | '\\' :: body => some body.reverse
  | _ => none

def extend (group : LogicalLine) (part : List Char) : LogicalLine :=
  { group with text := group.text ++ " " ++ String.ofList (Text.trim part) }

/-- Joins the physical lines from `number` on, where `pending?` is the group that the line before
has left unfinished. -/
def join (number : Nat) (pending? : Option LogicalLine) : List String → List LogicalLine
  | [] => pending?.toList
  | line :: rest =>
      match pending?, continued? line with
      | none, none => ⟨number, line⟩ :: join (number + 1) none rest
      | none, some body =>
          join (number + 1) (some ⟨number, String.ofList (Text.trimEnd body)⟩) rest
      | some group, none => group.extend line.toList :: join (number + 1) none rest
      | some group, some body => join (number + 1) (some (group.extend body)) rest

def ofPhysical (lines : List String) : List LogicalLine :=
  join 1 none lines

theorem join_of_continued?_eq_none {line : String} (ends : continued? line = none) (number : Nat)
    (rest : List String) :
    join number none (line :: rest) = ⟨number, line⟩ :: join (number + 1) none rest := by
  simp [join, ends]

/-- The group that a file ends in is kept without the part that does not come. -/
theorem join_nil (number : Nat) (pending? : Option LogicalLine) :
    join number pending? [] = pending?.toList := by
  rw [join]

end LogicalLine

end DryMake
