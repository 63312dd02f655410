import DryMake.Text.Blank

/-!
The shapes of a makefile line. A line is a comment, is blank, names a file to include, is a rule
after one or more tabs, or is cut at its first operator character, a colon, an equals sign or a plus
sign, into a definition or one of three kinds of assignment. A line of no shape is kept as unknown.
-/

namespace DryMake

/-- The shape of a line, with its parts as they are written. -/
inductive Line where
  | blank
  | comment
  | inclusion (operand : String)
  | rule (command : String)
  | definition (targets deps : String)
  | conditional (targets assignment : String)
  | append (name value : String)
  | assign (name value : String)
  | unknown
deriving DecidableEq, Repr

namespace Line

def inclusionOperand? (line : List Char) : Option (List Char) :=
  match line with
  | 'i' :: 'n' :: 'c' :: 'l' :: 'u' :: 'd' :: 'e' :: separator :: rest =>
      if separator = ' ' ∨ separator = '\t' then some (Text.trim (separator :: rest)) else none
  | _ => none

def isOperator (c : Char) : Bool :=
  c == ':' || c == '=' || c == '+'

def lhs (line : List Char) : List Char :=
  line.takeWhile fun c => !isOperator c

def operatorAndRest (line : List Char) : List Char :=
  line.dropWhile fun c => !isOperator c

/-- Whether a text has an equals sign outside of every group, where `depth` groups and parentheses
are open and `afterDollar` tells whether a dollar sign is just before the text. -/
def hasBareEquals (depth : Nat) (afterDollar : Bool) : List Char → Bool
  | [] => false
  | '(' :: rest => hasBareEquals (if afterDollar || depth != 0 then depth + 1 else depth) false rest
  | ')' :: rest => hasBareEquals (depth - 1) false rest
  | '=' :: rest => depth == 0 || hasBareEquals depth false rest
  | c :: rest => hasBareEquals depth (c == '$') rest

def ofOperator (line : List Char) : Line :=
  let left := lhs line
  if Text.allBlank left then unknown
  else
    match operatorAndRest line with
    | ':' :: '=' :: rest => conditional (String.ofList left) (String.ofList (Text.trim rest))
    | ':' :: deps =>
        if hasBareEquals 0 false deps then unknown
        else definition (String.ofList left) (String.ofList deps)
    | '+' :: '=' :: rest => append (String.ofList left) (String.ofList (Text.trim rest))
    | '=' :: rest => assign (String.ofList left) (String.ofList (Text.trim rest))
    | _ => unknown

def ofChars (line : List Char) : Line :=
  match line with
  | '#' :: _ => comment
  | _ =>
      if Text.allBlank line then blank
      else
        match inclusionOperand? line with
        | some operand => inclusion (String.ofList operand)
        | none =>
            match line with
            | '\t' :: rest => rule (String.ofList (rest.dropWhile (· == '\t')))
            | _ => ofOperator line

def ofString (line : String) : Line :=
  ofChars line.toList

theorem lhs_append_operator (line : List Char) : lhs line ++ operatorAndRest line = line :=
  List.takeWhile_append_dropWhile

theorem isOperator_of_mem_lhs {line : List Char} {c : Char} (member : c ∈ lhs line) :
    isOperator c = false := by
  have passed := List.all_takeWhile (p := fun c => !isOperator c) (l := line)
  have kept := List.all_eq_true.mp passed c member
  simpa using kept

end Line

end DryMake
