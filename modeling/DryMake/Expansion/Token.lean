/-!
The tokens of a text with macro references. A backslash takes the character after it, whatever that
is; two dollar signs stand for one; a dollar sign and a group in balanced parentheses refer to the
macro that the group names; any other character stands for itself.
-/

namespace DryMake.Expansion

inductive Token where
  | plain (character : Char)
  | escaped (character : Char)
  | dollar
  | group (body : List Char)
deriving DecidableEq, Repr

namespace Token

def lexeme : Token → List Char
  | plain character => [character]
  | escaped character => ['\\', character]
  | dollar => ['$', '$']
  | group body => '$' :: '(' :: (body ++ [')'])

end Token

/-- What stands at the start of a text. -/
inductive Scan where
  | finished
  | token (first : Token) (rest : List Char)
  /-- A dollar sign with a character after it that begins no token. -/
  | stray (found : Char)
  | unterminated
deriving DecidableEq, Repr

/-- Splits a text at the parenthesis that closes a group. `depth` parentheses within the group are
open, and `body` holds the characters of the group so far, the last one first. -/
def closeGroup (depth : Nat) (body : List Char) : List Char → Option (List Char × List Char)
  | [] => none
  | ')' :: rest =>
      match depth with
      | 0 => some (body.reverse, rest)
      | outer + 1 => closeGroup outer (')' :: body) rest
  | '(' :: rest => closeGroup (depth + 1) ('(' :: body) rest
  | character :: rest => closeGroup depth (character :: body) rest

def scan : List Char → Scan
  | [] => .finished
  | ['\\'] => .unterminated
  | '\\' :: character :: rest => .token (.escaped character) rest
  | ['$'] => .unterminated
  | '$' :: '$' :: rest => .token .dollar rest
  | '$' :: '(' :: rest =>
      match closeGroup 0 [] rest with
      | some (body, rest) => .token (.group body) rest
      | none => .unterminated
  | '$' :: found :: _ => .stray found
  | character :: rest => .token (.plain character) rest

theorem closeGroup_append {depth : Nat} {before text body rest : List Char}
    (closed : closeGroup depth before text = some (body, rest)) :
    before.reverse ++ text = body ++ ')' :: rest := by
  induction text generalizing depth before with
  | nil => simp [closeGroup] at closed
  | cons first others inductionHypothesis =>
      unfold closeGroup at closed
      split at closed
      · contradiction
      · rename_i same
        injection same with firstEq othersEq
        subst firstEq othersEq
        split at closed
        · injection closed with pair
          injection pair with bodyEq restEq
          rw [bodyEq, restEq]
        · simpa using inductionHypothesis closed
      · rename_i same
        injection same with firstEq othersEq
        subst firstEq othersEq
        simpa using inductionHypothesis closed
      · rename_i same
        injection same with firstEq othersEq
        subst firstEq othersEq
        simpa using inductionHypothesis closed

theorem scan_cons_of_literal {c : Char} (notDollar : c ≠ '$') (notBackslash : c ≠ '\\')
    (rest : List Char) : scan (c :: rest) = .token (.plain c) rest := by
  unfold scan
  split <;> simp_all

theorem lexeme_append_of_scan {text rest : List Char} {first : Token}
    (scanned : scan text = .token first rest) : text = first.lexeme ++ rest := by
  unfold scan at scanned
  split at scanned <;> try contradiction
  · cases scanned; rfl
  · cases scanned; rfl
  · split at scanned
    · rename_i closed
      cases scanned
      have whole := closeGroup_append closed
      simp only [List.reverse_nil, List.nil_append] at whole
      simp [Token.lexeme, whole]
    · contradiction
  · cases scanned; rfl

theorem eq_nil_of_scan_eq_finished {text : List Char} (scanned : scan text = .finished) :
    text = [] := by
  unfold scan at scanned
  split at scanned <;> try contradiction
  · rfl
  · split at scanned <;> contradiction

theorem scan_eq_finished_iff (text : List Char) : scan text = .finished ↔ text = [] := by
  constructor
  · exact eq_nil_of_scan_eq_finished
  · rintro rfl
    rfl

theorem length_rest_lt_of_scan {text rest : List Char} {first : Token}
    (scanned : scan text = .token first rest) : rest.length < text.length := by
  rw [lexeme_append_of_scan scanned, List.length_append]
  cases first <;> simp [Token.lexeme]

end DryMake.Expansion
