import DryMake.Expansion

/-!
Expansion as plain recursion. The evaluator reads a text token by token, and evaluates the value of a
macro where the macro is named. It keeps no stack, only the path of references that led to the text at
hand.
-/

namespace DryMake.Expansion

private theorem unused_conditional_lt {bindings : Bindings} {path : List Reference}
    {name value : String}
    (found : (if ⟨.conditional, name⟩ ∈ path then none else bindings.conditional.get? name) =
      some value) :
    Budget.unused bindings.references (⟨.conditional, name⟩ :: path) <
      Budget.unused bindings.references path := by
  split at found
  · contradiction
  · rename_i fresh
    have member : (⟨.conditional, name⟩ : Reference) ∈ bindings.references :=
      Bindings.mem_references found
    exact Budget.unused_cons_lt member fresh

private theorem unused_global_lt {bindings : Bindings} {path : List Reference}
    {name value : String} (found : bindings.macros.value? name = some value)
    (fresh : (⟨.global, name⟩ : Reference) ∉ path) :
    Budget.unused bindings.references (⟨.global, name⟩ :: path) <
      Budget.unused bindings.references path := by
  have member : (⟨.global, name⟩ : Reference) ∈ bindings.references :=
    Bindings.mem_references found
  exact Budget.unused_cons_lt member fresh

mutual

/-- The expansion of the unread part of a text to which `path` led. -/
def Bindings.evaluateRest (bindings : Bindings) (path : List Reference) (text : String)
    (rest : List Char) : Except ExpansionError String :=
  match _scanned : scan rest with
  | .finished => .ok ""
  | .stray found => .error (.strayDollar found text)
  | .unterminated => .error (.unterminated text)
  | .token first later => do
      let head ← bindings.evaluateToken path first
      let tail ← bindings.evaluateRest path text later
      return head ++ tail
termination_by (Budget.unused bindings.references path, rest.length)
decreasing_by
  · have shorter := length_rest_lt_of_scan _scanned
    exact Prod.Lex.right _ (by omega)
  · exact Prod.Lex.right _ (length_rest_lt_of_scan _scanned)

def Bindings.evaluateToken (bindings : Bindings) (path : List Reference) :
    Token → Except ExpansionError String
  | .plain c => .ok (String.ofList [c])
  | .escaped c => .ok (String.ofList (if c = '$' ∨ c = '\\' then [c] else ['\\', c]))
  | .dollar => .ok "$"
  | .group body =>
      let name := String.ofList body
      if ':' ∈ body ∨ '%' ∈ body then .ok ("$(" ++ name ++ ")")
      else
        match _inner : if ⟨.conditional, name⟩ ∈ path then none
            else bindings.conditional.get? name with
        | some value => bindings.evaluateRest (⟨.conditional, name⟩ :: path) value value.toList
        | none =>
            match _outer : bindings.macros.value? name with
            | none => .ok ""
            | some value =>
                if _onPath : ⟨.global, name⟩ ∈ path then .error (.recursive name)
                else bindings.evaluateRest (⟨.global, name⟩ :: path) value value.toList
termination_by (Budget.unused bindings.references path, 0)
decreasing_by
  · exact Prod.Lex.left _ _ (unused_conditional_lt _inner)
  · exact Prod.Lex.left _ _ (unused_global_lt _outer _onPath)

end

def Bindings.evaluate (bindings : Bindings) (path : List Reference) (text : String) :
    Except ExpansionError String :=
  bindings.evaluateRest path text text.toList

theorem isPattern_iff (body : List Char) : isPattern body = true ↔ ':' ∈ body ∨ '%' ∈ body := by
  simp [isPattern, and_or_left, exists_or]

theorem evaluateToken_eq (bindings : Bindings) (path : List Reference) (token : Token) :
    bindings.evaluateToken path token =
      match bindings.replace path token with
      | .text text => .ok text
      | .recursive name => .error (.recursive name)
      | .value reference value =>
          bindings.evaluateRest (reference :: path) value value.toList := by
  cases token with
  | plain c => rw [Bindings.evaluateToken, Bindings.replace]
  | escaped c => rw [Bindings.evaluateToken, Bindings.replace]
  | dollar => rw [Bindings.evaluateToken, Bindings.replace]
  | group body =>
      rw [Bindings.evaluateToken, Bindings.replace]
      by_cases copied : ':' ∈ body ∨ '%' ∈ body
      · rw [if_pos copied, if_pos ((isPattern_iff body).mpr copied)]
      · rw [if_neg copied, if_neg (mt (isPattern_iff body).mp copied)]
        generalize String.ofList body = name
        unfold Bindings.lookup
        split
        · rename_i value inner
          rw [inner]
        · rename_i inner
          rw [inner]
          split
          · rename_i outer
            rw [outer]
          · rename_i value outer
            rw [outer]
            by_cases onPath : (⟨.global, name⟩ : Reference) ∈ path
            · simp only [onPath, reduceIte, reduceDIte]
            · simp only [onPath, reduceIte, reduceDIte]

section

variable {bindings : Bindings} {path : List Reference} {text : String} {rest later : List Char}
  {first : Token}

theorem evaluateRest_of_finished (scanned : scan rest = .finished) :
    bindings.evaluateRest path text rest = .ok "" := by
  rw [Bindings.evaluateRest]
  split <;> rename_i same <;> rw [scanned] at same <;> cases same

theorem evaluateRest_of_stray {found : Char} (scanned : scan rest = .stray found) :
    bindings.evaluateRest path text rest = .error (.strayDollar found text) := by
  rw [Bindings.evaluateRest]
  split <;> rename_i same <;> rw [scanned] at same <;> cases same
  rfl

theorem evaluateRest_of_unterminated (scanned : scan rest = .unterminated) :
    bindings.evaluateRest path text rest = .error (.unterminated text) := by
  rw [Bindings.evaluateRest]
  split <;> rename_i same <;> rw [scanned] at same <;> cases same

private theorem evaluateRest_of_token (scanned : scan rest = .token first later) :
    bindings.evaluateRest path text rest = do
      let head ← bindings.evaluateToken path first
      let tail ← bindings.evaluateRest path text later
      return head ++ tail := by
  rw [Bindings.evaluateRest]
  split <;> rename_i same <;> rw [scanned] at same <;> cases same
  rfl

theorem evaluateRest_of_text {head : String} (scanned : scan rest = .token first later)
    (replaced : bindings.replace path first = .text head) :
    bindings.evaluateRest path text rest = do
      let tail ← bindings.evaluateRest path text later
      return head ++ tail := by
  rw [evaluateRest_of_token scanned, evaluateToken_eq, replaced]
  rfl

theorem evaluateRest_of_recursive {name : String} (scanned : scan rest = .token first later)
    (replaced : bindings.replace path first = .recursive name) :
    bindings.evaluateRest path text rest = .error (.recursive name) := by
  rw [evaluateRest_of_token scanned, evaluateToken_eq, replaced]
  rfl

theorem evaluateRest_of_value {reference : Reference} {value : String}
    (scanned : scan rest = .token first later)
    (replaced : bindings.replace path first = .value reference value) :
    bindings.evaluateRest path text rest = do
      let head ← bindings.evaluateRest (reference :: path) value value.toList
      let tail ← bindings.evaluateRest path text later
      return head ++ tail := by
  rw [evaluateRest_of_token scanned, evaluateToken_eq, replaced]

end

/-- Induction along the evaluator: a property of the unread part of a text may be assumed of what is
left after a token, and of the value that the token opens. -/
theorem evaluation_induction (bindings : Bindings)
    {motive : List Reference → String → List Char → Prop}
    (finished : ∀ path text rest, scan rest = .finished → motive path text rest)
    (stray : ∀ path text rest found, scan rest = .stray found → motive path text rest)
    (unterminated : ∀ path text rest, scan rest = .unterminated → motive path text rest)
    (read : ∀ path text rest first later head, scan rest = .token first later →
      bindings.replace path first = .text head → motive path text later → motive path text rest)
    (recursive : ∀ path text rest first later name, scan rest = .token first later →
      bindings.replace path first = .recursive name → motive path text rest)
    (openValue : ∀ path text rest first later reference value, scan rest = .token first later →
      bindings.replace path first = .value reference value →
      motive (reference :: path) value value.toList → motive path text later →
      motive path text rest)
    (path : List Reference) (text : String) (rest : List Char) : motive path text rest := by
  cases scanned : scan rest with
  | finished => exact finished path text rest scanned
  | stray found => exact stray path text rest found scanned
  | unterminated => exact unterminated path text rest scanned
  | token first later =>
      have shorter := length_rest_lt_of_scan scanned
      have ofLater : motive path text later :=
        evaluation_induction bindings finished stray unterminated read recursive openValue
          path text later
      cases replaced : bindings.replace path first with
      | text head => exact read path text rest first later head scanned replaced ofLater
      | recursive name => exact recursive path text rest first later name scanned replaced
      | value reference value =>
          have opened := Bindings.of_replace_eq_value replaced
          have deeper := Budget.unused_cons_lt (Bindings.mem_references opened.1) opened.2
          have ofValue : motive (reference :: path) value value.toList :=
            evaluation_induction bindings finished stray unterminated read recursive openValue
              (reference :: path) value value.toList
          exact openValue path text rest first later reference value scanned replaced ofValue
            ofLater
termination_by (Budget.unused bindings.references path, rest.length)
decreasing_by
  · exact Prod.Lex.right _ shorter
  · exact Prod.Lex.left _ _ deeper

end DryMake.Expansion
