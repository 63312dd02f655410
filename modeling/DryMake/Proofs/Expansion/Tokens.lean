import DryMake.Proofs.Expansion.Evaluator

/-!
A text as the tokens that reading it from left to right gives, and what is left of it where the
reading stops. The names in a text are those of its groups that are not patterns, and they are all
that its expansion looks up.
-/

namespace DryMake.Expansion

def Token.meaning : Token → String
  | plain c => String.ofList [c]
  | escaped c => String.ofList (if c = '$' ∨ c = '\\' then [c] else ['\\', c])
  | dollar => "$"
  | group body => if ':' ∈ body ∨ '%' ∈ body then "$(" ++ String.ofList body ++ ")" else ""

def Token.name? : Token → Option String
  | group body => if ':' ∈ body ∨ '%' ∈ body then none else some (String.ofList body)
  | _ => none

theorem Token.meaning_of_name? {token : Token} {name : String} (named : token.name? = some name) :
    token.meaning = "" := by
  cases token with
  | group body =>
      by_cases copied : ':' ∈ body ∨ '%' ∈ body
      · simp [Token.name?, copied] at named
      · rw [Token.meaning, if_neg copied]
  | _ => cases named

def tokens (text : List Char) : List Token :=
  match _scanned : scan text with
  | .token first rest => first :: tokens rest
  | _ => []
termination_by text.length
decreasing_by exact length_rest_lt_of_scan _scanned

def unread (text : List Char) : List Char :=
  match _scanned : scan text with
  | .token _ rest => unread rest
  | _ => text
termination_by text.length
decreasing_by exact length_rest_lt_of_scan _scanned

def IsWhole (text : List Char) : Prop :=
  unread text = []

/-- The names that a text refers to, as far as it can be read. -/
def names (text : List Char) : List String :=
  (tokens text).filterMap Token.name?

def Stops (text : List Char) : Prop :=
  ∀ first rest, scan text ≠ .token first rest

section

variable {text rest : List Char} {first : Token}

theorem stops_of_scan {stop : Scan} (scanned : scan text = stop)
    (isStop : ∀ first rest, stop ≠ .token first rest) : Stops text :=
  fun first rest same => isStop first rest (scanned.symm.trans same)

theorem tokens_of_token (scanned : scan text = .token first rest) :
    tokens text = first :: tokens rest := by
  rw [tokens]
  split
  · rename_i same
    rw [scanned] at same
    cases same
    rfl
  · rename_i other
    exact absurd scanned (other first rest)

theorem unread_of_token (scanned : scan text = .token first rest) : unread text = unread rest := by
  rw [unread]
  split
  · rename_i same
    rw [scanned] at same
    cases same
    rfl
  · rename_i other
    exact absurd scanned (other first rest)

theorem tokens_of_stops (stops : Stops text) : tokens text = [] := by
  rw [tokens]
  split
  · rename_i scanned
    exact absurd scanned (stops _ _)
  · rfl

theorem unread_of_stops (stops : Stops text) : unread text = text := by
  rw [unread]
  split
  · rename_i scanned
    exact absurd scanned (stops _ _)
  · rfl

theorem isWhole_iff_of_token (scanned : scan text = .token first rest) :
    IsWhole text ↔ IsWhole rest := by
  rw [IsWhole, IsWhole, unread_of_token scanned]

theorem mem_names_iff_of_token (scanned : scan text = .token first rest) {name : String} :
    name ∈ names text ↔ first.name? = some name ∨ name ∈ names rest := by
  rw [names, tokens_of_token scanned]
  simp [names]

end

theorem reading_induction {motive : List Char → Prop} (stops : ∀ text, Stops text → motive text)
    (token : ∀ text first rest, scan text = .token first rest → motive rest → motive text)
    (text : List Char) : motive text := by
  cases scanned : scan text with
  | token first rest =>
      have shorter := length_rest_lt_of_scan scanned
      exact token text first rest scanned (reading_induction stops token rest)
  | finished => exact stops text (stops_of_scan scanned nofun)
  | stray found => exact stops text (stops_of_scan scanned nofun)
  | unterminated => exact stops text (stops_of_scan scanned nofun)
termination_by text.length

theorem stops_unread (text : List Char) : Stops (unread text) := by
  induction text using reading_induction with
  | stops text stops =>
      rw [unread_of_stops stops]
      exact stops
  | token text first rest scanned onRest =>
      rw [unread_of_token scanned]
      exact onRest

theorem lexemes_append_unread (text : List Char) :
    (tokens text).flatMap Token.lexeme ++ unread text = text := by
  induction text using reading_induction with
  | stops text stops =>
      rw [tokens_of_stops stops, unread_of_stops stops]
      rfl
  | token text first rest scanned onRest =>
      rw [tokens_of_token scanned, unread_of_token scanned, List.flatMap_cons, List.append_assoc,
        onRest]
      exact (lexeme_append_of_scan scanned).symm

def Scan.outcome (text output : String) : Scan → Except ExpansionError String
  | .finished => .ok output
  | .token .. => .ok output
  | .stray found => .error (.strayDollar found text)
  | .unterminated => .error (.unterminated text)

/-- Whatever the macros are, and whichever are open, what stops the reading ends the evaluation. -/
theorem evaluateRest_of_stops {rest : List Char} (stops : Stops rest) (bindings : Bindings)
    (path : List Reference) (text : String) :
    bindings.evaluateRest path text rest = (scan rest).outcome text "" := by
  cases scanned : scan rest with
  | finished => exact evaluateRest_of_finished scanned
  | stray found => exact evaluateRest_of_stray scanned
  | unterminated => exact evaluateRest_of_unterminated scanned
  | token first later => exact absurd scanned (stops first later)

theorem evaluation_induction_of_stops (bindings : Bindings)
    {motive : List Reference → String → List Char → Prop}
    (stops : ∀ path text rest, Stops rest → motive path text rest)
    (read : ∀ path text rest first later head, scan rest = .token first later →
      bindings.replace path first = .text head → motive path text later → motive path text rest)
    (recursive : ∀ path text rest first later name, scan rest = .token first later →
      bindings.replace path first = .recursive name → motive path text rest)
    (openValue : ∀ path text rest first later reference value, scan rest = .token first later →
      bindings.replace path first = .value reference value →
      motive (reference :: path) value value.toList → motive path text later →
      motive path text rest)
    (path : List Reference) (text : String) (rest : List Char) : motive path text rest := by
  induction path, text, rest using evaluation_induction bindings with
  | finished path text rest scanned => exact stops path text rest (stops_of_scan scanned nofun)
  | stray path text rest found scanned => exact stops path text rest (stops_of_scan scanned nofun)
  | unterminated path text rest scanned => exact stops path text rest (stops_of_scan scanned nofun)
  | read path text rest first later head scanned replaced onLater =>
      exact read path text rest first later head scanned replaced onLater
  | recursive path text rest first later name scanned replaced =>
      exact recursive path text rest first later name scanned replaced
  | openValue path text rest first later reference value scanned replaced onValue onLater =>
      exact openValue path text rest first later reference value scanned replaced onValue onLater

theorem exists_ok_of_bind_iff {Fault Value Other : Type} {first : Except Fault Value}
    {second : Value → Except Fault Other} :
    (∃ output, first >>= second = .ok output) ↔
      ∃ value, first = .ok value ∧ ∃ output, second value = .ok output := by
  cases first with
  | error cause => simp [bind, Except.bind]
  | ok value => simp [bind, Except.bind]

theorem isWhole_of_evaluateRest_eq_ok (bindings : Bindings) (path : List Reference) (text : String)
    (rest : List Char) (evaluated : ∃ output, bindings.evaluateRest path text rest = .ok output) :
    IsWhole rest := by
  induction path, text, rest using evaluation_induction_of_stops bindings with
  | stops path text rest stops =>
      rw [evaluateRest_of_stops stops] at evaluated
      obtain ⟨output, ended⟩ := evaluated
      cases scanned : scan rest with
      | finished => exact (unread_of_stops stops).trans (eq_nil_of_scan_eq_finished scanned)
      | token first later => exact absurd scanned (stops first later)
      | stray found =>
          rw [scanned] at ended
          cases ended
      | unterminated =>
          rw [scanned] at ended
          cases ended
  | read path text rest first later head scanned replaced onLater =>
      rw [evaluateRest_of_text scanned replaced, exists_ok_of_bind_iff] at evaluated
      obtain ⟨tail, onTail, -⟩ := evaluated
      exact (isWhole_iff_of_token scanned).mpr (onLater ⟨tail, onTail⟩)
  | recursive path text rest first later name scanned replaced =>
      rw [evaluateRest_of_recursive scanned replaced] at evaluated
      obtain ⟨output, impossible⟩ := evaluated
      cases impossible
  | openValue path text rest first later reference value scanned replaced _ onLater =>
      rw [evaluateRest_of_value scanned replaced, exists_ok_of_bind_iff] at evaluated
      obtain ⟨head, -, afterHead⟩ := evaluated
      obtain ⟨tail, onTail, -⟩ := exists_ok_of_bind_iff.mp afterHead
      exact (isWhole_iff_of_token scanned).mpr (onLater ⟨tail, onTail⟩)

/-! ### What takes the place of a token -/

theorem Bindings.lookup_of_undefined {bindings : Bindings} {name : String}
    (noConditional : bindings.conditional.get? name = none)
    (noMacro : bindings.macros.value? name = none) (active : List Reference) :
    bindings.lookup active name = .text "" := by
  unfold Bindings.lookup
  rw [noConditional, noMacro, ite_self]

theorem Bindings.replace_eq (bindings : Bindings) (active : List Reference) (token : Token) :
    bindings.replace active token =
      token.name?.elim (.text token.meaning) (bindings.lookup active) := by
  cases token with
  | group body =>
      by_cases copied : ':' ∈ body ∨ '%' ∈ body
      · simp [Bindings.replace, Token.name?, Token.meaning, isPattern_iff, copied]
      · simp [Bindings.replace, Token.name?, isPattern_iff, copied]
  | _ => rfl

/-- What a name means while the references of `active` are open: the conditional macro, unless that is
open, and the global one otherwise. -/
inductive Bindings.Resolves (bindings : Bindings) (active : List Reference) (name : String) :
    Reference → String → Prop where
  | conditional {value : String} (found : bindings.conditional.get? name = some value)
      (closed : ⟨.conditional, name⟩ ∉ active) :
      bindings.Resolves active name ⟨.conditional, name⟩ value
  | global {value : String}
      (fallsThrough : bindings.conditional.get? name = none ∨ ⟨.conditional, name⟩ ∈ active)
      (found : bindings.macros.value? name = some value) :
      bindings.Resolves active name ⟨.global, name⟩ value

section

variable {bindings : Bindings} {active : List Reference} {name : String} {token : Token}

private theorem Bindings.Resolves.name_eq {reference : Reference} {value : String}
    (resolved : bindings.Resolves active name reference value) : reference.name = name := by
  cases resolved <;> rfl

theorem Bindings.Resolves.value?_eq {reference : Reference} {value : String}
    (resolved : bindings.Resolves active name reference value) :
    bindings.value? reference = some value := by
  cases resolved with
  | conditional found closed => exact found
  | global fallsThrough found => exact found

private theorem fallsThrough_of_eq_none
    (notInner : (if ⟨.conditional, name⟩ ∈ active then none else bindings.conditional.get? name) =
      none) :
    bindings.conditional.get? name = none ∨ ⟨.conditional, name⟩ ∈ active := by
  split at notInner
  · rename_i isOpen
    exact Or.inr isOpen
  · exact Or.inl notInner

theorem Bindings.of_lookup_eq_value {reference : Reference} {value : String}
    (looked : bindings.lookup active name = .value reference value) :
    bindings.Resolves active name reference value := by
  unfold Bindings.lookup at looked
  split at looked
  · rename_i inner
    split at inner
    · contradiction
    · rename_i closed
      cases looked
      exact .conditional inner closed
  · rename_i notInner
    split at looked
    · contradiction
    · rename_i found
      split at looked
      · contradiction
      · cases looked
        exact .global (fallsThrough_of_eq_none notInner) found

theorem Bindings.lookup_of_resolves {reference : Reference} {value : String}
    (resolved : bindings.Resolves active name reference value) (fresh : reference ∉ active) :
    bindings.lookup active name = .value reference value := by
  unfold Bindings.lookup
  cases resolved with
  | conditional found closed => rw [if_neg closed, found]
  | global fallsThrough found =>
      have notInner : (if ⟨.conditional, name⟩ ∈ active then none
          else bindings.conditional.get? name) = none := by
        rcases fallsThrough with absent | isOpen
        · rw [absent, ite_self]
        · rw [if_pos isOpen]
      rw [notInner, found]
      exact if_neg fresh

private theorem Bindings.of_lookup_eq_recursive {other : String}
    (looked : bindings.lookup active name = .recursive other) :
    other = name ∧ (∃ value, bindings.Resolves active name ⟨.global, name⟩ value) ∧
      ⟨.global, name⟩ ∈ active := by
  unfold Bindings.lookup at looked
  split at looked
  · contradiction
  · rename_i notInner
    split at looked
    · contradiction
    · rename_i value found
      split at looked
      · rename_i isOpen
        cases looked
        exact ⟨rfl, ⟨value, .global (fallsThrough_of_eq_none notInner) found⟩, isOpen⟩
      · contradiction

theorem Bindings.of_lookup_eq_text {text : String}
    (looked : bindings.lookup active name = .text text) : bindings.macros.value? name = none := by
  unfold Bindings.lookup at looked
  split at looked
  · contradiction
  · split at looked
    · rename_i notFound
      exact notFound
    · split at looked <;> contradiction

theorem Bindings.resolves_of_replace_eq_value {reference : Reference} {value : String}
    (replaced : bindings.replace active token = .value reference value) :
    token.name? = some reference.name ∧
      bindings.Resolves active reference.name reference value := by
  rw [Bindings.replace_eq] at replaced
  cases named : token.name? with
  | none =>
      rw [named] at replaced
      cases replaced
  | some name =>
      rw [named] at replaced
      have resolved := of_lookup_eq_value replaced
      rw [resolved.name_eq]
      exact ⟨rfl, resolved⟩

theorem Bindings.resolves_of_replace_eq_recursive
    (replaced : bindings.replace active token = .recursive name) :
    token.name? = some name ∧ (∃ value, bindings.Resolves active name ⟨.global, name⟩ value) ∧
      ⟨.global, name⟩ ∈ active := by
  rw [Bindings.replace_eq] at replaced
  cases named : token.name? with
  | none =>
      rw [named] at replaced
      cases replaced
  | some other =>
      rw [named] at replaced
      obtain ⟨rfl, resolved⟩ := of_lookup_eq_recursive replaced
      exact ⟨rfl, resolved⟩

theorem Bindings.value?_of_replace_eq_text {text : String}
    (replaced : bindings.replace active token = .text text) (named : token.name? = some name) :
    bindings.macros.value? name = none := by
  rw [Bindings.replace_eq, named] at replaced
  exact of_lookup_eq_text replaced

end

end DryMake.Expansion
