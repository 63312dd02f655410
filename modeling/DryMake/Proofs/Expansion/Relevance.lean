import DryMake.Proofs.Expansion.Correspondence
import DryMake.Proofs.Expansion.Tokens
import Mathlib

/-!
The names that the expansion of a text can come to: those in the text, and those in the global and
the conditional value of a name that it can come to. Which of the two values is taken depends on what
is open, so that both count.
-/

namespace DryMake.Expansion

/-- The least set of names that holds those in the text and, with a name, those in its values. -/
inductive Bindings.Reaches (bindings : Bindings) (text : List Char) : String → Prop where
  | named {name : String} (member : name ∈ names text) : bindings.Reaches text name
  | through {reference : Reference} {value name : String}
      (reached : bindings.Reaches text reference.name)
      (found : bindings.value? reference = some value) (member : name ∈ names value.toList) :
      bindings.Reaches text name

private theorem Bindings.lookup_congr {bindings other : Bindings} {name : String}
    (sameMacro : bindings.macros.value? name = other.macros.value? name)
    (sameConditional : bindings.conditional.get? name = other.conditional.get? name)
    (active : List Reference) : bindings.lookup active name = other.lookup active name := by
  unfold Bindings.lookup
  rw [sameMacro, sameConditional]

private theorem Bindings.replace_congr {bindings other : Bindings} {token : Token}
    (same : ∀ name, token.name? = some name →
      bindings.macros.value? name = other.macros.value? name ∧
      bindings.conditional.get? name = other.conditional.get? name)
    (active : List Reference) : bindings.replace active token = other.replace active token := by
  rw [Bindings.replace_eq, Bindings.replace_eq]
  cases named : token.name? with
  | none => rfl
  | some name => exact lookup_congr (same name named).1 (same name named).2 active

/-- The two evaluators take the same way, as every name on it is one that the text can come to. -/
theorem evaluateRest_eq_of_agree {bindings other : Bindings} {input : List Char}
    (agree : ∀ name, bindings.Reaches input name →
      bindings.macros.value? name = other.macros.value? name ∧
      bindings.conditional.get? name = other.conditional.get? name)
    (path : List Reference) (text : String) (rest : List Char) :
    (∀ name ∈ names rest, bindings.Reaches input name) →
      bindings.evaluateRest path text rest = other.evaluateRest path text rest := by
  have inStep : ∀ {rest later : List Char} {first : Token}, scan rest = .token first later →
      (∀ name ∈ names rest, bindings.Reaches input name) →
      (∀ path, bindings.replace path first = other.replace path first) ∧
        ∀ name ∈ names later, bindings.Reaches input name := by
    intro rest later first scanned reached
    constructor
    · apply Bindings.replace_congr
      intro name named
      exact agree name (reached name ((mem_names_iff_of_token scanned).mpr (Or.inl named)))
    · intro name member
      exact reached name ((mem_names_iff_of_token scanned).mpr (Or.inr member))
  induction path, text, rest using evaluation_induction_of_stops bindings with
  | stops path text rest stops =>
      intro reached
      rw [evaluateRest_of_stops stops, evaluateRest_of_stops stops]
  | read path text rest first later head scanned replaced onLater =>
      intro reached
      obtain ⟨sameFirst, reachedLater⟩ := inStep scanned reached
      rw [evaluateRest_of_text scanned replaced,
        evaluateRest_of_text scanned (sameFirst path ▸ replaced), onLater reachedLater]
  | recursive path text rest first later name scanned replaced =>
      intro reached
      obtain ⟨sameFirst, reachedLater⟩ := inStep scanned reached
      rw [evaluateRest_of_recursive scanned replaced,
        evaluateRest_of_recursive scanned (sameFirst path ▸ replaced)]
  | openValue path text rest first later reference value scanned replaced onValue onLater =>
      intro reached
      obtain ⟨sameFirst, reachedLater⟩ := inStep scanned reached
      obtain ⟨named, resolved⟩ := Bindings.resolves_of_replace_eq_value replaced
      have reachedHere : bindings.Reaches input reference.name :=
        reached _ ((mem_names_iff_of_token scanned).mpr (Or.inl named))
      have reachedValue : ∀ name ∈ names value.toList, bindings.Reaches input name :=
        fun name member => .through reachedHere resolved.value?_eq member
      rw [evaluateRest_of_value scanned replaced,
        evaluateRest_of_value scanned (sameFirst path ▸ replaced), onValue reachedValue,
        onLater reachedLater]

/-- The expansion of a text, and its failure, depend on nothing but the values of the names that the
text can come to. -/
theorem expand_eq_of_agree {macros otherMacros : MacroTable}
    {conditional otherConditional : ConditionalSet} {text : String}
    (sameMacros : ∀ name, (Bindings.mk macros conditional).Reaches text.toList name →
      macros.value? name = otherMacros.value? name)
    (sameConditional : ∀ name, (Bindings.mk macros conditional).Reaches text.toList name →
      conditional.get? name = otherConditional.get? name) :
    (Bindings.mk macros conditional).expand text =
      (Bindings.mk otherMacros otherConditional).expand text := by
  rw [expand_eq_evaluateRest, expand_eq_evaluateRest]
  refine evaluateRest_eq_of_agree (fun name reached => ?_) [] text text.toList fun name => .named
  exact ⟨sameMacros name reached, sameConditional name reached⟩

theorem expand_eq_of_agree_apart :
    let macros := MacroTable.assign (.importVariable .empty "CC" "cc") false "LOOP" "$(LOOP)"
    let others := MacroTable.assign (.assign .empty false "BAD" "$x") false "CC" "cc"
    let set : ConditionalSet := Table.insert .empty "CC" "$(CC) -m32"
    let otherSet := Table.insert set "LOOP" "$("
    (∀ name, (Bindings.mk macros set).Reaches "$(CC)".toList name ↔ name = "CC") ∧
      (Bindings.mk macros set).expand "$(CC)" = (Bindings.mk others otherSet).expand "$(CC)" ∧
      (Bindings.mk others otherSet).expand "$(CC)" = .ok "cc -m32" := by
  intro macros others set otherSet
  have inText : names "$(CC)".toList = ["CC"] := by cbv
  have within : ∀ name, (Bindings.mk macros set).Reaches "$(CC)".toList name → name = "CC" := by
    intro name reached
    induction reached with
    | named member =>
        rw [inText] at member
        exact List.mem_singleton.mp member
    | @through reference value name _ found member isName =>
        obtain ⟨scope, key⟩ := reference
        subst isName
        cases scope with
        | conditional =>
            have inValue : names "$(CC) -m32".toList = ["CC"] := by cbv
            cases found
            rw [inValue] at member
            exact List.mem_singleton.mp member
        | global =>
            have inValue : names "cc".toList = [] := by cbv
            cases found
            rw [inValue] at member
            cases member
  have reached : (Bindings.mk macros set).Reaches "$(CC)".toList "CC" :=
    .named (inText ▸ List.mem_singleton_self "CC")
  have sameMacro : macros.value? "CC" = others.value? "CC" := by cbv
  have sameConditional : set.get? "CC" = otherSet.get? "CC" := by cbv
  have expanded : (Bindings.mk others otherSet).expand "$(CC)" = .ok "cc -m32" := by cbv
  refine ⟨fun name => ⟨within name, fun same => same ▸ reached⟩, ?_, expanded⟩
  exact expand_eq_of_agree (fun name isReached => within name isReached ▸ sameMacro)
    (fun name isReached => within name isReached ▸ sameConditional)

end DryMake.Expansion
