import DryMake.Proofs.Expansion.Relevance

/-!
Which texts expand. The expansion looks only at the references that are open, and still no loop
escapes: on a way from a macro back to itself it comes to the name while the macro is open. A macro
that is needed in several places is open in none of them but one at a time, and a loop that the text
does not come to is never met.
-/

namespace DryMake.Expansion

namespace Bindings

variable {bindings : Bindings}

private theorem Reaches.mono {text other : List Char} {name : String}
    (reached : bindings.Reaches text name) (within : ∀ name ∈ names text, name ∈ names other) :
    bindings.Reaches other name := by
  induction reached with
  | named member => exact .named (within _ member)
  | through _ found member inductionHypothesis => exact .through inductionHypothesis found member

theorem Reaches.trans {text : List Char} {reference : Reference} {value name : String}
    (reached : bindings.Reaches text reference.name)
    (found : bindings.value? reference = some value)
    (further : bindings.Reaches value.toList name) : bindings.Reaches text name := by
  induction further with
  | named member => exact .through reached found member
  | through _ foundNext member inductionHypothesis =>
      exact .through inductionHypothesis foundNext member

theorem reaches_iff_of_token {text rest : List Char} {first : Token}
    (scanned : scan text = .token first rest) {name : String} :
    bindings.Reaches text name ↔
      first.name? = some name ∨
      (∃ reference value, first.name? = some reference.name ∧
        bindings.value? reference = some value ∧ bindings.Reaches value.toList name) ∨
      bindings.Reaches rest name := by
  constructor
  · intro reached
    induction reached with
    | named member =>
        rcases (mem_names_iff_of_token scanned).mp member with here | later
        · exact Or.inl here
        · exact Or.inr (Or.inr (.named later))
    | @through reference value name _ found member inductionHypothesis =>
        rcases inductionHypothesis with here | ⟨other, content, here, known, inner⟩ | later
        · exact Or.inr (Or.inl ⟨reference, value, here, found, .named member⟩)
        · exact Or.inr (Or.inl ⟨other, content, here, known, .through inner found member⟩)
        · exact Or.inr (Or.inr (.through later found member))
  · have atFirst : ∀ {name}, first.name? = some name → bindings.Reaches text name :=
      fun here => .named ((mem_names_iff_of_token scanned).mpr (Or.inl here))
    rintro (here | ⟨reference, value, here, found, inner⟩ | later)
    · exact atFirst here
    · exact (atFirst here).trans found inner
    · exact later.mono fun name member => (mem_names_iff_of_token scanned).mpr (Or.inr member)

private theorem not_reaches_of_stops {text : List Char} (stops : Stops text) (name : String) :
    ¬ bindings.Reaches text name := by
  intro reached
  induction reached with
  | named member =>
      rw [names, tokens_of_stops stops] at member
      cases member
  | through _ _ _ inductionHypothesis => exact inductionHypothesis

end Bindings

/-- Nothing prevents the expansion of a text while the references of `path` are open. -/
structure Expandable (macros : MacroTable) (path : List Reference) (text : List Char) : Prop where
  whole : IsWhole text
  values : ∀ name value, (Bindings.mk macros .empty).Reaches text name →
    macros.value? name = some value →
      IsWhole value.toList ∧ ¬ (Bindings.mk macros .empty).Reaches value.toList name ∧
        ⟨.global, name⟩ ∉ path

section

variable {macros : MacroTable} {path : List Reference} {text rest : List Char} {first : Token}

private theorem Bindings.of_value?_eq_some {reference : Reference} {value : String}
    (found : (Bindings.mk macros .empty).value? reference = some value) :
    reference = ⟨.global, reference.name⟩ ∧ macros.value? reference.name = some value := by
  obtain ⟨scope, name⟩ := reference
  cases scope with
  | conditional => cases found
  | global => exact ⟨rfl, found⟩

private theorem expandable_iff_of_stops (stops : Stops text) :
    Expandable macros path text ↔ scan text = .finished := by
  rw [scan_eq_finished_iff]
  constructor
  · intro expandable
    exact (unread_of_stops stops).symm.trans expandable.whole
  · intro empty
    refine ⟨(unread_of_stops stops).trans empty, fun name value reached => ?_⟩
    exact absurd reached (Bindings.not_reaches_of_stops stops name)

private theorem expandable_iff_of_text {head : String} (scanned : scan text = .token first rest)
    (replaced : (Bindings.mk macros .empty).replace path first = .text head) :
    Expandable macros path text ↔ Expandable macros path rest := by
  have undefined : ∀ {name}, first.name? = some name → macros.value? name = none :=
    fun named => Bindings.value?_of_replace_eq_text replaced named
  constructor
  · rintro ⟨whole, values⟩
    refine ⟨(isWhole_iff_of_token scanned).mp whole, fun name value reached => ?_⟩
    exact values name value ((Bindings.reaches_iff_of_token scanned).mpr (Or.inr (Or.inr reached)))
  · rintro ⟨whole, values⟩
    refine ⟨(isWhole_iff_of_token scanned).mpr whole, fun name value reached known => ?_⟩
    rcases (Bindings.reaches_iff_of_token scanned).mp reached with
      here | ⟨reference, content, here, found, -⟩ | later
    · cases (undefined here).symm.trans known
    · cases (undefined here).symm.trans (Bindings.of_value?_eq_some found).2
    · exact values name value later known

private theorem not_expandable_of_recursive {name : String}
    (scanned : scan text = .token first rest)
    (replaced : (Bindings.mk macros .empty).replace path first = .recursive name) :
    ¬ Expandable macros path text := by
  intro expandable
  obtain ⟨named, ⟨value, resolved⟩, isOpen⟩ := Bindings.resolves_of_replace_eq_recursive replaced
  have reached : (Bindings.mk macros .empty).Reaches text name :=
    (Bindings.reaches_iff_of_token scanned).mpr (Or.inl named)
  exact (expandable.values name value reached resolved.value?_eq).2.2 isOpen

/-- When a token opens a value, the text expands if the value does with its macro open, and the rest
does. -/
theorem expandable_iff_of_value {reference : Reference} {value : String}
    (scanned : scan text = .token first rest)
    (replaced : (Bindings.mk macros .empty).replace path first = .value reference value) :
    Expandable macros path text ↔
      Expandable macros (reference :: path) value.toList ∧ Expandable macros path rest := by
  obtain ⟨found, fresh⟩ := Bindings.of_replace_eq_value replaced
  have named := (Bindings.resolves_of_replace_eq_value replaced).1
  obtain ⟨isGlobal, known⟩ := Bindings.of_value?_eq_some found
  constructor
  · rintro ⟨whole, values⟩
    have atFirst := values reference.name value
      ((Bindings.reaches_iff_of_token scanned).mpr (Or.inl named)) known
    refine ⟨⟨atFirst.1, fun name content reached knownHere => ?_⟩,
      ⟨(isWhole_iff_of_token scanned).mp whole, fun name content reached => ?_⟩⟩
    · obtain ⟨wholeHere, loopFree, freshHere⟩ := values name content
        ((Bindings.reaches_iff_of_token scanned).mpr
          (Or.inr (Or.inl ⟨reference, value, named, found, reached⟩))) knownHere
      refine ⟨wholeHere, loopFree, fun isOpen => ?_⟩
      rcases List.mem_cons.mp isOpen with same | below
      · exact atFirst.2.1 (by rw [← same]; exact reached)
      · exact freshHere below
    · exact values name content
        ((Bindings.reaches_iff_of_token scanned).mpr (Or.inr (Or.inr reached)))
  · rintro ⟨inValue, inRest⟩
    refine ⟨(isWhole_iff_of_token scanned).mpr inRest.whole, fun name content reached knownHere => ?_⟩
    rcases (Bindings.reaches_iff_of_token scanned).mp reached with
      here | ⟨other, otherValue, here, otherFound, inner⟩ | later
    · cases named.symm.trans here
      cases known.symm.trans knownHere
      refine ⟨inValue.whole, fun loop => ?_, isGlobal ▸ fresh⟩
      -- On a loop the value comes to its own name, which is open there.
      exact (inValue.values _ value loop known).2.2 (isGlobal ▸ List.mem_cons_self)
    · have sameName : reference.name = other.name := Option.some.inj (named.symm.trans here)
      obtain ⟨-, otherKnown⟩ := Bindings.of_value?_eq_some otherFound
      rw [← sameName, known] at otherKnown
      cases otherKnown
      obtain ⟨wholeHere, loopFree, freshHere⟩ := inValue.values name content inner knownHere
      exact ⟨wholeHere, loopFree, fun below => freshHere (List.mem_cons_of_mem _ below)⟩
    · exact inRest.values name content later knownHere

end

private theorem evaluateRest_eq_ok_iff (macros : MacroTable) (path : List Reference) (text : String)
    (rest : List Char) :
    (∃ output, (Bindings.mk macros .empty).evaluateRest path text rest = .ok output) ↔
      Expandable macros path rest := by
  induction path, text, rest using
    evaluation_induction_of_stops (Bindings.mk macros .empty) with
  | stops path text rest stops =>
      rw [evaluateRest_of_stops stops, expandable_iff_of_stops stops]
      cases scanned : scan rest with
      | token first later => exact absurd scanned (stops first later)
      | finished => simp [Scan.outcome]
      | stray found => simp [Scan.outcome]
      | unterminated => simp [Scan.outcome]
  | read path text rest first later head scanned replaced onLater =>
      rw [evaluateRest_of_text scanned replaced, expandable_iff_of_text scanned replaced, ← onLater,
        exists_ok_of_bind_iff]
      simp [pure, Except.pure]
  | recursive path text rest first later name scanned replaced =>
      rw [evaluateRest_of_recursive scanned replaced]
      simp [not_expandable_of_recursive scanned replaced]
  | openValue path text rest first later reference value scanned replaced onValue onLater =>
      rw [evaluateRest_of_value scanned replaced, expandable_iff_of_value scanned replaced,
        ← onValue, ← onLater, exists_ok_of_bind_iff]
      simp only [exists_ok_of_bind_iff]
      simp [pure, Except.pure]

/-- From a text, with the references of `path` open, a chain of references leads to another text,
each reference being named in the text that the one before it resolved to. -/
inductive Bindings.Chain (bindings : Bindings) (path : List Reference) (text : String) :
    List Reference → String → Prop where
  | here : bindings.Chain path text path text
  | onward {active : List Reference} {current name value : String} {reference : Reference}
      (before : bindings.Chain path text active current) (member : name ∈ names current.toList)
      (resolved : bindings.Resolves active name reference value) :
      bindings.Chain path text (reference :: active) value

namespace Bindings.Chain

variable {bindings : Bindings} {path between active : List Reference}
  {text middle current : String}

theorem trans (first : bindings.Chain path text between middle)
    (second : bindings.Chain between middle active current) :
    bindings.Chain path text active current := by
  induction second with
  | here => exact first
  | onward _ member resolved inductionHypothesis =>
      exact .onward inductionHypothesis member resolved

theorem exists_cut (chain : bindings.Chain path text active current) {reference : Reference}
    (isOpen : reference ∈ active) (fresh : reference ∉ path) :
    ∃ inner outer value, active = inner ++ reference :: outer ∧
      bindings.value? reference = some value ∧
      bindings.Chain path text (reference :: outer) value ∧
      bindings.Chain (reference :: outer) value active current := by
  induction chain with
  | here => exact absurd isOpen fresh
  | @onward active current name value newest before member resolved inductionHypothesis =>
      rcases List.mem_cons.mp isOpen with rfl | older
      · exact ⟨[], active, value, rfl, resolved.value?_eq, .onward before member resolved, .here⟩
      · obtain ⟨inner, outer, content, rfl, found, toReference, fromReference⟩ :=
          inductionHypothesis older
        exact ⟨newest :: inner, outer, content, rfl, found, toReference,
          .onward fromReference member resolved⟩

end Bindings.Chain

/-- A macro that is refused is named again, and meant again, at the end of a chain on which it is
open. -/
theorem exists_chain_of_recursive (bindings : Bindings) (path : List Reference) (text : String)
    (rest : List Char) :
    (∀ name ∈ names rest, name ∈ names text.toList) →
      ∀ name, bindings.evaluateRest path text rest = .error (.recursive name) →
        ∃ active current value, bindings.Chain path text active current ∧
          name ∈ names current.toList ∧ bindings.Resolves active name ⟨.global, name⟩ value ∧
          ⟨.global, name⟩ ∈ active := by
  have namedLater : ∀ {text : String} {rest later : List Char} {first : Token},
      scan rest = .token first later → (∀ name ∈ names rest, name ∈ names text.toList) →
      ∀ name ∈ names later, name ∈ names text.toList := by
    intro text rest later first scanned within name member
    exact within name ((mem_names_iff_of_token scanned).mpr (Or.inr member))
  induction path, text, rest using evaluation_induction_of_stops bindings with
  | stops path text rest stops =>
      intro within name failed
      rw [evaluateRest_of_stops stops] at failed
      cases scanned : scan rest <;> rw [scanned] at failed <;> cases failed
  | read path text rest first later head scanned replaced onLater =>
      intro within name failed
      rw [evaluateRest_of_text scanned replaced] at failed
      rcases error_of_bind_eq_error failed with inRest | ⟨tail, evaluated, returned⟩
      · exact onLater (namedLater scanned within) name inRest
      · cases returned
  | recursive path text rest first later refused scanned replaced =>
      intro within name failed
      rw [evaluateRest_of_recursive scanned replaced] at failed
      cases failed
      obtain ⟨named, ⟨value, resolved⟩, isOpen⟩ :=
        Bindings.resolves_of_replace_eq_recursive replaced
      have member := within refused ((mem_names_iff_of_token scanned).mpr (Or.inl named))
      exact ⟨path, text, value, .here, member, resolved, isOpen⟩
  | openValue path text rest first later reference value scanned replaced onValue onLater =>
      intro within name failed
      obtain ⟨named, resolved⟩ := Bindings.resolves_of_replace_eq_value replaced
      have member := within reference.name ((mem_names_iff_of_token scanned).mpr (Or.inl named))
      rw [evaluateRest_of_value scanned replaced] at failed
      rcases error_of_bind_eq_error failed with inValue | ⟨head, evaluated, afterValue⟩
      · obtain ⟨active, current, content, chain, refused⟩ := onValue (fun _ => id) name inValue
        exact ⟨active, current, content, (Bindings.Chain.here.onward member resolved).trans chain,
          refused⟩
      · rcases error_of_bind_eq_error afterValue with inRest | ⟨tail, evaluatedRest, returned⟩
        · exact onLater (namedLater scanned within) name inRest
        · cases returned

/-- Without a conditional set, a text expands exactly when it and the values of all macros that it
comes to can be read to their ends, and none of these macros comes to itself. With or without one, a
macro that is refused is defined, and from its value a chain of references leads back to it. -/
theorem expand_refuses_loops (macros : MacroTable) (text : String) :
    ((∃ output, (Bindings.mk macros .empty).expand text = .ok output) ↔
      IsWhole text.toList ∧
      ∀ name value, (Bindings.mk macros .empty).Reaches text.toList name →
        macros.value? name = some value →
          IsWhole value.toList ∧ ¬ (Bindings.mk macros .empty).Reaches value.toList name) ∧
    ∀ conditional name,
      (Bindings.mk macros conditional).expand text = .error (.recursive name) →
        ∃ value inner outer, macros.value? name = some value ∧
          (Bindings.mk macros conditional).Chain [] text (⟨.global, name⟩ :: outer) value ∧
          (Bindings.mk macros conditional).Chain (⟨.global, name⟩ :: outer) value
            (⟨.global, name⟩ :: (inner ++ ⟨.global, name⟩ :: outer)) value := by
  constructor
  · rw [expand_eq_evaluateRest, evaluateRest_eq_ok_iff]
    constructor
    · rintro ⟨whole, values⟩
      exact ⟨whole, fun name value reached known =>
        ⟨(values name value reached known).1, (values name value reached known).2.1⟩⟩
    · rintro ⟨whole, values⟩
      exact ⟨whole, fun name value reached known =>
        ⟨(values name value reached known).1, (values name value reached known).2,
          List.not_mem_nil⟩⟩
  · intro conditional name failed
    rw [expand_eq_evaluateRest] at failed
    obtain ⟨active, current, value, chain, member, resolved, isOpen⟩ :=
      exists_chain_of_recursive _ [] text text.toList (fun _ => id) name failed
    obtain ⟨inner, outer, content, rfl, found, toMacro, fromMacro⟩ :=
      chain.exists_cut isOpen List.not_mem_nil
    have sameValue : content = value := Option.some.inj (found.symm.trans resolved.value?_eq)
    subst sameValue
    exact ⟨content, inner, outer, found, toMacro, .onward fromMacro member resolved⟩

theorem expand_refuses_loops_through_conditional :
    let macros := MacroTable.assign (.assign .empty false "A" "$(B)") false "B" "b"
    let bindings : Bindings := ⟨macros, Table.insert .empty "B" "$(B) $(A)"⟩
    bindings.expand "$(A)" = .error (.recursive "A") ∧
      ∃ value inner outer, macros.value? "A" = some value ∧
        bindings.Chain [] "$(A)" (⟨.global, "A"⟩ :: outer) value ∧
        bindings.Chain (⟨.global, "A"⟩ :: outer) value
          (⟨.global, "A"⟩ :: (inner ++ ⟨.global, "A"⟩ :: outer)) value := by
  intro macros bindings
  have failed : bindings.expand "$(A)" = .error (.recursive "A") := by cbv
  exact ⟨failed, (expand_refuses_loops macros "$(A)").2 bindings.conditional "A" failed⟩

end DryMake.Expansion
