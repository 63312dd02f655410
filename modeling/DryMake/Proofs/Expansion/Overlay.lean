import DryMake.Proofs.Expansion.Correspondence
import DryMake.Proofs.Expansion.Tokens
import Mathlib

/-!
A conditional set against one table in which its macros have taken the place of the global ones. The
two differ where a conditional macro is needed for its own value: the set lets its name mean the
global macro there, and the one table has no other. Where that is never met they are the same, as the
open references of the one expansion are those of the other, put back into their own table.
-/

namespace DryMake

/-- The macros with those of a conditional set put over them, as if they came from `origin`. -/
def MacroTable.overlay (macros : MacroTable) (origin : Origin) (set : ConditionalSet) : MacroTable :=
  set.entries.foldl (fun macros entry => macros.insert entry.1 ⟨entry.2, origin⟩) macros

private theorem MacroTable.value?_overlay (macros : MacroTable) (origin : Origin)
    (set : ConditionalSet) (name : String) :
    (macros.overlay origin set).value? name = (set.get? name).or (macros.value? name) := by
  obtain ⟨entries, distinct⟩ := set
  change (entries.foldl _ macros).value? name = (entries.lookup name).or (macros.value? name)
  induction entries generalizing macros with
  | nil => rfl
  | cons entry rest inductionHypothesis =>
      obtain ⟨key, value⟩ := entry
      rw [List.map_cons, List.nodup_cons] at distinct
      rw [List.foldl_cons, inductionHypothesis _ distinct.2]
      by_cases same : name = key
      · subst same
        have notAgain : rest.lookup name = none := by
          rw [List.lookup_eq_none_iff]
          intro other member
          rw [bne_iff_ne]
          intro again
          exact distinct.1 (List.mem_map.mpr ⟨other, member, again.symm⟩)
        simp [notAgain, MacroTable.value?]
      · have differ : (name == key) = false := by simpa using same
        simp [MacroTable.value?, List.lookup_cons, differ, same]

namespace Expansion

section

variable {macros : MacroTable} {origin : Origin} {set : ConditionalSet} {path : List Reference}

/-- A reference of the one table, in the table that its macro is taken from when there are two. -/
def Reference.relocated (set : ConditionalSet) (reference : Reference) : Reference where
  scope := if (set.get? reference.name).isSome then .conditional else .global
  name := reference.name

theorem notMem_map_relocated (set : ConditionalSet)
    (global : ∀ reference ∈ path, reference.scope = .global) {name : String}
    (fresh : ⟨.global, name⟩ ∉ path) (scope : Scope) :
    ⟨scope, name⟩ ∉ path.map (Reference.relocated set) := by
  intro member
  obtain ⟨reference, known, same⟩ := List.mem_map.mp member
  obtain ⟨other, otherName⟩ := reference
  cases global _ known
  cases same
  exact fresh known

private theorem lookup_relocated_of_text {name text : String}
    (looked : (Bindings.mk (macros.overlay origin set) .empty).lookup path name = .text text) :
    (Bindings.mk macros set).lookup (path.map (Reference.relocated set)) name = .text text := by
  have absent := Bindings.of_lookup_eq_text looked
  have nowhere := absent
  rw [MacroTable.value?_overlay, Option.or_eq_none_iff] at nowhere
  rw [Bindings.lookup_of_undefined nowhere.1 nowhere.2, ← looked]
  exact (Bindings.lookup_of_undefined rfl absent path).symm

private theorem lookup_relocated_of_value (global : ∀ reference ∈ path, reference.scope = .global)
    {name value : String} {reference : Reference} (fresh : reference ∉ path)
    (looked : (Bindings.mk (macros.overlay origin set) .empty).lookup path name =
      .value reference value) :
    reference.scope = .global ∧
      (Bindings.mk macros set).lookup (path.map (Reference.relocated set)) name =
        .value (reference.relocated set) value := by
  cases Bindings.of_lookup_eq_value looked with
  | conditional found closed => cases found
  | global fallsThrough found =>
      have notOpen := notMem_map_relocated set global fresh
      refine ⟨rfl, Bindings.lookup_of_resolves ?_ (notOpen _)⟩
      change (macros.overlay origin set).value? name = some value at found
      rw [MacroTable.value?_overlay] at found
      unfold Reference.relocated
      cases inSet : set.get? name with
      | some content =>
          rw [inSet] at found
          cases found
          exact .conditional inSet (notOpen _)
      | none =>
          rw [inSet] at found
          exact .global (Or.inl inSet) found

theorem replace_relocated_of_text {token : Token} {text : String}
    (replaced : (Bindings.mk (macros.overlay origin set) .empty).replace path token = .text text) :
    (Bindings.mk macros set).replace (path.map (Reference.relocated set)) token = .text text := by
  rw [Bindings.replace_eq] at replaced ⊢
  cases named : token.name? with
  | none =>
      rw [named] at replaced
      exact replaced
  | some name =>
      rw [named] at replaced
      exact lookup_relocated_of_text replaced

private theorem replace_relocated_of_value (global : ∀ reference ∈ path, reference.scope = .global)
    {token : Token} {value : String} {reference : Reference}
    (replaced : (Bindings.mk (macros.overlay origin set) .empty).replace path token =
      .value reference value) :
    reference.scope = .global ∧
      (Bindings.mk macros set).replace (path.map (Reference.relocated set)) token =
        .value (reference.relocated set) value := by
  have fresh := (Bindings.of_replace_eq_value replaced).2
  rw [Bindings.replace_eq] at replaced ⊢
  cases named : token.name? with
  | none =>
      rw [named] at replaced
      cases replaced
  | some name =>
      rw [named] at replaced
      exact lookup_relocated_of_value global fresh replaced

end

private theorem evaluateRest_relocated (macros : MacroTable) (origin : Origin)
    (set : ConditionalSet) (path : List Reference) (text : String) (rest : List Char) :
    (∀ reference ∈ path, reference.scope = .global) →
      (∀ name, (Bindings.mk (macros.overlay origin set) .empty).evaluateRest path text rest ≠
        .error (.recursive name)) →
      (Bindings.mk macros set).evaluateRest (path.map (Reference.relocated set)) text rest =
        (Bindings.mk (macros.overlay origin set) .empty).evaluateRest path text rest := by
  induction path, text, rest using
    evaluation_induction_of_stops (Bindings.mk (macros.overlay origin set) .empty) with
  | stops path text rest stops =>
      intro global notRecursive
      rw [evaluateRest_of_stops stops, evaluateRest_of_stops stops]
  | read path text rest first later head scanned replaced onLater =>
      intro global notRecursive
      rw [evaluateRest_of_text scanned replaced] at notRecursive ⊢
      rw [evaluateRest_of_text scanned (replace_relocated_of_text replaced),
        onLater global fun name failed => notRecursive name (by rw [failed]; rfl)]
  | recursive path text rest first later name scanned replaced =>
      intro global notRecursive
      exact absurd (evaluateRest_of_recursive scanned replaced) (notRecursive name)
  | openValue path text rest first later reference value scanned replaced onValue onLater =>
      intro global notRecursive
      obtain ⟨isGlobal, relocated⟩ := replace_relocated_of_value global replaced
      rw [evaluateRest_of_value scanned replaced] at notRecursive ⊢
      rw [evaluateRest_of_value scanned relocated, ← List.map_cons,
        onValue (List.forall_mem_cons.mpr ⟨isGlobal, global⟩)
          fun name failed => notRecursive name (by rw [failed]; rfl)]
      cases evaluated : (Bindings.mk (macros.overlay origin set) .empty).evaluateRest
          (reference :: path) value value.toList with
      | error cause => rfl
      | ok head =>
          rw [evaluated] at notRecursive
          rw [onLater global fun name failed => notRecursive name (by rw [failed]; rfl)]

/-- If a text expands with the conditional macros put over the global ones, and no macro turns out to
be needed for its own value, then with the conditional set it expands to the same, or fails in the
same way. -/
theorem expand_eq_expand_overlay (macros : MacroTable) (origin : Origin) (set : ConditionalSet)
    (text : String)
    (notRecursive : ∀ name, (Bindings.mk (macros.overlay origin set) .empty).expand text ≠
      .error (.recursive name)) :
    (Bindings.mk macros set).expand text =
      (Bindings.mk (macros.overlay origin set) .empty).expand text := by
  simp only [expand_eq_evaluateRest] at notRecursive ⊢
  exact evaluateRest_relocated macros origin set [] text text.toList (List.forall_mem_nil _)
    notRecursive

theorem expand_eq_expand_overlay_nested :
    let macros := MacroTable.assign (.assign .empty false "CC" "cc $(OPT)") false "OPT" "-O2"
    let set : ConditionalSet := Table.insert (.insert .empty "OPT" "$(LEVEL) -g") "LEVEL" "-O0"
    let overlaid := macros.overlay .file set
    (∀ name, (Bindings.mk overlaid .empty).expand "$(CC)" ≠ .error (.recursive name)) ∧
      (Bindings.mk overlaid .empty).expand "$(CC)" = .ok "cc -O0 -g" ∧
      (Bindings.mk macros set).expand "$(CC)" = .ok "cc -O0 -g" := by
  intro macros set overlaid
  have expanded : (Bindings.mk overlaid .empty).expand "$(CC)" = .ok "cc -O0 -g" := by cbv
  have notRecursive : ∀ name, (Bindings.mk overlaid .empty).expand "$(CC)" ≠
      .error (.recursive name) := by
    intro name failed
    rw [expanded] at failed
    cases failed
  exact ⟨notRecursive, expanded,
    (expand_eq_expand_overlay macros .file set "$(CC)" notRecursive).trans expanded⟩

/-- A conditional macro that is needed for its own value is refused in the one table, though not in
the two. -/
example : (Bindings.mk (MacroTable.overlay (.assign .empty false "CC" "cc") .file
    (Table.insert .empty "CC" "$(CC) -m32")) .empty).expand "$(CC)" = .error (.recursive "CC") := by
  cbv

end Expansion

end DryMake
