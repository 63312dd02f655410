import DryMake.Table

/-!
Conditional macros: values that hold only while the rules of one target are expanded. Each target
has a set of its own, made when its first conditional macro is set.
-/

namespace DryMake

/-- The conditional macros of one target: a value, not yet expanded, for each name. -/
abbrev ConditionalSet := Table String

abbrev ConditionalTable := Table ConditionalSet

namespace ConditionalTable

def assign (conditionals : ConditionalTable) (target name value : String) : ConditionalTable :=
  conditionals.upsert target fun known => (known.getD .empty).insert name value

def entriesFor (conditionals : ConditionalTable) (target : String) : List (String × String) :=
  ((conditionals.get? target).map Table.sorted).getD []

def value? (conditionals : ConditionalTable) (target name : String) : Option String :=
  (conditionals.get? target).bind (·.get? name)

theorem get?_assign_self (conditionals : ConditionalTable) (target name value : String) :
    (conditionals.assign target name value).get? target =
      some (((conditionals.get? target).getD .empty).insert name value) := by
  rw [assign, Table.get?_upsert_self]

theorem get?_assign_of_ne (conditionals : ConditionalTable) {target other : String}
    (different : other ≠ target) (name value : String) :
    (conditionals.assign target name value).get? other = conditionals.get? other :=
  Table.get?_upsert_of_ne conditionals different _

theorem value?_assign (conditionals : ConditionalTable) (target name other key value : String) :
    (conditionals.assign other key value).value? target name =
      if key = name ∧ target = other then some value else conditionals.value? target name := by
  unfold value?
  by_cases sameTarget : target = other
  · subst sameTarget
    rw [get?_assign_self, Option.bind_some]
    by_cases sameName : key = name
    · subst sameName
      rw [if_pos ⟨rfl, rfl⟩, Table.get?_insert_self]
    · rw [if_neg (fun both => sameName both.1), Table.get?_insert_of_ne _ (Ne.symm sameName)]
      cases conditionals.get? target <;> rfl
  · rw [if_neg (fun both => sameTarget both.2), get?_assign_of_ne conditionals sameTarget]

theorem value?_eq (conditionals : ConditionalTable) (target name : String) :
    conditionals.value? target name = ((conditionals.get? target).getD .empty).get? name := by
  unfold value?
  cases conditionals.get? target <;> rfl

theorem entriesFor_eq (conditionals : ConditionalTable) (target : String) :
    conditionals.entriesFor target = ((conditionals.get? target).getD .empty).sorted := by
  unfold entriesFor
  cases conditionals.get? target with
  | none => exact List.mergeSort_nil.symm
  | some known => rfl

theorem entriesFor_congr {conditionals other : ConditionalTable} {target : String}
    (same : ∀ name, conditionals.value? target name = other.value? target name) :
    conditionals.entriesFor target = other.entriesFor target := by
  rw [entriesFor_eq, entriesFor_eq]
  refine Table.sorted_congr fun name => ?_
  rw [← value?_eq, ← value?_eq, same name]

end ConditionalTable

end DryMake
