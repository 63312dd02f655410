import DryMake.Budget
import DryMake.Conditional
import DryMake.Expansion.Error
import DryMake.Expansion.Token
import DryMake.Macro

/-!
Expansion of a text: every reference in it is replaced by the expanded value of the macro that it
names. A conditional macro goes before a global one of the same name, but within its own value its
name means the global one. A global macro that is needed for its own value is an error; a name
without a value stands for nothing. A pattern, which is a name with a colon or a percent sign in it,
is copied with its parentheses.

Values are expanded on a stack of frames, one for the text and one for each value that is open. The
references of the open values are kept beside the stack, and none of them is opened again before its
value is finished. So the walk ends for all macros, those that refer to themselves included.
-/

namespace DryMake

namespace Expansion

inductive Scope where
  | conditional
  | global
deriving DecidableEq, Repr

structure Reference where
  scope : Scope
  name : String
deriving DecidableEq, Repr

/-- The macros that an expansion sees: the global ones, and one target's conditional set. -/
structure Bindings where
  macros : MacroTable
  conditional : ConditionalSet

namespace Bindings

def value? (bindings : Bindings) : Reference → Option String
  | ⟨.conditional, name⟩ => bindings.conditional.get? name
  | ⟨.global, name⟩ => bindings.macros.value? name

def references (bindings : Bindings) : List Reference :=
  bindings.conditional.names.map (Reference.mk .conditional) ++
    bindings.macros.names.map (Reference.mk .global)

def values (bindings : Bindings) : List String :=
  bindings.conditional.entries.map Prod.snd ++
    bindings.macros.entries.map fun entry => entry.2.value

theorem mem_references {bindings : Bindings} {reference : Reference} {value : String}
    (found : bindings.value? reference = some value) :
    reference ∈ bindings.references := by
  obtain ⟨scope, name⟩ := reference
  rw [references, List.mem_append]
  cases scope with
  | conditional =>
      exact Or.inl (List.mem_map.mpr ⟨name, Table.mem_names_of_get? found, rfl⟩)
  | global =>
      obtain ⟨entry, known, -⟩ := Option.map_eq_some_iff.mp found
      exact Or.inr (List.mem_map.mpr ⟨name, Table.mem_names_of_get? known, rfl⟩)

theorem mem_values {bindings : Bindings} {reference : Reference} {value : String}
    (found : bindings.value? reference = some value) : value ∈ bindings.values := by
  obtain ⟨scope, name⟩ := reference
  rw [values, List.mem_append]
  cases scope with
  | conditional =>
      exact Or.inl (List.mem_map.mpr ⟨(name, value), Table.mem_entries_of_get? found, rfl⟩)
  | global =>
      obtain ⟨entry, known, sameValue⟩ := Option.map_eq_some_iff.mp found
      exact Or.inr (List.mem_map.mpr
        ⟨(name, entry), Table.mem_entries_of_get? known, sameValue⟩)

end Bindings

def isPattern (name : List Char) : Bool :=
  name.any fun c => c == ':' || c == '%'

inductive Replacement where
  | text (text : String)
  | value (reference : Reference) (value : String)
  /-- Nothing can: the macro is needed for its own value. -/
  | recursive (name : String)

/-- What takes the place of a name that is not a pattern, while the references of `active` are
open. -/
def Bindings.lookup (bindings : Bindings) (active : List Reference) (name : String) :
    Replacement :=
  match if ⟨.conditional, name⟩ ∈ active then none else bindings.conditional.get? name with
  | some value => .value ⟨.conditional, name⟩ value
  | none =>
      match bindings.macros.value? name with
      | none => .text ""
      | some value =>
          if ⟨.global, name⟩ ∈ active then .recursive name else .value ⟨.global, name⟩ value

/-- What takes the place of a token, while the references of `active` are open. -/
def Bindings.replace (bindings : Bindings) (active : List Reference) : Token → Replacement
  | .plain c => .text (String.ofList [c])
  | .escaped c => .text (String.ofList (if c = '$' ∨ c = '\\' then [c] else ['\\', c]))
  | .dollar => .text "$"
  | .group body =>
      if isPattern body then .text ("$(" ++ String.ofList body ++ ")")
      else bindings.lookup active (String.ofList body)

theorem Bindings.of_replace_eq_value {bindings : Bindings} {active : List Reference}
    {token : Token} {reference : Reference} {value : String}
    (replaced : bindings.replace active token = .value reference value) :
    bindings.value? reference = some value ∧ reference ∉ active := by
  unfold replace at replaced
  split at replaced <;> try contradiction
  split at replaced
  · contradiction
  · unfold lookup at replaced
    split at replaced
    · rename_i found
      split at found
      · contradiction
      · rename_i fresh
        cases replaced
        exact ⟨found, fresh⟩
    · split at replaced
      · contradiction
      · rename_i found
        split at replaced
        · contradiction
        · rename_i fresh
          cases replaced
          exact ⟨found, fresh⟩

theorem Bindings.of_replace_eq_recursive {bindings : Bindings} {active : List Reference}
    {token : Token} {name : String} (replaced : bindings.replace active token = .recursive name) :
    (∃ value, bindings.macros.value? name = some value) ∧ ⟨.global, name⟩ ∈ active := by
  unfold replace at replaced
  split at replaced <;> try contradiction
  split at replaced
  · contradiction
  · unfold lookup at replaced
    split at replaced
    · contradiction
    · split at replaced
      · contradiction
      · rename_i value found
        split at replaced
        · rename_i isOpen
          cases replaced
          exact ⟨⟨value, found⟩, isOpen⟩
        · contradiction

structure Frame where
  text : String
  /-- The reference whose value the text is; none for the text that was given. -/
  origin : Option Reference
  rest : List Char
  output : String
deriving DecidableEq, Repr

def Frame.start (text : String) (origin : Option Reference) : Frame where
  text
  origin
  rest := text.toList
  output := ""

structure Walk where
  frames : List Frame
  active : List Reference
deriving DecidableEq, Repr

def Walk.start (text : String) : Walk where
  frames := [.start text none]
  active := []

inductive Next where
  | more (later : Walk)
  | done (result : Except ExpansionError String)

/-- Reads one token of the innermost text, or hands the output of a text that is read to the one
around it. -/
def step (bindings : Bindings) (walk : Walk) : Next :=
  match walk.frames with
  | [] => .done (.ok "")
  | frame :: below =>
      match scan frame.rest with
      | .finished =>
          match below with
          | [] => .done (.ok frame.output)
          | parent :: below =>
              .more
                { frames := { parent with output := parent.output ++ frame.output } :: below
                  active := frame.origin.elim walk.active walk.active.erase }
      | .stray found => .done (.error (.strayDollar found frame.text))
      | .unterminated => .done (.error (.unterminated frame.text))
      | .token first rest =>
          match bindings.replace walk.active first with
          | .text text =>
              .more
                { walk with
                  frames := { frame with rest, output := frame.output ++ text } :: below }
          | .recursive name => .done (.error (.recursive name))
          | .value reference value =>
              .more
                { frames := .start value (some reference) :: { frame with rest } :: below
                  active := walk.active.insert reference }

inductive Move (bindings : Bindings) : Walk → Walk → Prop where
  | handBack {frame parent : Frame} {below : List Frame} {active : List Reference}
      (finished : scan frame.rest = .finished) :
      Move bindings ⟨frame :: parent :: below, active⟩
        ⟨{ parent with output := parent.output ++ frame.output } :: below,
          frame.origin.elim active active.erase⟩
  | read {frame : Frame} {below : List Frame} {active : List Reference} {first : Token}
      {rest : List Char} {text : String} (scanned : scan frame.rest = .token first rest)
      (replaced : bindings.replace active first = .text text) :
      Move bindings ⟨frame :: below, active⟩
        ⟨{ frame with rest, output := frame.output ++ text } :: below, active⟩
  | openValue {frame : Frame} {below : List Frame} {active : List Reference} {first : Token}
      {rest : List Char} {reference : Reference} {value : String}
      (scanned : scan frame.rest = .token first rest)
      (replaced : bindings.replace active first = .value reference value) :
      Move bindings ⟨frame :: below, active⟩
        ⟨.start value (some reference) :: { frame with rest } :: below, active.insert reference⟩

theorem move_of_step {bindings : Bindings} {walk later : Walk}
    (stepped : step bindings walk = .more later) : Move bindings walk later := by
  obtain ⟨frames, active⟩ := walk
  unfold step at stepped
  simp only at stepped
  split at stepped
  · contradiction
  · split at stepped
    · rename_i finished
      split at stepped
      · contradiction
      · cases stepped
        exact .handBack finished
    · contradiction
    · contradiction
    · rename_i scanned
      split at stepped
      · rename_i replaced
        cases stepped
        exact .read scanned replaced
      · contradiction
      · rename_i replaced
        cases stepped
        exact .openValue scanned replaced

def Bindings.base (bindings : Bindings) : Nat :=
  Budget.largest (bindings.values.map String.length) + 2

def Frame.load (frame : Frame) : Budget.Load Reference where
  pending := frame.rest.length
  opened := frame.origin

def Walk.weight (bindings : Bindings) (walk : Walk) : Nat :=
  Budget.total bindings.base bindings.references walk.active (walk.frames.map Frame.load)

private theorem base_pos (bindings : Bindings) : 0 < bindings.base :=
  Nat.succ_pos _

private theorem length_succ_lt_base {bindings : Bindings} {reference : Reference} {value : String}
    (found : bindings.value? reference = some value) :
    value.toList.length + 1 < bindings.base := by
  have bounded : value.length ≤ Budget.largest (bindings.values.map String.length) :=
    Budget.le_largest (List.mem_map_of_mem (Bindings.mem_values found))
  rw [String.length_toList]
  unfold Bindings.base
  omega

theorem step_decreases {bindings : Bindings} {walk later : Walk}
    (stepped : step bindings walk = .more later) :
    later.weight bindings < walk.weight bindings := by
  have positive := base_pos bindings
  unfold Walk.weight
  cases move_of_step stepped with
  | @handBack frame =>
      exact Budget.total_close_lt positive bindings.references _ frame.load _
  | @read frame _ _ _ _ _ scanned =>
      exact Budget.total_read_lt positive (length_rest_lt_of_scan scanned) frame.origin _ _ _
  | @openValue frame _ _ _ _ _ _ scanned replaced =>
      have opened := Bindings.of_replace_eq_value replaced
      exact Budget.total_open_lt (length_rest_lt_of_scan scanned) (length_succ_lt_base opened.1)
        (Bindings.mem_references opened.1) opened.2 frame.origin _

def run (bindings : Bindings) (walk : Walk) : Except ExpansionError String :=
  match _stepped : step bindings walk with
  | .more later => run bindings later
  | .done result => result
termination_by walk.weight bindings
decreasing_by exact step_decreases _stepped

theorem run_of_step_more {bindings : Bindings} {walk later : Walk}
    (stepped : step bindings walk = .more later) : run bindings walk = run bindings later := by
  rw [run]
  split
  · rename_i other same
    rw [stepped] at same
    cases same
    rfl
  · rename_i result same
    rw [stepped] at same
    cases same

theorem run_of_step_done {bindings : Bindings} {walk : Walk}
    {result : Except ExpansionError String} (stepped : step bindings walk = .done result) :
    run bindings walk = result := by
  rw [run]
  split
  · rename_i later same
    rw [stepped] at same
    cases same
  · rename_i other same
    rw [stepped] at same
    cases same
    rfl

def Bindings.expand (bindings : Bindings) (text : String) :
    Except ExpansionError String :=
  run bindings (.start text)

end Expansion

end DryMake
