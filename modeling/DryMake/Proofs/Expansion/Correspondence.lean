import DryMake.Proofs.Expansion.Evaluator

/-!
The walk over a stack of frames, with one set of open references, against the evaluator. The walk
suspends a text in the middle when it opens a value, and goes on with it when the value is read; the
references that are open are then again those of the path that led to the text.
-/

namespace DryMake.Expansion

section

variable {bindings : Bindings} {frame : Frame} {below : List Frame} {active : List Reference}
  {first : Token} {rest : List Char}

private theorem step_of_text {text : String} (scanned : scan frame.rest = .token first rest)
    (replaced : bindings.replace active first = .text text) :
    step bindings ⟨frame :: below, active⟩ =
      .more ⟨{ frame with rest, output := frame.output ++ text } :: below, active⟩ := by
  simp only [step, scanned, replaced]

private theorem step_of_value {reference : Reference} {value : String}
    (scanned : scan frame.rest = .token first rest)
    (replaced : bindings.replace active first = .value reference value) :
    step bindings ⟨frame :: below, active⟩ =
      .more ⟨.start value (some reference) :: { frame with rest } :: below,
        active.insert reference⟩ := by
  simp only [step, scanned, replaced]

end

private theorem run_of_value_read (bindings : Bindings) (value expansion : String)
    (reference : Reference) (parent : Frame) (below : List Frame) (path : List Reference) :
    run bindings
        ⟨⟨value, some reference, [], expansion⟩ :: parent :: below, reference :: path⟩ =
      run bindings ⟨{ parent with output := parent.output ++ expansion } :: below, path⟩ := by
  have stepped : step bindings
      ⟨⟨value, some reference, [], expansion⟩ :: parent :: below, reference :: path⟩ =
        .more ⟨{ parent with output := parent.output ++ expansion } :: below, path⟩ := by
    simp only [step, scan, Option.elim_some, List.erase_cons_head]
  exact run_of_step_more stepped

/-- Whatever waits on the stack, the walk reads the innermost text to its end as the evaluator does,
with the references of the path open. -/
theorem run_eq_evaluateRest (bindings : Bindings) (path : List Reference) (text : String)
    (rest : List Char) : ∀ (origin : Option Reference) (output : String) (below : List Frame),
    run bindings ⟨⟨text, origin, rest, output⟩ :: below, path⟩ =
      bindings.evaluateRest path text rest >>= fun tail =>
        run bindings ⟨⟨text, origin, [], output ++ tail⟩ :: below, path⟩ := by
  induction path, text, rest using evaluation_induction bindings with
  | finished path text rest scanned =>
      intro origin output below
      rw [evaluateRest_of_finished scanned, eq_nil_of_scan_eq_finished scanned]
      change _ = run bindings ⟨⟨text, origin, [], output ++ ""⟩ :: below, path⟩
      rw [String.append_empty]
  | stray path text rest found scanned =>
      intro origin output below
      rw [evaluateRest_of_stray scanned]
      apply run_of_step_done
      simp only [step, scanned]
      rfl
  | unterminated path text rest scanned =>
      intro origin output below
      rw [evaluateRest_of_unterminated scanned]
      apply run_of_step_done
      simp only [step, scanned]
      rfl
  | read path text rest first later head scanned replaced onLater =>
      intro origin output below
      rw [evaluateRest_of_text scanned replaced,
        run_of_step_more (step_of_text scanned replaced), onLater]
      simp only [bind_assoc, pure_bind, String.append_assoc]
  | recursive path text rest first later name scanned replaced =>
      intro origin output below
      rw [evaluateRest_of_recursive scanned replaced]
      apply run_of_step_done
      simp only [step, scanned, replaced]
      rfl
  | openValue path text rest first later reference value scanned replaced onValue onLater =>
      intro origin output below
      have fresh := (Bindings.of_replace_eq_value replaced).2
      rw [evaluateRest_of_value scanned replaced,
        run_of_step_more (step_of_value scanned replaced), List.insert_of_not_mem fresh,
        Frame.start, onValue]
      simp only [bind_assoc, pure_bind]
      congr 1
      funext expansion
      rw [String.empty_append, run_of_value_read, onLater]
      simp only [String.append_assoc]

theorem expand_eq_evaluateRest (bindings : Bindings) (text : String) :
    bindings.expand text = bindings.evaluateRest [] text text.toList := by
  have whole : ∀ output : String,
      run bindings ⟨[⟨text, none, [], output⟩], []⟩ = .ok output := by
    intro output
    apply run_of_step_done
    simp only [step, scan]
  unfold Bindings.expand Walk.start Frame.start
  rw [run_eq_evaluateRest]
  simp only [String.empty_append, whole]
  exact bind_pure _

/-- What an error says of the expansion of a text is so. A fault of a text is met on reading on in
the text that it names, which is the one given or the value of a macro; and a macro that is needed
for its own value has one. -/
def Bindings.Accounts (bindings : Bindings) (text : String) : ExpansionError → Prop
  | .strayDollar found input =>
      (input = text ∨ input ∈ bindings.values) ∧
        ∃ rest, rest <:+ input.toList ∧ scan rest = .stray found
  | .unterminated input =>
      (input = text ∨ input ∈ bindings.values) ∧
        ∃ rest, rest <:+ input.toList ∧ scan rest = .unterminated
  | .recursive name => ∃ value, bindings.macros.value? name = some value

private theorem accounts_of_value {bindings : Bindings} {reference : Reference}
    {value : String} (found : bindings.value? reference = some value) (text : String)
    {error : ExpansionError} (accounted : bindings.Accounts value error) :
    bindings.Accounts text error := by
  have known : ∀ input, input = value ∨ input ∈ bindings.values → input ∈ bindings.values := by
    intro input origin
    rcases origin with same | member
    · exact same ▸ Bindings.mem_values found
    · exact member
  cases error with
  | strayDollar character input => exact ⟨Or.inr (known input accounted.1), accounted.2⟩
  | unterminated input => exact ⟨Or.inr (known input accounted.1), accounted.2⟩
  | recursive name => exact accounted

theorem error_of_bind_eq_error {Fault Value Other : Type} {first : Except Fault Value}
    {second : Value → Except Fault Other} {fault : Fault}
    (failed : first >>= second = .error fault) :
    first = .error fault ∨ ∃ value, first = .ok value ∧ second value = .error fault := by
  cases first with
  | error cause =>
      cases failed
      exact Or.inl rfl
  | ok value => exact Or.inr ⟨value, rfl, failed⟩

private theorem accounts_of_evaluateRest (bindings : Bindings) (path : List Reference)
    (text : String) (rest : List Char) : rest <:+ text.toList → ∀ error,
    bindings.evaluateRest path text rest = .error error → bindings.Accounts text error := by
  have laterSuffix : ∀ {text : String} {rest later : List Char} {first : Token},
      scan rest = .token first later → rest <:+ text.toList → later <:+ text.toList := by
    intro text rest later first scanned suffix
    rw [lexeme_append_of_scan scanned] at suffix
    exact (List.suffix_append _ _).trans suffix
  induction path, text, rest using evaluation_induction bindings with
  | finished path text rest scanned =>
      intro suffix error failed
      rw [evaluateRest_of_finished scanned] at failed
      cases failed
  | stray path text rest found scanned =>
      intro suffix error failed
      rw [evaluateRest_of_stray scanned] at failed
      cases failed
      exact ⟨Or.inl rfl, rest, suffix, scanned⟩
  | unterminated path text rest scanned =>
      intro suffix error failed
      rw [evaluateRest_of_unterminated scanned] at failed
      cases failed
      exact ⟨Or.inl rfl, rest, suffix, scanned⟩
  | read path text rest first later head scanned replaced onLater =>
      intro suffix error failed
      rw [evaluateRest_of_text scanned replaced] at failed
      rcases error_of_bind_eq_error failed with inRest | ⟨tail, evaluated, returned⟩
      · exact onLater (laterSuffix scanned suffix) error inRest
      · cases returned
  | recursive path text rest first later name scanned replaced =>
      intro suffix error failed
      rw [evaluateRest_of_recursive scanned replaced] at failed
      cases failed
      exact (Bindings.of_replace_eq_recursive replaced).1
  | openValue path text rest first later reference value scanned replaced onValue onLater =>
      intro suffix error failed
      rw [evaluateRest_of_value scanned replaced] at failed
      rcases error_of_bind_eq_error failed with inValue | ⟨head, evaluated, afterValue⟩
      · have found := (Bindings.of_replace_eq_value replaced).1
        exact accounts_of_value found text (onValue (List.suffix_refl _) error inValue)
      · rcases error_of_bind_eq_error afterValue with inRest | ⟨tail, evaluatedRest, returned⟩
        · exact onLater (laterSuffix scanned suffix) error inRest
        · cases returned

/-- The walk over the stack of frames expands a text as the evaluator does, and fails with the first
error that the evaluator meets; the error is accounted for. -/
theorem expand_eq_evaluate (bindings : Bindings) (text : String) :
    bindings.expand text = bindings.evaluate [] text ∧
      ∀ error, bindings.expand text = .error error → bindings.Accounts text error := by
  constructor
  · exact expand_eq_evaluateRest bindings text
  · intro error failed
    rw [expand_eq_evaluateRest] at failed
    exact accounts_of_evaluateRest bindings [] text text.toList (List.suffix_refl _) error failed

example : (Bindings.mk (MacroTable.assign .empty false "CC" "cc")
    (Table.insert .empty "CC" "$(CC) -m32")).expand "$(CC)" = .ok "cc -m32" := by
  cbv

end DryMake.Expansion
