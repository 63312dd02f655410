import DryMake.Text.Blank
import Mathlib

/-!
Trimming and cutting of texts that are put together from parts. A character that is not blank parts
a text into a side that only the start of the trimming sees and one that only its end sees.
-/

namespace DryMake.Text

variable {before after text : List Char} {c : Char}

private theorem trimStart_append_cons (ink : isBlank c = false) (before after : List Char) :
    trimStart (before ++ c :: after) = trimStart before ++ c :: after := by
  unfold trimStart
  have stops : (c :: after).dropWhile isBlank = c :: after :=
    List.dropWhile_cons_of_neg (by rw [ink]; exact Bool.false_ne_true)
  rw [List.dropWhile_append, stops]
  split
  · rename_i empty
    rw [List.isEmpty_iff.mp empty, List.nil_append]
  · rfl

private theorem trimEnd_append_cons (ink : isBlank c = false) (before after : List Char) :
    trimEnd (before ++ c :: after) = before ++ c :: trimEnd after := by
  have fromTheEnd := trimStart_append_cons ink after.reverse before.reverse
  unfold trimStart at fromTheEnd
  unfold trimEnd
  rw [List.reverse_append, List.reverse_cons, List.append_assoc, List.singleton_append,
    fromTheEnd]
  simp

theorem trim_append_cons (ink : isBlank c = false) (before after : List Char) :
    trim (before ++ c :: after) = trimStart before ++ c :: trimEnd after := by
  rw [trim, trimStart_append_cons ink, trimEnd_append_cons ink]

private theorem trimStart_of_allBlank (blank : ∀ c ∈ text, isBlank c = true) :
    trimStart text = [] :=
  List.dropWhile_eq_nil_iff.mpr blank

private theorem trimEnd_of_allBlank (blank : ∀ c ∈ text, isBlank c = true) : trimEnd text = [] := by
  rw [trimEnd, List.dropWhile_eq_nil_iff.mpr fun c member => blank c (List.mem_reverse.mp member),
    List.reverse_nil]

theorem trim_trimStart (text : List Char) : trim (trimStart text) = trim text := by
  rw [trim, trim, trimStart, trimStart, List.dropWhile_idempotent]

theorem trim_trimEnd (text : List Char) : trim (trimEnd text) = trim text := by
  by_cases inked : ∃ c ∈ text, isBlank c = false
  · obtain ⟨c, member, ink⟩ := inked
    obtain ⟨before, after, rfl⟩ := List.append_of_mem member
    have twice : trimEnd (trimEnd after) = trimEnd after := by
      unfold trimEnd
      rw [List.reverse_reverse, List.dropWhile_idempotent]
    rw [trimEnd_append_cons ink, trim_append_cons ink, trim_append_cons ink, twice]
  · have blank : ∀ c ∈ text, isBlank c = true := by
      intro c member
      by_contra notBlank
      exact inked ⟨c, member, Bool.eq_false_iff.mpr notBlank⟩
    rw [trimEnd_of_allBlank blank, trim, trim, trimStart_of_allBlank blank]
    rfl

theorem trim_trim (text : List Char) : trim (trim text) = trim text :=
  (trim_trimEnd (trimStart text)).trans (trim_trimStart text)

theorem trim_sublist (text : List Char) : (trim text).Sublist text := by
  have atEnd : (trim text).Sublist (trimStart text) := by
    have reversed := (List.dropWhile_sublist isBlank (l := (trimStart text).reverse)).reverse
    rwa [List.reverse_reverse] at reversed
  exact atEnd.trans (List.dropWhile_sublist isBlank)

theorem trim_cons_blank (blank : isBlank c = true) (text : List Char) :
    trim (c :: text) = trim text := by
  rw [trim, trimStart, List.dropWhile_cons_of_pos blank]
  rfl

theorem trim_concat_blank (blank : isBlank c = true) (text : List Char) :
    trim (text ++ [c]) = trim text := by
  have endsSame : trimEnd (text ++ [c]) = trimEnd text := by
    rw [trimEnd, List.reverse_concat, List.dropWhile_cons_of_pos blank]
    rfl
  rw [← trim_trimEnd, endsSame, trim_trimEnd]

theorem trim_of_forall_not_blank (ink : ∀ c ∈ text, isBlank c = false) : trim text = text := by
  have noneDropped : ∀ part : List Char, (∀ c ∈ part, isBlank c = false) →
      part.dropWhile isBlank = part := by
    intro part inkInPart
    cases part with
    | nil => rfl
    | cons c rest =>
        exact List.dropWhile_cons_of_neg
          (by rw [inkInPart c List.mem_cons_self]; exact Bool.false_ne_true)
  rw [trim, trimStart, noneDropped text ink, trimEnd,
    noneDropped text.reverse fun c member => ink c (List.mem_reverse.mp member),
    List.reverse_reverse]

def lastInk? (text : List Char) : Option Char :=
  (trimEnd text).getLast?

theorem lastInk?_append (before after : List Char) :
    lastInk? (before ++ after) = (lastInk? after).or (lastInk? before) := by
  unfold lastInk? trimEnd
  rw [List.getLast?_reverse, List.getLast?_reverse, List.getLast?_reverse, List.reverse_append,
    List.dropWhile_append]
  split
  · rename_i empty
    rw [List.isEmpty_iff.mp empty, List.head?_nil, Option.none_or]
  · rw [List.head?_append]
    rename_i nonempty
    cases inked : after.reverse.dropWhile isBlank with
    | nil => exact absurd (by rw [inked]; rfl) nonempty
    | cons c rest => rfl

theorem mem_of_lastInk? (last : lastInk? text = some c) : c ∈ text := by
  have inTrimmed := List.mem_of_getLast? last
  unfold trimEnd at inTrimmed
  have inRest := (List.dropWhile_sublist isBlank).subset (List.mem_reverse.mp inTrimmed)
  exact List.mem_reverse.mp inRest

theorem trimEnd_of_trim_eq_self (trimmed : trim text = text) : trimEnd text = text := by
  have twice : trimEnd (trim text) = trim text := by
    unfold trim trimEnd
    rw [List.reverse_reverse, List.dropWhile_idempotent]
  rwa [trimmed] at twice

theorem isBlank_of_getLast?_of_trim_eq_self (trimmed : trim text = text)
    (last : text.getLast? = some c) : isBlank c = false := by
  rw [← trimEnd_of_trim_eq_self trimmed, trimEnd, List.getLast?_reverse] at last
  have stopped := List.head?_dropWhile_not isBlank text.reverse
  rw [last] at stopped
  simpa using stopped

theorem words_cons_blank (blank : isBlank c = true) (text : List Char) :
    words (String.ofList (c :: text)) = words (String.ofList text) := by
  unfold words
  rw [String.toList_ofList, String.toList_ofList, List.splitOnP_cons_eq_if_modifyHead, if_pos blank]
  rfl

section

variable {word : String} (nonempty : word ≠ "") (ink : ∀ c ∈ word.toList, isBlank c = false)

include nonempty ink

theorem words_of_forall_not_blank : words word = [word] := by
  have notEmpty : word.toList.isEmpty = false := by
    rw [List.isEmpty_eq_false_iff, ne_eq, String.toList_eq_nil_iff]
    exact nonempty
  unfold words
  rw [List.splitOnP_eq_singleton ink]
  simp [notEmpty]

theorem words_append_blank (rest : String) :
    words (word ++ " " ++ rest) = word :: words rest := by
  have notEmpty : word.toList.isEmpty = false := by
    rw [List.isEmpty_eq_false_iff, ne_eq, String.toList_eq_nil_iff]
    exact nonempty
  have characters : (word ++ " " ++ rest).toList = word.toList ++ ' ' :: rest.toList := by
    simp
  unfold words
  rw [characters, List.splitOnP_append_cons_of_forall_mem ink ' ' (by decide)]
  simp [notEmpty]

end

theorem words_intercalate {parts : List String}
    (areWords : ∀ part ∈ parts, part ≠ "" ∧ ∀ c ∈ part.toList, isBlank c = false) :
    words (" ".intercalate parts) = parts := by
  induction parts with
  | nil => rfl
  | cons part rest inductionHypothesis =>
      obtain ⟨⟨nonempty, ink⟩, onRest⟩ := List.forall_mem_cons.mp areWords
      cases rest with
      | nil => exact words_of_forall_not_blank nonempty ink
      | cons next others =>
          rw [String.intercalate_cons_cons, words_append_blank nonempty ink,
            inductionHypothesis onRest]

end DryMake.Text
