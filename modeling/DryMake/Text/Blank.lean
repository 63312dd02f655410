/-!
Blank characters, and what is done with them: trimming the ends of a text and cutting a text into
words. A character is blank when it has the Unicode property White_Space, so the no-break space and
the ideographic space are blank and the zero-width space is not.
-/

namespace DryMake.Text

def blankRanges : List (Nat × Nat) :=
  [(0x0009, 0x000D), (0x0020, 0x0020), (0x0085, 0x0085), (0x00A0, 0x00A0), (0x1680, 0x1680),
   (0x2000, 0x200A), (0x2028, 0x2029), (0x202F, 0x202F), (0x205F, 0x205F), (0x3000, 0x3000)]

def isBlank (c : Char) : Bool :=
  blankRanges.any fun (first, last) => first ≤ c.toNat && c.toNat ≤ last

def allBlank (text : List Char) : Bool :=
  text.all isBlank

def trimStart (text : List Char) : List Char :=
  text.dropWhile isBlank

def trimEnd (text : List Char) : List Char :=
  (text.reverse.dropWhile isBlank).reverse

def trim (text : List Char) : List Char :=
  trimEnd (trimStart text)

def trimmed (text : String) : String :=
  String.ofList (trim text.toList)

def words (text : String) : List String :=
  ((text.toList.splitOnP isBlank).filter (!·.isEmpty)).map String.ofList

theorem mem_splitOnP_false {split : Char → Bool} {text piece : List Char}
    (member : piece ∈ text.splitOnP split) : ∀ c ∈ piece, split c = false := by
  induction text generalizing piece with
  | nil => simp_all
  | cons first rest inductionHypothesis =>
      rw [List.splitOnP_cons_eq_if_modifyHead] at member
      split at member
      · rcases List.mem_cons.mp member with empty | inRest
        · simp [empty]
        · exact inductionHypothesis inRest
      · rename_i notSplit
        cases pieces : rest.splitOnP split with
        | nil => simp_all
        | cons head tail =>
            rw [pieces, List.modifyHead_cons] at member
            rcases List.mem_cons.mp member with atHead | inTail
            · subst atHead
              intro c present
              rcases List.mem_cons.mp present with isFirst | inHead
              · subst isFirst
                simpa using notSplit
              · exact inductionHypothesis (by rw [pieces]; exact List.mem_cons_self) c inHead
            · exact inductionHypothesis (by rw [pieces]; exact List.mem_cons_of_mem _ inTail)

theorem of_mem_words {text word : String} (member : word ∈ words text) :
    word ≠ "" ∧ ∀ c ∈ word.toList, isBlank c = false := by
  simp only [words, List.mem_map, List.mem_filter] at member
  obtain ⟨piece, ⟨split, nonempty⟩, rfl⟩ := member
  refine ⟨?_, ?_⟩
  · intro same
    have empty := congrArg String.toList same
    rw [String.toList_ofList] at empty
    simp [empty] at nonempty
  · rw [String.toList_ofList]
    exact mem_splitOnP_false split

end DryMake.Text
