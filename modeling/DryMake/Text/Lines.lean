import DryMake.Text.Blank

/-!
Physical lines. A line ends at a line feed, and one carriage return just before the line feed
belongs to the line end. A last line need not be ended; it is then kept as it stands, and a text
that ends with a line feed has no empty line after it.
-/

namespace DryMake.Text

def dropFinalReturn (line : List Char) : List Char :=
  if line.getLast? = some '\r' then line.dropLast else line

/-- The physical lines of a text, in order, without their line ends. -/
def lines (text : String) : List String :=
  let pieces := text.toList.splitOnP (· == '\n')
  let ended := pieces.dropLast.map dropFinalReturn
  let unended := pieces.getLast?.toList.filter (!·.isEmpty)
  (ended ++ unended).map String.ofList

private theorem mem_of_mem_dropFinalReturn {line : List Char} {c : Char}
    (member : c ∈ dropFinalReturn line) : c ∈ line := by
  unfold dropFinalReturn at member
  split at member
  · exact (List.dropLast_sublist _).subset member
  · exact member

private theorem newline_notMem_piece {text piece : List Char}
    (member : piece ∈ text.splitOnP (· == '\n')) : '\n' ∉ piece := by
  intro present
  have never := mem_splitOnP_false member '\n' present
  simp at never

theorem newline_notMem_lines {text line : String} (member : line ∈ lines text) :
    '\n' ∉ line.toList := by
  simp only [lines, List.mem_map, List.mem_append, List.mem_filter, Option.mem_toList] at member
  obtain ⟨piece, kind, rfl⟩ := member
  rw [String.toList_ofList]
  rcases kind with ⟨source, inPieces, rfl⟩ | ⟨last, _⟩
  · intro present
    exact newline_notMem_piece ((List.dropLast_sublist _).subset inPieces)
      (mem_of_mem_dropFinalReturn present)
  · exact newline_notMem_piece (List.mem_of_getLast? last)

private theorem splitOnP_ended {pieces : List (List Char)}
    (whole : ∀ piece ∈ pieces, '\n' ∉ piece) :
    (pieces.flatMap (· ++ ['\n'])).splitOnP (· == '\n') = pieces ++ [[]] := by
  induction pieces with
  | nil => rfl
  | cons piece rest inductionHypothesis =>
      obtain ⟨here, inRest⟩ := List.forall_mem_cons.mp whole
      have noSplit : ∀ c ∈ piece, (c == '\n') = false := by
        intro c member
        rw [beq_eq_false_iff_ne]
        rintro rfl
        exact here member
      rw [List.flatMap_cons, List.append_assoc, List.singleton_append,
        List.splitOnP_append_cons_of_forall_mem noSplit _ rfl, inductionHypothesis inRest,
        List.cons_append]

/-- Lines that are written with a line feed after each are the lines of the text, but for a carriage
return that goes with the line feed. -/
theorem lines_join {written : List String} (whole : ∀ line ∈ written, '\n' ∉ line.toList) :
    lines (String.join (written.map (· ++ "\n"))) =
      written.map fun line => String.ofList (dropFinalReturn line.toList) := by
  have characters : (String.join (written.map (· ++ "\n"))).toList =
      (written.map String.toList).flatMap (· ++ ['\n']) := by
    rw [String.toList_join, List.flatMap_map, List.flatMap_map]
    congr 1
    funext line
    rw [String.toList_append]
    rfl
  have pieces : ∀ piece ∈ written.map String.toList, '\n' ∉ piece := by
    intro piece member
    obtain ⟨line, isLine, rfl⟩ := List.mem_map.mp member
    exact whole line isLine
  unfold lines
  rw [characters, splitOnP_ended pieces]
  simp [List.map_map, Function.comp_def]

theorem dropFinalReturn_of_getLast?_ne {line : List Char} (noReturn : line.getLast? ≠ some '\r') :
    dropFinalReturn line = line := by
  rw [dropFinalReturn, if_neg noReturn]

theorem dropFinalReturn_append_return (line : List Char) :
    dropFinalReturn (line ++ ['\r']) = line := by
  rw [dropFinalReturn, List.getLast?_concat, if_pos rfl, List.dropLast_concat]

end DryMake.Text
