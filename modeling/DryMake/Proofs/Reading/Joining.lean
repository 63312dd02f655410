import DryMake.Proofs.Reading.Inclusion
import DryMake.Proofs.Reading.Nesting

/-!
Logical lines without the loop that joins them. A list of physical lines has one partition into
groups of lines that go on and one that does not, where the last group may lack its end. Each group
has its joined text and the number of its first line, and reading the list lets these take effect in
order. So a group can be written in one line, unless its joined text goes on itself: only the
failures further down then name other lines.
-/

namespace DryMake.LogicalLine

/-- The last character, trailing blanks aside, is a backslash. -/
def GoesOn (line : String) : Prop :=
  (Text.trimEnd line.toList).getLast? = some '\\'

instance : DecidablePred GoesOn := fun line =>
  inferInstanceAs (Decidable ((Text.trimEnd line.toList).getLast? = some '\\'))

def body (line : String) : List Char :=
  if GoesOn line then (Text.trimEnd line.toList).dropLast else line.toList

private theorem body_of_not_goesOn {line : String} (ends : ¬ GoesOn line) :
    body line = line.toList :=
  if_neg ends

private theorem continued?_eq (line : String) :
    continued? line = if GoesOn line then some (body line) else none := by
  by_cases goesOn : GoesOn line
  · obtain ⟨before, ended⟩ := List.getLast?_eq_some_iff.mp goesOn
    rw [if_pos goesOn, body, if_pos goesOn, continued?, ended]
    simp
  · rw [if_neg goesOn]
    unfold continued?
    split
    · rename_i before reversed
      refine absurd ?_ goesOn
      rw [GoesOn, List.getLast?_eq_head?_reverse, reversed]
      rfl
    · rfl

private theorem isSome_continued?_iff {line : String} :
    (continued? line).isSome = true ↔ GoesOn line := by
  rw [continued?_eq]
  split <;> simp [*]

private theorem continued?_eq_none_iff {line : String} :
    continued? line = none ↔ ¬ GoesOn line := by
  rw [← isSome_continued?_iff, Bool.not_eq_true, Option.isSome_eq_false_iff,
    Option.isNone_iff_eq_none]

/-- The lines in groups: only the last line of a group does not go on, or nothing comes after it. -/
structure IsPartition (lines : List String) (parts : List (List String)) : Prop where
  flatten_eq : parts.flatten = lines
  nonempty : ∀ part ∈ parts, part ≠ []
  goesOn : ∀ part ∈ parts, ∀ line ∈ part.dropLast, GoesOn line
  ends : ∀ part ∈ parts.dropLast, ∀ last ∈ part.getLast?, ¬ GoesOn last

private theorem isGroup_iff {part : List String} :
    IsGroup part ↔ part ≠ [] ∧ ∀ line ∈ part.dropLast, GoesOn line := by
  constructor
  · intro isGroup
    refine ⟨by cases isGroup <;> simp, ?_⟩
    induction isGroup with
    | last line => simp
    | @more line group goesOn rest inductionHypothesis =>
        cases rest <;> simp_all [isSome_continued?_iff]
  · rintro ⟨nonempty, goesOn⟩
    induction part with
    | nil => exact absurd rfl nonempty
    | cons line rest inductionHypothesis =>
        cases rest with
        | nil => exact .last line
        | cons next others =>
            rw [List.dropLast_cons_cons, List.forall_mem_cons] at goesOn
            exact .more (isSome_continued?_iff.mpr goesOn.1)
              (inductionHypothesis (List.cons_ne_nil _ _) goesOn.2)

private theorem endsWhole_iff {part : List String} :
    EndsWhole part ↔ ∀ last ∈ part.getLast?, ¬ GoesOn last := by
  simp only [EndsWhole, continued?_eq_none_iff]

section

variable {lines part : List String} {parts before after : List (List String)}

private theorem IsPartition.isGroup (partition : IsPartition lines parts) (member : part ∈ parts) :
    IsGroup part :=
  isGroup_iff.mpr ⟨partition.nonempty part member, partition.goesOn part member⟩

private theorem isPartition_iff :
    IsPartition lines parts ↔ parts.flatten = lines ∧ (∀ part ∈ parts, IsGroup part) ∧
      ∀ part ∈ parts.dropLast, EndsWhole part := by
  constructor
  · intro partition
    exact ⟨partition.flatten_eq, fun part member => partition.isGroup member,
      fun part member => endsWhole_iff.mpr (partition.ends part member)⟩
  · rintro ⟨whole, areGroups, ends⟩
    exact ⟨whole, fun part member => (isGroup_iff.mp (areGroups part member)).1,
      fun part member => (isGroup_iff.mp (areGroups part member)).2,
      fun part member => endsWhole_iff.mp (ends part member)⟩

private theorem isPartition_groups (lines : List String) : IsPartition lines (groups lines) :=
  isPartition_iff.mpr ⟨flatten_groups lines, fun _ => isGroup_of_mem_groups,
    fun _ => endsWhole_of_mem_dropLast⟩

private theorem groups_append (isGroup : IsGroup part) {rest : List String}
    (whole : EndsWhole part ∨ rest = []) : groups (part ++ rest) = part :: groups rest := by
  induction isGroup with
  | last line =>
      rcases whole with whole | rfl
      · have ends : continued? line = none := whole line rfl
        simp [groups, ends]
      · cases goesOn : continued? line <;> simp [groups, goesOn]
  | @more line group goesOn isGroup inductionHypothesis =>
      have restWhole : EndsWhole group ∨ rest = [] := whole.imp_left fun whole => by
        cases isGroup <;> exact whole.tail
      obtain ⟨body, goesOn⟩ := Option.isSome_iff_exists.mp goesOn
      rw [List.cons_append, groups, inductionHypothesis restWhole, goesOn]

theorem IsPartition.of_cons (partition : IsPartition lines (part :: parts)) :
    (EndsWhole part ∨ parts.flatten = []) ∧ IsPartition parts.flatten parts := by
  obtain ⟨-, areGroups, ends⟩ := isPartition_iff.mp partition
  have inRest := (List.forall_mem_cons.mp areGroups).2
  cases parts with
  | nil => exact ⟨Or.inr rfl, isPartition_iff.mpr ⟨rfl, inRest, by simp⟩⟩
  | cons next others =>
      rw [List.dropLast_cons_cons, List.forall_mem_cons] at ends
      exact ⟨Or.inl ends.1, isPartition_iff.mpr ⟨rfl, inRest, ends.2⟩⟩

private theorem IsPartition.eq_groups (partition : IsPartition lines parts) :
    parts = groups lines := by
  induction parts generalizing lines with
  | nil =>
      rw [← partition.flatten_eq]
      rfl
  | cons part rest inductionHypothesis =>
      obtain ⟨whole, ofRest⟩ := partition.of_cons
      rw [← partition.flatten_eq, List.flatten_cons,
        groups_append (partition.isGroup List.mem_cons_self) whole, ← inductionHypothesis ofRest]

theorem IsPartition.replace {group other : List String}
    (partition : IsPartition lines (before ++ group :: after)) (isGroup : IsGroup other)
    (whole : EndsWhole other) :
    IsPartition (before.flatten ++ other ++ after.flatten) (before ++ other :: after) := by
  obtain ⟨-, areGroups, ends⟩ := isPartition_iff.mp partition
  refine isPartition_iff.mpr ⟨by simp, fun part member => ?_, fun part member => ?_⟩
  · rcases List.mem_append.mp member with above | atOrBelow
    · exact areGroups part (List.mem_append_left _ above)
    · rcases List.mem_cons.mp atOrBelow with rfl | below
      · exact isGroup
      · exact areGroups part (List.mem_append_right _ (List.mem_cons_of_mem _ below))
  · rw [List.dropLast_append_of_ne_nil (List.cons_ne_nil _ _)] at member ends
    rcases List.mem_append.mp member with above | atOrBelow
    · exact ends part (List.mem_append_left _ above)
    · cases after with
      | nil => cases atOrBelow
      | cons next others =>
          rw [List.dropLast_cons_cons] at atOrBelow ends
          rcases List.mem_cons.mp atOrBelow with rfl | below
          · exact whole
          · exact ends part (List.mem_append_right _ (List.mem_cons_of_mem _ below))

end

/-! ### The logical lines of the groups -/

/-- A line that goes on in no other is taken as it is. In a group the parts are trimmed, and joined
by single spaces. -/
def joinedText : List String → String
  | [] => ""
  | [line] => if GoesOn line then String.ofList (Text.trimEnd (body line)) else line
  | line :: further =>
      String.ofList (Text.trimEnd (body line)) ++
        String.join (further.map fun part => " " ++ String.ofList (Text.trim (body part)))

def ofGroups (number : Nat) : List (List String) → List LogicalLine
  | [] => []
  | group :: rest => ⟨number, joinedText group⟩ :: ofGroups (number + group.length) rest

private theorem joinedText_cons {group : List String} (nonempty : group ≠ []) (line : String) :
    joinedText (line :: group) = String.ofList (Text.trimEnd (body line)) ++
      String.join (group.map fun part => " " ++ String.ofList (Text.trim (body part))) := by
  cases group with
  | nil => exact absurd rfl nonempty
  | cons next others => rfl

private theorem join_none_cons (number : Nat) (line : String) (rest : List String) :
    join number none (line :: rest) =
      if GoesOn line then
        join (number + 1) (some ⟨number, String.ofList (Text.trimEnd (body line))⟩) rest
      else ⟨number, line⟩ :: join (number + 1) none rest := by
  by_cases goesOn : GoesOn line
  · simp only [join, continued?_eq, if_pos goesOn]
  · simp only [join, continued?_eq, if_neg goesOn]

private theorem join_some_cons (number : Nat) (pending : LogicalLine) (line : String)
    (rest : List String) :
    join number (some pending) (line :: rest) =
      if GoesOn line then join (number + 1) (some (pending.extend (body line))) rest
      else pending.extend (body line) :: join (number + 1) none rest := by
  by_cases goesOn : GoesOn line
  · simp only [join, continued?_eq, if_pos goesOn]
  · simp only [join, continued?_eq, if_neg goesOn, body_of_not_goesOn goesOn]

theorem join_some_of_isGroup {part : List String} (isGroup : IsGroup part) (number : Nat)
    (pending : LogicalLine) :
    join number (some pending) part = [⟨pending.number, pending.text ++
      String.join (part.map fun line => " " ++ String.ofList (Text.trim (body line)))⟩] := by
  induction isGroup generalizing number pending with
  | last line =>
      rw [join_some_cons, join_nil, join_nil]
      split <;> simp [extend, String.append_assoc]
  | @more line group goesOn rest inductionHypothesis =>
      rw [join_some_cons, if_pos (isSome_continued?_iff.mp goesOn), inductionHypothesis]
      simp [extend, String.append_assoc]

private theorem join_none_of_isGroup {part : List String} (isGroup : IsGroup part) (number : Nat) :
    join number none part = [⟨number, joinedText part⟩] := by
  cases isGroup with
  | last line =>
      rw [join_none_cons, join_nil, join_nil, joinedText]
      split <;> rfl
  | @more line group goesOn rest =>
      rw [join_none_cons, if_pos (isSome_continued?_iff.mp goesOn), join_some_of_isGroup rest,
        joinedText_cons (isGroup_iff.mp rest).1]

private theorem join_flatten {lines : List String} {parts : List (List String)}
    (partition : IsPartition lines parts) (number : Nat) :
    join number none parts.flatten = ofGroups number parts := by
  induction parts generalizing lines number with
  | nil => rfl
  | cons part rest inductionHypothesis =>
      have alone := join_none_of_isGroup (partition.isGroup List.mem_cons_self) number
      obtain ⟨whole, ofRest⟩ := partition.of_cons
      rw [List.flatten_cons, ofGroups, ← inductionHypothesis ofRest (number + part.length)]
      rcases whole with whole | isLast
      · rw [join_append whole number fun _ => rfl, alone, List.singleton_append]
      · rw [isLast, List.append_nil, alone, join_nil]
        rfl

private theorem ofPhysical_eq_ofGroups {lines : List String} {parts : List (List String)}
    (partition : IsPartition lines parts) : ofPhysical lines = ofGroups 1 parts := by
  rw [← partition.flatten_eq]
  exact join_flatten partition 1

private theorem ofGroups_append (number : Nat) (before after : List (List String)) :
    ofGroups number (before ++ after) =
      ofGroups number before ++ ofGroups (number + before.flatten.length) after := by
  induction before generalizing number with
  | nil => rfl
  | cons group rest inductionHypothesis =>
      rw [List.cons_append, ofGroups, ofGroups, inductionHypothesis, List.flatten_cons,
        List.length_append, Nat.add_assoc, List.cons_append]

private theorem ofGroups_moveBy (count number : Nat) (parts : List (List String)) :
    ofGroups (number + count) parts = (ofGroups number parts).map (moveBy count) := by
  induction parts generalizing number with
  | nil => rfl
  | cons group rest inductionHypothesis =>
      rw [ofGroups, ofGroups, Nat.add_right_comm, inductionHypothesis, List.map_cons]
      rfl

private theorem exists_cut_of_ofGroups {number : Nat} {parts : List (List String)}
    {above below : List LogicalLine} {line : LogicalLine}
    (cut : ofGroups number parts = above ++ line :: below) :
    ∃ before group after, parts = before ++ group :: after ∧ above = ofGroups number before ∧
      line = ⟨number + before.flatten.length, joinedText group⟩ := by
  induction parts generalizing number above with
  | nil => exact absurd cut.symm (by simp [ofGroups])
  | cons group rest inductionHypothesis =>
      cases above with
      | nil =>
          obtain ⟨rfl, -⟩ := List.cons.inj cut
          exact ⟨[], group, rest, rfl, rfl, rfl⟩
      | cons first others =>
          obtain ⟨rfl, inRest⟩ := List.cons.inj cut
          obtain ⟨before, failing, after, rfl, rfl, rfl⟩ := inductionHypothesis inRest
          refine ⟨group :: before, failing, after, rfl, rfl, ?_⟩
          rw [List.flatten_cons, List.length_append, Nat.add_assoc]

private theorem le_number_of_mem_ofGroups {number : Nat} {parts : List (List String)}
    {line : LogicalLine} (member : line ∈ ofGroups number parts) :
    number ≤ line.number := by
  induction parts generalizing number with
  | nil => cases member
  | cons group rest inductionHypothesis =>
      rcases List.mem_cons.mp member with rfl | below
      · exact le_refl number
      · exact (Nat.le_add_right _ _).trans (inductionHypothesis below)

end DryMake.LogicalLine

namespace DryMake.Reader

open LogicalLine

variable {reader : Reader} {chain : List Path} {file : Path}

def FailsInside (reader : Reader) (chain : List Path) (line : LogicalLine) (failure : ReadError) :
    Prop :=
  ∃ path contents, ∃ workspace : Workspace,
    reader.inclusion? line workspace.database = some (path, contents) ∧
      ¬ isReading chain path = true ∧
      ((reader.readContents (reader.readIncluded (path :: chain)) path contents).run workspace).1 =
        .error failure

theorem exists_line_of_error {readIncluded : Location → Path → Reading Unit}
    {lines : List LogicalLine} {open? : Option Definition} {workspace later : Workspace}
    {failure : ReadError}
    (failed : (lines.foldlM (reader.apply readIncluded file) open?).run workspace =
      (.error failure, later)) :
    ∃ above line below next between, lines = above ++ line :: below ∧
      (above.foldlM (reader.apply readIncluded file) open?).run workspace = (.ok next, between) ∧
      (reader.apply readIncluded file next line).run between = (.error failure, later) := by
  induction lines generalizing open? workspace with
  | nil => cases failed
  | cons line rest inductionHypothesis =>
      rw [List.foldlM_cons, run_bind] at failed
      cases here : (reader.apply readIncluded file open? line).run workspace with
      | mk result between =>
          rw [here] at failed
          cases result with
          | error first =>
              cases failed
              exact ⟨[], line, rest, open?, workspace, rfl, rfl, here⟩
          | ok next =>
              obtain ⟨above, failing, below, last, end_, cut, passed, fails⟩ :=
                inductionHypothesis failed
              refine ⟨line :: above, failing, below, last, end_, congrArg (line :: ·) cut, ?_,
                fails⟩
              rw [List.foldlM_cons, run_bind, here]
              exact passed

theorem exists_group_of_error {readIncluded : Location → Path → Reading Unit}
    {parts : List (List String)} {workspace : Workspace} {failure : ReadError}
    (failed : ((do close (← (ofGroups 1 parts).foldlM (reader.apply readIncluded file) none) :
      Reading Unit).run workspace).1 = .error failure) :
    ∃ before group after next between, parts = before ++ group :: after ∧
      ((ofGroups 1 before).foldlM (reader.apply readIncluded file) none).run workspace =
        (.ok next, between) ∧
      (reader.apply readIncluded file next ⟨before.flatten.length + 1, joinedText group⟩).run
          between =
        (.error failure, ((do
          close (← (ofGroups 1 parts).foldlM (reader.apply readIncluded file) none) :
            Reading Unit).run workspace).2) := by
  rw [run_bind] at failed ⊢
  cases folded : ((ofGroups 1 parts).foldlM (reader.apply readIncluded file) none).run
      workspace with
  | mk result later =>
      rw [folded] at failed
      cases result with
      | ok open? =>
          have closed := congrArg Prod.fst (does_close open? later)
          cases failed.symm.trans closed
      | error first =>
          cases failed
          obtain ⟨above, line, below, next, between, cut, passed, fails⟩ :=
            exists_line_of_error folded
          obtain ⟨before, group, after, sameParts, rfl, rfl⟩ := exists_cut_of_ofGroups cut
          rw [Nat.add_comm] at fails
          exact ⟨before, group, after, next, between, sameParts, passed, fails⟩

/-- A line fails by itself, at its own number, or within the file that it includes. -/
theorem location_of_apply_eq_error {open? : Option Definition} {line : LogicalLine}
    {workspace later : Workspace} {failure : ReadError}
    (failed : (reader.apply (reader.readIncluded chain) file open? line).run workspace =
      (.error failure, later)) :
    failure.location? = some ⟨file, line.number⟩ ∨ reader.FailsInside chain line failure := by
  have effect : _ = Effect.ofLine reader.base? (reader.included chain) file open? line _ :=
    does_apply (reader.does_readIncluded chain) file open? line workspace
  rw [failed] at effect
  cases own : Effect.ofLine reader.base? (reader.allowed chain) file open? line
      workspace.database with
  | mk result between =>
      cases result with
      | error refused =>
          obtain ⟨failedToo, located, -⟩ := Effect.of_ofLine_eq_error
            (fun _ _ _ _ _ refused => of_allowed_eq_error refused) own
          cases effect.trans failedToo
          exact Or.inl located
      | ok next =>
          have onward := of_ofLine_allowed own
          split at onward
          · cases effect.trans onward
          · rename_i path contents includes
            obtain ⟨-, found, fresh, whole⟩ := onward
            rw [← effect, included_of_found found fresh] at whole
            rcases Effect.andThen_eq_error_iff.mp whole.symm with inside | ⟨_, _, _, impossible⟩
            · have reads : _ = Effect.ofContents reader.base? _ path contents between :=
                does_readContents (reader.does_readIncluded (path :: chain)) path contents
                  ⟨between, #[]⟩
              exact Or.inr ⟨path, contents, ⟨between, #[]⟩, includes, fresh,
                congrArg Prod.fst (reads.trans inside)⟩
            · cases impossible

/-! ### Lines at other numbers -/

/-- The outcomes agree, but that a line from `first` on that fails is told at a number moved by
`count` in the one and by `other` in the other. -/
def SameUpToLines (file : Path) (first count other : Nat)
    (outcome otherOutcome : Except ReadError Unit × Database) : Prop :=
  outcome.2 = otherOutcome.2 ∧
    (outcome.1 = otherOutcome.1 ∨ ∃ (failure : ReadError) (number : Nat), first ≤ number ∧
      failure.location? = some ⟨file, number⟩ ∧
      outcome.1 = .error (failure.moveBy count) ∧ otherOutcome.1 = .error (failure.moveBy other))

private theorem sameUpToLines_ofLines {first : Nat} {below : List LogicalLine}
    (numbered : ∀ line ∈ below, first ≤ line.number) (count other : Nat)
    (above : List LogicalLine) (open? : Option Definition) (database : Database) :
    SameUpToLines file first count other
      (Effect.ofLines reader.base? (reader.included chain) file open?
        (above ++ below.map (moveBy count)) database)
      (Effect.ofLines reader.base? (reader.included chain) file open?
        (above ++ below.map (moveBy other)) database) := by
  induction above generalizing open? database with
  | nil =>
      rw [List.nil_append, List.nil_append, ofLines_moveBy, ofLines_moveBy]
      cases stop : reader.ownFailure? chain file open? below database with
      | none => exact ⟨rfl, Or.inl rfl⟩
      | some stopped =>
          obtain ⟨line, failure⟩ := stopped
          obtain ⟨located, before, after, _, _, cut, -⟩ := of_ownFailure stop
          have member : line ∈ below := by simp [cut]
          exact ⟨rfl, Or.inr ⟨failure, line.number, numbered line member, located, rfl, rfl⟩⟩
  | cons line rest inductionHypothesis =>
      rw [List.cons_append, List.cons_append, Effect.ofLines, Effect.ofLines]
      unfold Effect.andThen
      cases Effect.ofLine reader.base? (reader.included chain) file open? line database with
      | mk result between =>
          cases result with
          | error failure => exact ⟨rfl, Or.inl rfl⟩
          | ok next => exact inductionHypothesis next between

section

variable {lines : List String} {parts before after : List (List String)} {group : List String}

private theorem ofPhysical_of_cut (partition : IsPartition lines (before ++ group :: after)) :
    ofPhysical lines = (ofGroups 1 before ++ [⟨before.flatten.length + 1, joinedText group⟩]) ++
      (ofGroups (before.flatten.length + 1) after).map (moveBy group.length) := by
  rw [ofPhysical_eq_ofGroups partition, ofGroups_append, ofGroups, ofGroups_moveBy, Nat.add_comm 1,
    List.append_assoc, List.singleton_append]

/-- A group and its joined text in one line are read alike. -/
theorem sameUpToLines_joined (partition : IsPartition lines (before ++ group :: after))
    (ends : ¬ GoesOn (joinedText group)) (workspace : Workspace) :
    let outcome := fun lines =>
      let run := (reader.readPhysicalLines (reader.readIncluded chain) file lines).run workspace
      (run.1, run.2.database)
    SameUpToLines file (before.flatten.length + 1) group.length 1 (outcome lines)
      (outcome (before.flatten ++ joinedText group :: after.flatten)) := by
  intro outcome
  have whole : EndsWhole [joinedText group] := by
    rintro last ⟨rfl⟩
    exact continued?_eq_none_iff.mpr ends
  have shortCut := ofPhysical_of_cut (partition.replace (.last (joinedText group)) whole)
  have sameText : joinedText [joinedText group] = joinedText group := if_neg ends
  rw [sameText, List.append_assoc, List.singleton_append] at shortCut
  have long : outcome lines = _ := reader.does_readPhysicalLines chain file lines workspace
  have short : outcome (before.flatten ++ joinedText group :: after.flatten) = _ :=
    reader.does_readPhysicalLines chain file _ workspace
  rw [long, short, ofPhysical_of_cut partition, shortCut]
  exact sameUpToLines_ofLines (fun _ => le_number_of_mem_ofGroups) _ _ _ none workspace.database

end

/-- Reading physical lines is letting the joined texts of their groups take effect one after the
other, and then closing what is open. The groups are the one partition of the lines in which only
the last line of a group does not go on. What fails is one group, at the number of its first line,
or the file that it includes. A group may be written in one line if its joined text does not go on:
only the numbers of the lines below it change. -/
theorem readPhysicalLines_of_partition (reader : Reader) (chain : List Path) (file : Path)
    (lines : List String) :
    let apply := reader.apply (reader.readIncluded chain) file
    let read := reader.readPhysicalLines (reader.readIncluded chain) file
    (∃! parts, IsPartition lines parts) ∧
    ∀ parts, IsPartition lines parts →
      (read lines = do close (← (ofGroups 1 parts).foldlM apply none)) ∧
      (∀ workspace failure, ((read lines).run workspace).1 = .error failure →
        ∃ before group after open? between, parts = before ++ group :: after ∧
          let line : LogicalLine := ⟨before.flatten.length + 1, joinedText group⟩
          ((ofGroups 1 before).foldlM apply none).run workspace = (.ok open?, between) ∧
          (apply open? line).run between = (.error failure, ((read lines).run workspace).2) ∧
          (failure.location? = some ⟨file, line.number⟩ ∨
            reader.FailsInside chain line failure)) ∧
      ∀ before group after, parts = before ++ group :: after → ¬ GoesOn (joinedText group) →
        ∀ workspace,
          let outcome := fun lines =>
            (((read lines).run workspace).1, ((read lines).run workspace).2.database)
          SameUpToLines file (before.flatten.length + 1) group.length 1 (outcome lines)
            (outcome (before.flatten ++ joinedText group :: after.flatten)) := by
  intro apply read
  refine ⟨⟨groups lines, isPartition_groups lines, fun parts => IsPartition.eq_groups⟩,
    fun parts partition => ?_⟩
  have composed : read lines = (do close (← (ofGroups 1 parts).foldlM apply none)) := by
    show reader.readLogicalLines _ file (ofPhysical lines) = _
    rw [ofPhysical_eq_ofGroups partition]
    rfl
  refine ⟨composed, fun workspace failure failed => ?_, ?_⟩
  · rw [composed] at failed ⊢
    obtain ⟨before, group, after, next, between, cut, passed, fails⟩ :=
      exists_group_of_error failed
    exact ⟨before, group, after, next, between, cut, passed, fails,
      location_of_apply_eq_error fails⟩
  · rintro before group after rfl ends workspace
    exact sameUpToLines_joined partition ends workspace

/-- The last line fails at its own number, and at that number less one when the two lines above it
are written in one. -/
theorem readPhysicalLines_of_partition_malformed :
    let reader : Reader := ⟨.ofLookup fun _ => none, none⟩
    let read := reader.readPhysicalLines (reader.readIncluded []) ⟨"Makefile"⟩
    let outcome := fun lines =>
      (((read lines).run (.empty false)).1, ((read lines).run (.empty false)).2.database)
    let lines := ["CFLAGS = -O2 \\", "  -Wall", "x := none"]
    let joined := ["CFLAGS = -O2 -Wall", "x := none"]
    IsPartition lines [["CFLAGS = -O2 \\", "  -Wall"], ["x := none"]] ∧
      ¬ GoesOn "CFLAGS = -O2 -Wall" ∧
      SameUpToLines ⟨"Makefile"⟩ 1 2 1 (outcome lines) (outcome joined) ∧
      (outcome lines).1 = .error (.malformedConditional ⟨⟨"Makefile"⟩, 3⟩ "x := none") := by
  intro reader read outcome lines joined
  have partition : IsPartition lines [["CFLAGS = -O2 \\", "  -Wall"], ["x := none"]] := by
    have cut : groups lines = [["CFLAGS = -O2 \\", "  -Wall"], ["x := none"]] := by cbv
    exact cut ▸ isPartition_groups lines
  have ends : ¬ GoesOn "CFLAGS = -O2 -Wall" := continued?_eq_none_iff.mp (by cbv)
  have text : joinedText ["CFLAGS = -O2 \\", "  -Wall"] = "CFLAGS = -O2 -Wall" := by
    have goesOn : GoesOn "CFLAGS = -O2 \\" := isSome_continued?_iff.mp (by cbv)
    have wallEnds : ¬ GoesOn "  -Wall" := continued?_eq_none_iff.mp (by cbv)
    rw [joinedText_cons (List.cons_ne_nil _ _), List.map_singleton, body, if_pos goesOn,
      body_of_not_goesOn wallEnds]
    cbv
  have transparent := ((readPhysicalLines_of_partition reader [] ⟨"Makefile"⟩ lines).2 _
    partition).2.2 [] _ _ rfl (text ▸ ends) (.empty false)
  refine ⟨partition, ends, ?_, ?_⟩
  · rw [text] at transparent
    exact transparent
  · subst outcome read reader lines
    cbv

end DryMake.Reader
