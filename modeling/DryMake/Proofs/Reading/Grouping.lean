import DryMake.LogicalLine

/-!
How the cutting into logical lines sees parts of a file. After a line that goes on in no other, the
rest is cut as if it stood alone, only with other numbers; and the lines above a logical line are
cut into the logical lines before it. The physical lines that make up one logical line are a group,
and whole groups can be left out without touching the others.
-/

namespace DryMake.LogicalLine

def moveBy (count : Nat) (line : LogicalLine) : LogicalLine :=
  { line with number := line.number + count }

private theorem join_moveBy (count number : Nat) (pending? : Option LogicalLine)
    (lines : List String) :
    join (number + count) (pending?.map (moveBy count)) lines =
      (join number pending? lines).map (moveBy count) := by
  induction lines generalizing number pending? with
  | nil => cases pending? <;> rfl
  | cons line rest inductionHypothesis =>
      have onRest := inductionHypothesis (number + 1)
      rw [Nat.add_right_comm] at onRest
      cases pending? with
      | none =>
          cases ends : continued? line with
          | none =>
              simp only [join, ends, Option.map_none, List.map_cons]
              exact congrArg _ (onRest none)
          | some body =>
              simp only [join, ends, Option.map_none]
              exact onRest (some ⟨number, String.ofList (Text.trimEnd body)⟩)
      | some group =>
          cases ends : continued? line with
          | none =>
              simp only [join, ends, Option.map_some, List.map_cons]
              exact congrArg _ (onRest none)
          | some body =>
              simp only [join, ends, Option.map_some]
              exact onRest (some (group.extend body))

def startOf (number : Nat) (pending? : Option LogicalLine) : Nat :=
  (pending?.map LogicalLine.number).getD number

private theorem join_cons_of_ends {line : String} (ends : continued? line = none) (number : Nat)
    (pending? : Option LogicalLine) :
    ∃ first : LogicalLine, first.number = startOf number pending? ∧
      ∀ rest, join number pending? (line :: rest) = first :: join (number + 1) none rest := by
  cases pending? with
  | none => exact ⟨⟨number, line⟩, rfl, join_of_continued?_eq_none ends number⟩
  | some group =>
      refine ⟨group.extend line.toList, rfl, fun rest => ?_⟩
      simp only [join, ends]

private theorem join_cons_of_goesOn {line : String} {body : List Char}
    (goesOn : continued? line = some body) (number : Nat) (pending? : Option LogicalLine) :
    ∃ group : LogicalLine, group.number = startOf number pending? ∧
      ∀ rest, join number pending? (line :: rest) = join (number + 1) (some group) rest := by
  cases pending? with
  | none =>
      refine ⟨⟨number, String.ofList (Text.trimEnd body)⟩, rfl, fun rest => ?_⟩
      simp only [join, goesOn]
  | some group =>
      refine ⟨group.extend body, rfl, fun rest => ?_⟩
      simp only [join, goesOn]

/-- The lines do not end in one that goes on in the next. -/
def EndsWhole (lines : List String) : Prop :=
  ∀ last ∈ lines.getLast?, continued? last = none

theorem EndsWhole.tail {line next : String} {rest : List String}
    (whole : EndsWhole (line :: next :: rest)) : EndsWhole (next :: rest) := by
  unfold EndsWhole at whole ⊢
  rwa [List.getLast?_cons_cons] at whole

theorem join_append {before : List String} (whole : EndsWhole before) (number : Nat)
    {pending? : Option LogicalLine} (nonempty : before = [] → pending? = none)
    (after : List String) :
    join number pending? (before ++ after) =
      join number pending? before ++ join (number + before.length) none after := by
  induction before generalizing number pending? with
  | nil =>
      rw [nonempty rfl]
      rfl
  | cons line rest inductionHypothesis =>
      have counted : number + (line :: rest).length = number + 1 + rest.length := by
        rw [List.length_cons]
        omega
      -- The last line before the cut may be `line` itself, when none is left to end whole.
      have restWhole : EndsWhole rest := by
        cases rest with
        | nil =>
            intro last member
            cases member
        | cons next later => exact whole.tail
      rw [counted, List.cons_append]
      cases ends : continued? line with
      | none =>
          obtain ⟨first, -, cut⟩ := join_cons_of_ends ends number pending?
          rw [cut, cut, inductionHypothesis restWhole (number + 1) (fun _ => rfl),
            List.cons_append]
      | some body =>
          obtain ⟨group, -, cut⟩ := join_cons_of_goesOn ends number pending?
          have goesOn : rest = [] → some group = none := by
            rintro rfl
            rw [whole line rfl] at ends
            cases ends
          rw [cut, cut, inductionHypothesis restWhole (number + 1) goesOn]

theorem ofPhysical_append_cons {before after : List String} {line : String}
    (whole : EndsWhole before) (ends : continued? line = none) :
    ofPhysical (before ++ line :: after) =
      ofPhysical before ++ ⟨before.length + 1, line⟩ ::
        (ofPhysical after).map (moveBy (before.length + 1)) := by
  unfold ofPhysical
  have below := join_moveBy (before.length + 1) 1 none after
  rw [Option.map_none] at below
  rw [join_append whole 1 (fun _ => rfl), join_of_continued?_eq_none ends, ← below,
    Nat.add_comm 1 before.length, Nat.add_comm (before.length + 1) 1]

private theorem take_cons_of_lt {number later : Nat} (below : number < later) (text : String)
    (rest : List String) :
    (text :: rest).take (later - number) = text :: rest.take (later - (number + 1)) := by
  have one : later - number = later - (number + 1) + 1 := by omega
  rw [one, List.take_succ_cons]

theorem take_of_join {lines : List String} {number : Nat} {pending? : Option LogicalLine}
    {before : List LogicalLine} {line : LogicalLine} {after : List LogicalLine}
    (cut : join number pending? lines = before ++ line :: after) :
    before = [] ∧ line.number = startOf number pending? ∨
      number < line.number ∧
        join number pending? (lines.take (line.number - number)) = before := by
  induction lines generalizing number pending? before with
  | nil =>
      cases pending? with
      | none => exact absurd cut.symm (by simp [join])
      | some group =>
          cases before with
          | nil =>
              obtain ⟨rfl, -⟩ := List.cons.inj cut
              exact Or.inl ⟨rfl, rfl⟩
          | cons first others => exact absurd (List.cons.inj cut).2.symm (by simp)
  | cons text rest inductionHypothesis =>
      cases ends : continued? text with
      | none =>
          obtain ⟨first, sameNumber, step⟩ := join_cons_of_ends ends number pending?
          rw [step] at cut
          cases before with
          | nil =>
              obtain ⟨rfl, -⟩ := List.cons.inj cut
              exact Or.inl ⟨rfl, sameNumber⟩
          | cons other others =>
              obtain ⟨rfl, onRest⟩ := List.cons.inj cut
              right
              rcases inductionHypothesis onRest with ⟨rfl, next⟩ | ⟨below, same⟩
              · have isNext : line.number = number + 1 := next
                have above : number < line.number := by omega
                refine ⟨above, ?_⟩
                rw [take_cons_of_lt above, step, isNext, Nat.sub_self, List.take_zero]
                rfl
              · have above : number < line.number := Nat.lt_of_succ_lt below
                refine ⟨above, ?_⟩
                rw [take_cons_of_lt above, step, same]
      | some body =>
          obtain ⟨group, sameNumber, step⟩ := join_cons_of_goesOn ends number pending?
          rw [step] at cut
          rcases inductionHypothesis cut with ⟨empty, ofGroup⟩ | ⟨below, same⟩
          · exact Or.inl ⟨empty, ofGroup.trans sameNumber⟩
          · have above : number < line.number := Nat.lt_of_succ_lt below
            refine Or.inr ⟨above, ?_⟩
            rw [take_cons_of_lt above, step, same]

/-- The logical lines before one are those of the physical lines above its number. -/
theorem ofPhysical_take {lines : List String} {before after : List LogicalLine}
    {line : LogicalLine} (cut : ofPhysical lines = before ++ line :: after) :
    ofPhysical (lines.take (line.number - 1)) = before := by
  rcases take_of_join cut with ⟨empty, isFirst⟩ | ⟨-, same⟩
  · have atStart : line.number = 1 := isFirst
    rw [empty, atStart]
    rfl
  · exact same

/-! ### Groups -/

def groups : List String → List (List String)
  | [] => []
  | line :: rest =>
      match continued? line, groups rest with
      | some _, group :: others => (line :: group) :: others
      | _, others => [line] :: others

def texts (lines : List String) : List String :=
  (ofPhysical lines).map LogicalLine.text

/-- The physical lines without the groups whose logical line is of a kind. -/
def leaveOut (kind : String → Bool) (lines : List String) : List String :=
  ((groups lines).filter fun group => !(texts group).any kind).flatten

private theorem map_text_join (number : Nat) (lines : List String) :
    (join number none lines).map LogicalLine.text = texts lines := by
  have fromZero : ∀ count, (join count none lines).map LogicalLine.text =
      (join 0 none lines).map LogicalLine.text := by
    intro count
    have moved := join_moveBy count 0 none lines
    rw [Option.map_none, Nat.zero_add] at moved
    rw [moved, List.map_map]
    rfl
  rw [texts, ofPhysical, fromZero, fromZero 1]

theorem texts_append {before : List String} (whole : EndsWhole before) (after : List String) :
    texts (before ++ after) = texts before ++ texts after := by
  rw [texts, ofPhysical, join_append whole 1 (fun _ => rfl), List.map_append, map_text_join,
    map_text_join]

private theorem texts_flatten {parts : List (List String)}
    (whole : ∀ part ∈ parts.dropLast, EndsWhole part) :
    texts parts.flatten = parts.flatMap texts := by
  induction parts with
  | nil => rfl
  | cons part rest inductionHypothesis =>
      cases rest with
      | nil => simp
      | cons next others =>
          rw [List.dropLast_cons_cons] at whole
          obtain ⟨here, inRest⟩ := List.forall_mem_cons.mp whole
          rw [List.flatten_cons, texts_append here, inductionHypothesis inRest]
          rfl

/-- A line alone that goes on in no other, or lines of which all but the last go on. -/
inductive IsGroup : List String → Prop where
  | last (line : String) : IsGroup [line]
  | more {line : String} {group : List String} (goesOn : (continued? line).isSome = true)
      (rest : IsGroup group) : IsGroup (line :: group)

theorem isGroup_of_mem_groups {lines group : List String} (member : group ∈ groups lines) :
    IsGroup group := by
  induction lines generalizing group with
  | nil => cases member
  | cons line rest inductionHypothesis =>
      rw [groups] at member
      split at member
      · rename_i body first others goesOn inRest
        rw [inRest] at inductionHypothesis
        rcases List.mem_cons.mp member with rfl | isOther
        · exact .more (by rw [goesOn]; rfl) (inductionHypothesis List.mem_cons_self)
        · exact inductionHypothesis (List.mem_cons_of_mem _ isOther)
      · rcases List.mem_cons.mp member with rfl | isOther
        · exact .last line
        · exact inductionHypothesis isOther

private theorem IsGroup.exists_join {group : List String} (isGroup : IsGroup group) (number : Nat)
    (pending? : Option LogicalLine) : ∃ line, join number pending? group = [line] := by
  induction isGroup generalizing number pending? with
  | last line =>
      cases ends : continued? line with
      | none =>
          obtain ⟨first, -, cut⟩ := join_cons_of_ends ends number pending?
          exact ⟨first, cut []⟩
      | some body =>
          obtain ⟨first, -, cut⟩ := join_cons_of_goesOn ends number pending?
          exact ⟨first, cut []⟩
  | @more line group goesOn rest inductionHypothesis =>
      obtain ⟨body, ends⟩ := Option.isSome_iff_exists.mp goesOn
      obtain ⟨pending, -, cut⟩ := join_cons_of_goesOn ends number pending?
      rw [cut]
      exact inductionHypothesis (number + 1) (some pending)

theorem flatten_groups (lines : List String) : (groups lines).flatten = lines := by
  induction lines with
  | nil => rfl
  | cons line rest inductionHypothesis =>
      rw [groups]
      split
      · rename_i inRest
        rw [inRest] at inductionHypothesis
        rw [List.flatten_cons, List.cons_append, ← List.flatten_cons, inductionHypothesis]
      · rw [List.flatten_cons, inductionHypothesis]
        rfl

theorem leaveOut_subset (kind : String → Bool) (lines : List String) :
    leaveOut kind lines ⊆ lines := by
  intro line member
  obtain ⟨group, isKept, inGroup⟩ := List.mem_flatten.mp member
  rw [← flatten_groups lines]
  exact List.mem_flatten_of_mem ((List.mem_filter.mp isKept).1) inGroup

private theorem IsGroup.endsWhole_cons {group : List String} (isGroup : IsGroup group)
    (whole : EndsWhole group) (line : String) : EndsWhole (line :: group) := by
  cases isGroup <;> exact whole

theorem endsWhole_of_mem_dropLast {lines part : List String}
    (member : part ∈ (groups lines).dropLast) : EndsWhole part := by
  induction lines generalizing part with
  | nil => cases member
  | cons line rest inductionHypothesis =>
      rw [groups] at member
      cases inRest : groups rest with
      | nil =>
          rw [inRest] at member
          cases ends : continued? line <;> simp [ends] at member
      | cons first others =>
          rw [inRest] at member inductionHypothesis
          have isGroup : IsGroup first :=
            isGroup_of_mem_groups (inRest ▸ List.mem_cons_self)
          cases ends : continued? line with
          | none =>
              simp only [ends, List.dropLast_cons_cons, List.mem_cons] at member
              rcases member with rfl | isOther
              · rintro last ⟨rfl⟩
                exact ends
              · exact inductionHypothesis isOther
          | some body =>
              simp only [ends] at member
              cases others with
              | nil => cases member
              | cons next later =>
                  rw [List.dropLast_cons_cons] at member inductionHypothesis
                  rcases List.mem_cons.mp member with rfl | isOther
                  · exact isGroup.endsWhole_cons (inductionHypothesis List.mem_cons_self) line
                  · exact inductionHypothesis (List.mem_cons_of_mem _ isOther)

private theorem dropLast_filter_sublist {Item : Type} (keep : Item → Bool) (items : List Item) :
    List.Sublist (items.filter keep).dropLast items.dropLast := by
  have fromTheEnd := (List.filter_sublist (p := keep) (l := items)).reverse.tail
  rwa [List.tail_reverse, List.tail_reverse, List.reverse_sublist] at fromTheEnd

theorem flatMap_texts_filter (kind : String → Bool) {parts : List (List String)}
    (areGroups : ∀ part ∈ parts, IsGroup part) :
    (parts.filter fun part => !(texts part).any kind).flatMap texts =
      (parts.flatMap texts).filter fun text => !kind text := by
  induction parts with
  | nil => rfl
  | cons part rest inductionHypothesis =>
      obtain ⟨here, inRest⟩ := List.forall_mem_cons.mp areGroups
      obtain ⟨line, alone⟩ := here.exists_join 1 none
      have single : texts part = [line.text] := by
        rw [texts, ofPhysical, alone]
        rfl
      rw [List.filter_cons, List.flatMap_cons, List.filter_append,
        ← inductionHypothesis inRest, single]
      by_cases ofKind : kind line.text = true
      · simp [ofKind]
      · simp [ofKind, single]

theorem texts_leaveOut (kind : String → Bool) (lines : List String) :
    texts (leaveOut kind lines) = (texts lines).filter fun text => !kind text := by
  have onAll : texts (groups lines).flatten = (groups lines).flatMap texts :=
    texts_flatten fun part => endsWhole_of_mem_dropLast
  rw [flatten_groups] at onAll
  rw [leaveOut, texts_flatten fun part member =>
      endsWhole_of_mem_dropLast ((dropLast_filter_sublist _ _).subset member),
    flatMap_texts_filter kind fun part => isGroup_of_mem_groups, onAll]

end DryMake.LogicalLine
