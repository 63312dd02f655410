import DryMake.Database.Dump
import DryMake.Proofs.Text.Trimming
import DryMake.Reading

/-!
The written form of a database as lines. If names, values and rules hold nothing that the grammar of
makefiles takes for itself, then each line that is written is a line of the text again, goes on in
no other, and has the shape and the parts that it was written with.
-/

namespace DryMake

structure IsPlainName (name : String) : Prop where
  nonempty : name ≠ ""
  unbroken : ∀ c ∈ name.toList, Text.isBlank c = false
  operatorFree : ∀ c ∈ name.toList, Line.isOperator c = false
  literal : ∀ c ∈ name.toList, c ≠ '$' ∧ c ≠ '\\'
  notComment : name.toList.head? ≠ some '#'

structure IsPlainDep (dep : String) : Prop where
  nonempty : dep ≠ ""
  unbroken : ∀ c ∈ dep.toList, Text.isBlank c = false
  equalsFree : '=' ∉ dep.toList
  literal : ∀ c ∈ dep.toList, c ≠ '$' ∧ c ≠ '\\'

structure IsPlainValue (value : String) : Prop where
  trimmed : Text.trimmed value = value
  oneLine : '\n' ∉ value.toList
  ends : value.toList.getLast? ≠ some '\\'

/-- What the name of a conditional macro must be. It may be empty and have blanks in it. -/
structure IsPlainKey (key : String) : Prop where
  trimmed : Text.trimmed key = key
  oneLine : '\n' ∉ key.toList
  equalsFree : '=' ∉ key.toList

structure IsPlainRule (rule : String) : Prop where
  inked : Text.allBlank rule.toList = false
  oneLine : '\n' ∉ rule.toList
  unindented : rule.toList.head? ≠ some '\t'
  noReturn : rule.toList.getLast? ≠ some '\r'
  ends : (Text.trimEnd rule.toList).getLast? ≠ some '\\'

/-- What is asked of a database whose written form is to be read back. -/
structure Database.Readable (database : Database) : Prop where
  macros : ∀ name known, database.macros.get? name = some known →
    IsPlainName name ∧ IsPlainValue known.value
  conditionals : ∀ target known, database.conditionals.get? target = some known →
    IsPlainName target ∧ target ≠ "include" ∧ known.names ≠ [] ∧
      ∀ key value, known.get? key = some value → IsPlainKey key ∧ IsPlainValue value
  plan : ∀ name body, database.plan.get? name = some body →
    IsPlainName name ∧ (∀ dep ∈ body.deps, IsPlainDep dep) ∧ ∀ rule ∈ body.rules, IsPlainRule rule

def macroLine (name value : String) : String :=
  name ++ "= " ++ value

def conditionalLine (target key value : String) : String :=
  target ++ " := " ++ key ++ " = " ++ value

def depsText (deps : List String) : String :=
  if deps = [] then "" else " " ++ " ".intercalate deps

def targetLine (name : String) (deps : List String) : String :=
  name ++ ":" ++ depsText deps

def ruleLine (rule : String) : String :=
  "\t" ++ rule

namespace Database

def macroLines (entry : String × Macro) : List String :=
  if entry.2.value = "" then [] else [macroLine entry.1 entry.2.value]

def conditionalLines (entry : String × ConditionalSet) : List String :=
  entry.2.sorted.map fun (key, value) => conditionalLine entry.1 key value

def targetLines (entry : String × Target) : List String :=
  targetLine entry.1 entry.2.deps :: entry.2.rules.map ruleLine

def dumpLines (database : Database) : List String :=
  database.macros.sorted.flatMap macroLines ++ [""] ++
    database.conditionals.sorted.flatMap conditionalLines ++ [""] ++
      database.plan.sorted.flatMap targetLines

def ended (lines : List String) : String :=
  String.join (lines.map (· ++ "\n"))

private theorem ended_append (before after : List String) :
    ended (before ++ after) = ended before ++ ended after := by
  rw [ended, List.map_append, String.join_append]
  rfl

private theorem ended_flatMap {Item : Type} (items : List Item) (lines : Item → List String) :
    ended (items.flatMap lines) = String.join (items.map fun item => ended (lines item)) := by
  induction items with
  | nil => rfl
  | cons item rest inductionHypothesis =>
      rw [List.flatMap_cons, ended_append, inductionHypothesis, List.map_cons, String.join_cons]

theorem dump_eq (database : Database) : database.dump = ended database.dumpLines := by
  have macros : dumpMacros database.macros = ended (database.macros.sorted.flatMap macroLines) := by
    rw [ended_flatMap, dumpMacros]
    congr 2
    funext ⟨name, known⟩
    rw [macroLines]
    dsimp only
    rw [dumpMacro]
    split
    · rfl
    · simp [ended, macroLine]
  have conditionals : dumpConditionals database.conditionals =
      ended (database.conditionals.sorted.flatMap conditionalLines) := by
    rw [ended_flatMap, dumpConditionals]
    congr 2
    funext ⟨target, known⟩
    rw [ended, conditionalLines, List.map_map]
    rfl
  have plan : dumpPlan database.plan = ended (database.plan.sorted.flatMap targetLines) := by
    rw [ended_flatMap, dumpPlan]
    congr 2
    funext ⟨name, body⟩
    rw [ended, targetLines, List.map_cons, String.join_cons, List.map_map]
    rfl
  rw [dump, macros, conditionals, plan, dumpLines, ended_append, ended_append, ended_append,
    ended_append]
  rfl

end Database

/-! ### Lines that stand alone -/

/-- The line, with a line feed after it, is a physical and a logical line of any text. -/
structure StandsAlone (line : String) : Prop where
  oneLine : '\n' ∉ line.toList
  noReturn : line.toList.getLast? ≠ some '\r'
  ends : LogicalLine.continued? line = none

private theorem LogicalLine.continued?_eq_none {line : String}
    (ends : Text.lastInk? line.toList ≠ some '\\') : continued? line = none := by
  unfold continued?
  split
  · rename_i body reversed
    refine absurd ?_ ends
    rw [Text.lastInk?, ← List.head?_reverse, reversed, List.head?_cons]
  · rfl

private theorem IsPlainName.notMem {name : String} (plain : IsPlainName name) {c : Char}
    (special : Text.isBlank c = true ∨ Line.isOperator c = true ∨ c = '$' ∨ c = '\\') :
    c ∉ name.toList := by
  intro member
  have unbroken := plain.unbroken c member
  have operatorFree := plain.operatorFree c member
  have literal := plain.literal c member
  rcases special with blank | operator | same | same
  · rw [blank] at unbroken
    cases unbroken
  · rw [operator] at operatorFree
    cases operatorFree
  · exact literal.1 same
  · exact literal.2 same

private theorem IsPlainValue.trim_toList {value : String} (plain : IsPlainValue value) :
    Text.trim value.toList = value.toList :=
  String.ofList_eq.mp plain.trimmed

theorem standsAlone_of_value {before value : String} (oneLine : '\n' ∉ before.toList)
    (plain : IsPlainValue value) : StandsAlone (before ++ "= " ++ value) := by
  have characters : (before ++ "= " ++ value).toList =
      before.toList ++ (['=', ' '] ++ value.toList) := by
    simp
  constructor
  · rw [characters]
    simp [oneLine, plain.oneLine]
  · intro returned
    rw [characters, List.getLast?_append, List.getLast?_append] at returned
    cases last : value.toList.getLast? with
    | none =>
        rw [last] at returned
        simp at returned
    | some c =>
        rw [last] at returned
        cases returned
        have ink := Text.isBlank_of_getLast?_of_trim_eq_self plain.trim_toList last
        exact absurd ink (by decide)
  · apply LogicalLine.continued?_eq_none
    rw [characters, Text.lastInk?_append, Text.lastInk?_append, Text.lastInk?,
      Text.trimEnd_of_trim_eq_self plain.trim_toList]
    cases last : value.toList.getLast? with
    | none =>
        have equals : Text.lastInk? ['=', ' '] = some '=' := by decide
        rw [equals]
        simp
    | some c =>
        have ends := plain.ends
        rw [last] at ends
        exact ends

theorem standsAlone_macroLine {name value : String} (plain : IsPlainName name)
    (plainValue : IsPlainValue value) : StandsAlone (macroLine name value) :=
  standsAlone_of_value (plain.notMem (Or.inl (by decide))) plainValue

theorem standsAlone_conditionalLine {target key value : String} (plain : IsPlainName target)
    (plainKey : IsPlainKey key) (plainValue : IsPlainValue value) :
    StandsAlone (conditionalLine target key value) := by
  have parts : conditionalLine target key value =
      target ++ " := " ++ key ++ " " ++ "= " ++ value := by
    rw [conditionalLine, @String.append_assoc (target ++ " := " ++ key) " " "= "]
    rfl
  have inTarget : '\n' ∉ target.toList := plain.notMem (Or.inl (by decide))
  rw [parts]
  apply standsAlone_of_value _ plainValue
  simp [inTarget, plainKey.oneLine]

private theorem toList_depsText (deps : List String) :
    (depsText deps).toList = deps.flatMap fun dep => ' ' :: dep.toList := by
  have afterBlank : ∀ (dep : String) (rest : List String),
      (" " ++ " ".intercalate (dep :: rest)).toList =
        (dep :: rest).flatMap fun dep => ' ' :: dep.toList := by
    intro dep rest
    induction rest generalizing dep with
    | nil => simp
    | cons next others inductionHypothesis =>
        rw [List.flatMap_cons, ← inductionHypothesis next, String.intercalate_cons_cons]
        simp
  cases deps with
  | nil => rfl
  | cons dep rest => exact afterBlank dep rest

theorem notMem_depsText {deps : List String} (plain : ∀ dep ∈ deps, IsPlainDep dep) {c : Char}
    (notBlank : c ≠ ' ') (notInDep : ∀ dep, IsPlainDep dep → c ∉ dep.toList) :
    c ∉ (depsText deps).toList := by
  intro member
  rw [toList_depsText] at member
  obtain ⟨dep, isDep, inDep⟩ := List.mem_flatMap.mp member
  rcases List.mem_cons.mp inDep with blank | within
  · exact notBlank blank
  · exact notInDep dep (plain dep isDep) within

private theorem IsPlainDep.notMem_of_isBlank {dep : String} (plain : IsPlainDep dep) {c : Char}
    (blank : Text.isBlank c = true) : c ∉ dep.toList := by
  intro member
  rw [plain.unbroken c member] at blank
  cases blank

private theorem standsAlone_of_notMem {line : String} (oneLine : '\n' ∉ line.toList)
    (noReturn : '\r' ∉ line.toList) (noBackslash : '\\' ∉ line.toList) : StandsAlone line where
  oneLine
  noReturn := fun last => noReturn (List.mem_of_getLast? last)
  ends := LogicalLine.continued?_eq_none fun last => noBackslash (Text.mem_of_lastInk? last)

theorem standsAlone_targetLine {name : String} {deps : List String} (plain : IsPlainName name)
    (plainDeps : ∀ dep ∈ deps, IsPlainDep dep) : StandsAlone (targetLine name deps) := by
  have absent : ∀ c, c ≠ ' ' → c ≠ ':' → c ∉ name.toList →
      (∀ dep, IsPlainDep dep → c ∉ dep.toList) → c ∉ (targetLine name deps).toList := by
    intro c notBlank notColon notInName notInDep
    have notInDeps := notMem_depsText plainDeps notBlank notInDep
    simp [targetLine, notColon, notInName, notInDeps]
  refine standsAlone_of_notMem (absent '\n' (by decide) (by decide) ?_ ?_)
    (absent '\r' (by decide) (by decide) ?_ ?_) (absent '\\' (by decide) (by decide) ?_ ?_)
  · exact plain.notMem (Or.inl (by decide))
  · exact fun dep plainDep => plainDep.notMem_of_isBlank (by decide)
  · exact plain.notMem (Or.inl (by decide))
  · exact fun dep plainDep => plainDep.notMem_of_isBlank (by decide)
  · exact plain.notMem (Or.inr (Or.inr (Or.inr rfl)))
  · exact fun dep plainDep member => (plainDep.literal _ member).2 rfl

theorem standsAlone_ruleLine {rule : String} (plain : IsPlainRule rule) :
    StandsAlone (ruleLine rule) := by
  have characters : (ruleLine rule).toList = ['\t'] ++ rule.toList := by
    simp [ruleLine]
  constructor
  · rw [characters]
    simp [plain.oneLine]
  · intro returned
    rw [characters, List.getLast?_append] at returned
    have noReturn := plain.noReturn
    cases last : rule.toList.getLast? with
    | none =>
        rw [last] at returned
        simp at returned
    | some c =>
        rw [last] at returned noReturn
        exact noReturn returned
  · apply LogicalLine.continued?_eq_none
    rw [characters, Text.lastInk?_append]
    have ends := plain.ends
    have indent : Text.lastInk? ['\t'] = none := by decide
    rw [indent, Option.or_none]
    exact ends

theorem standsAlone_empty : StandsAlone "" :=
  standsAlone_of_notMem List.not_mem_nil List.not_mem_nil List.not_mem_nil

theorem Database.lines_ended {lines : List String} (alone : ∀ line ∈ lines, StandsAlone line) :
    Text.lines (ended lines) = lines := by
  rw [ended, Text.lines_join fun line member => (alone line member).oneLine]
  refine (List.map_congr_left fun line member => ?_).trans (List.map_id _)
  rw [Text.dropFinalReturn_of_getLast?_ne (alone line member).noReturn, String.ofList_toList]
  rfl

/-! ### Shapes -/

namespace Line

variable {line left rest : List Char} {c : Char}

theorem lhs_append_cons (free : ∀ c ∈ left, isOperator c = false) (operator : isOperator c = true)
    (rest : List Char) : lhs (left ++ c :: rest) = left := by
  unfold lhs
  rw [List.takeWhile_append_of_pos fun c member => by rw [free c member]; rfl,
    List.takeWhile_cons_of_neg (by simp [operator]), List.append_nil]

theorem operatorAndRest_append_cons (free : ∀ c ∈ left, isOperator c = false)
    (operator : isOperator c = true) (rest : List Char) :
    operatorAndRest (left ++ c :: rest) = c :: rest := by
  unfold operatorAndRest
  rw [List.dropWhile_append_of_pos fun c member => by rw [free c member]; rfl,
    List.dropWhile_cons_of_neg (by simp [operator])]

theorem hasBareEquals_of_notMem (equalsFree : '=' ∉ line) (depth : Nat) (afterDollar : Bool) :
    hasBareEquals depth afterDollar line = false := by
  fun_induction hasBareEquals depth afterDollar line with
  | case1 => rfl
  | case2 depth afterDollar rest inductionHypothesis =>
      exact inductionHypothesis fun member => equalsFree (List.mem_cons_of_mem _ member)
  | case3 depth afterDollar rest inductionHypothesis =>
      exact inductionHypothesis fun member => equalsFree (List.mem_cons_of_mem _ member)
  | case4 => exact absurd List.mem_cons_self equalsFree
  | case5 depth afterDollar c rest _ _ _ inductionHypothesis =>
      exact inductionHypothesis fun member => equalsFree (List.mem_cons_of_mem _ member)

theorem takeWhile_of_inclusionOperand? {operand : List Char}
    (found : inclusionOperand? line = some operand) :
    line.takeWhile (fun c => !Text.isBlank c) = "include".toList := by
  unfold inclusionOperand? at found
  split at found
  · split at found
    · rename_i blank
      rcases blank with rfl | rfl <;> rfl
    · cases found
  · cases found

/-- A line that begins with a plain name, and is not an inclusion, is cut at an operator. -/
theorem ofChars_of_plain {name : String} (plain : IsPlainName name) (tail : List Char)
    (noInclusion : (name.toList ++ tail).takeWhile (fun c => !Text.isBlank c) ≠
      "include".toList) :
    ofChars (name.toList ++ tail) = ofOperator (name.toList ++ tail) := by
  have none : inclusionOperand? (name.toList ++ tail) = none := by
    cases found : inclusionOperand? (name.toList ++ tail) with
    | none => rfl
    | some operand => exact absurd (takeWhile_of_inclusionOperand? found) noInclusion
  cases characters : name.toList with
  | nil => exact absurd (String.toList_eq_nil_iff.mp characters) plain.nonempty
  | cons first others =>
      have ink : Text.isBlank first = false :=
        plain.unbroken first (by rw [characters]; exact List.mem_cons_self)
      have notComment := plain.notComment
      rw [characters, List.head?_cons] at notComment
      have inked : Text.allBlank (first :: (others ++ tail)) = false := by
        simp [Text.allBlank, ink]
      rw [characters, List.cons_append] at none
      rw [List.cons_append, ofChars, inked, if_neg Bool.false_ne_true, none]
      · rintro rest ⟨⟩
        exact notComment rfl
      · rintro rest ⟨⟩
        exact absurd ink (by decide)

end Line

namespace Line

theorem takeWhile_name_append {name : String} (plain : IsPlainName name) (tail : List Char) :
    (name.toList ++ tail).takeWhile (fun c => !Text.isBlank c) =
      name.toList ++ tail.takeWhile fun c => !Text.isBlank c :=
  List.takeWhile_append_of_pos fun c member => by
    rw [plain.unbroken c member]
    rfl

private theorem allBlank_name_append {name : String} (plain : IsPlainName name) (tail : List Char) :
    Text.allBlank (name.toList ++ tail) = false := by
  obtain ⟨first, member⟩ := List.exists_mem_of_ne_nil name.toList
    (by rw [ne_eq, String.toList_eq_nil_iff]; exact plain.nonempty)
  rw [Text.allBlank, List.all_eq_false]
  refine ⟨first, List.mem_append_left _ member, ?_⟩
  rw [plain.unbroken first member]
  exact Bool.false_ne_true

theorem ofString_macroLine {name value : String} (plain : IsPlainName name)
    (plainValue : IsPlainValue value) :
    ofString (macroLine name value) = .assign name value := by
  have characters : (macroLine name value).toList = name.toList ++ '=' :: ' ' :: value.toList := by
    simp [macroLine]
  have noInclusion : (name.toList ++ '=' :: ' ' :: value.toList).takeWhile
      (fun c => !Text.isBlank c) ≠ "include".toList := by
    intro same
    have equals : '=' ∈ "include".toList := by
      rw [← same, takeWhile_name_append plain]
      exact List.mem_append_right _ List.mem_cons_self
    exact absurd equals (by decide)
  have notBlank := allBlank_name_append plain []
  rw [List.append_nil] at notBlank
  rw [ofString, characters, ofChars_of_plain plain _ noInclusion, ofOperator,
    lhs_append_cons plain.operatorFree rfl, operatorAndRest_append_cons plain.operatorFree rfl,
    notBlank, if_neg Bool.false_ne_true]
  simp only [Text.trim_cons_blank (c := ' ') (by decide), plainValue.trim_toList,
    String.ofList_toList]

theorem ofString_targetLine {name : String} {deps : List String} (plain : IsPlainName name)
    (plainDeps : ∀ dep ∈ deps, IsPlainDep dep) :
    ofString (targetLine name deps) = .definition name (depsText deps) := by
  have characters : (targetLine name deps).toList =
      name.toList ++ ':' :: (depsText deps).toList := by
    simp [targetLine]
  have noInclusion : (name.toList ++ ':' :: (depsText deps).toList).takeWhile
      (fun c => !Text.isBlank c) ≠ "include".toList := by
    intro same
    have colon : ':' ∈ "include".toList := by
      rw [← same, takeWhile_name_append plain]
      exact List.mem_append_right _ List.mem_cons_self
    exact absurd colon (by decide)
  have notBlank := allBlank_name_append plain []
  rw [List.append_nil] at notBlank
  have equalsFree : '=' ∉ (depsText deps).toList :=
    notMem_depsText plainDeps (by decide) fun dep plainDep => plainDep.equalsFree
  rw [ofString, characters, ofChars_of_plain plain _ noInclusion, ofOperator,
    lhs_append_cons plain.operatorFree rfl, operatorAndRest_append_cons plain.operatorFree rfl,
    notBlank, if_neg Bool.false_ne_true]
  split
  · rename_i rest same
    have inDeps := (List.cons.inj same).2
    exact absurd (inDeps ▸ List.mem_cons_self) equalsFree
  · rename_i same
    obtain rfl := (List.cons.inj same).2
    rw [hasBareEquals_of_notMem equalsFree, if_neg Bool.false_ne_true, String.ofList_toList,
      String.ofList_toList]
  · rename_i same
    cases same
  · rename_i same
    cases same
  · rename_i noColon _ _
    exact absurd rfl (noColon _)

theorem ofString_conditionalLine {target : String} (plain : IsPlainName target)
    (notInclude : target ≠ "include") (key value : String) :
    ofString (conditionalLine target key value) =
      .conditional (target ++ " ")
        (String.ofList (Text.trim (" " ++ key ++ " = " ++ value).toList)) := by
  have characters : (conditionalLine target key value).toList =
      target.toList ++ ' ' :: ':' :: '=' :: (" " ++ key ++ " = " ++ value).toList := by
    simp [conditionalLine]
  have noInclusion : (target.toList ++ ' ' :: ':' :: '=' :: (" " ++ key ++ " = " ++ value).toList
      ).takeWhile (fun c => !Text.isBlank c) ≠ "include".toList := by
    rw [takeWhile_name_append plain, List.takeWhile_cons_of_neg (by decide), List.append_nil]
    exact fun same => notInclude (String.toList_inj.mp same)
  have operatorFree : ∀ c ∈ target.toList ++ [' '], isOperator c = false := by
    intro c member
    rcases List.mem_append.mp member with inName | isBlank
    · exact plain.operatorFree c inName
    · rw [List.mem_singleton.mp isBlank]
      rfl
  rw [ofString, characters, ofChars_of_plain plain _ noInclusion, ofOperator,
    ← List.singleton_append, ← List.append_assoc, lhs_append_cons operatorFree rfl,
    operatorAndRest_append_cons operatorFree rfl, allBlank_name_append plain,
    if_neg Bool.false_ne_true]
  simp only [String.ofList_append, String.ofList_toList]

theorem ofString_ruleLine {rule : String} (plain : IsPlainRule rule) :
    ofString (ruleLine rule) = .rule rule := by
  have characters : (ruleLine rule).toList = '\t' :: rule.toList := by
    simp [ruleLine]
  have notBlank : Text.allBlank ('\t' :: rule.toList) = false := by
    rw [Text.allBlank, List.all_cons, Bool.and_eq_false_iff]
    exact Or.inr plain.inked
  have command : rule.toList.dropWhile (· == '\t') = rule.toList := by
    have unindented := plain.unindented
    cases characters : rule.toList with
    | nil => rfl
    | cons first rest =>
        rw [characters, List.head?_cons] at unindented
        exact List.dropWhile_cons_of_neg (by simpa using unindented)
  have noInclusion : inclusionOperand? ('\t' :: rule.toList) = none := rfl
  rw [ofString, characters, ofChars, notBlank, if_neg Bool.false_ne_true, noInclusion, command,
    String.ofList_toList]

end Line

theorem Reader.splitAssignment_trim {key value : String} (plainKey : IsPlainKey key)
    (plainValue : IsPlainValue value) :
    splitAssignment (String.ofList (Text.trim (" " ++ key ++ " = " ++ value).toList)) =
      some (key, value) := by
  have characters : (" " ++ key ++ " = " ++ value).toList =
      (' ' :: (key.toList ++ [' '])) ++ '=' :: ' ' :: value.toList := by
    simp
  have equalsFree : ∀ c ∈ Text.trimStart (' ' :: (key.toList ++ [' '])), (c != '=') = true := by
    intro c member
    have inKey := (List.dropWhile_sublist Text.isBlank).subset member
    have free := plainKey.equalsFree
    rw [bne_iff_ne]
    rintro rfl
    simp [free] at inKey
  have keyTrimmed : Text.trim key.toList = key.toList := String.ofList_eq.mp plainKey.trimmed
  have valueSide : Text.trim (Text.trimEnd (' ' :: value.toList)) = value.toList := by
    rw [Text.trim_trimEnd, Text.trim_cons_blank (by decide), plainValue.trim_toList]
  have keySide : Text.trim (Text.trimStart (' ' :: (key.toList ++ [' ']))) = key.toList := by
    rw [Text.trim_trimStart, Text.trim_cons_blank (by decide), Text.trim_concat_blank (by decide),
      keyTrimmed]
  unfold splitAssignment
  rw [characters, Text.trim_append_cons (by decide), String.toList_ofList]
  dsimp only
  rw [List.dropWhile_append_of_pos equalsFree, List.takeWhile_append_of_pos equalsFree,
    List.dropWhile_cons_of_neg (by decide), List.takeWhile_cons_of_neg (by decide),
    List.append_nil]
  dsimp only
  rw [keySide, valueSide, String.ofList_toList, String.ofList_toList]

/-- Every line of the written form is a line of its own. -/
theorem Database.standsAlone_of_mem_dumpLines {database : Database} (readable : database.Readable)
    {line : String} (member : line ∈ database.dumpLines) : StandsAlone line := by
  simp only [dumpLines, List.mem_append, List.mem_flatMap, List.mem_singleton] at member
  rcases member with (((⟨⟨name, known⟩, isEntry, inLines⟩ | rfl) |
    ⟨⟨target, known⟩, isEntry, inLines⟩) | rfl) | ⟨⟨name, body⟩, isEntry, inLines⟩
  · have found := Table.get?_of_mem_sorted isEntry
    obtain ⟨plain, plainValue⟩ := readable.macros name known found
    rw [macroLines] at inLines
    split at inLines
    · cases inLines
    · rw [List.mem_singleton.mp inLines]
      exact standsAlone_macroLine plain plainValue
  · exact standsAlone_empty
  · have found := Table.get?_of_mem_sorted isEntry
    obtain ⟨plain, -, -, onSet⟩ := readable.conditionals target known found
    obtain ⟨⟨key, value⟩, inSet, rfl⟩ := List.mem_map.mp inLines
    have isSet := Table.get?_of_mem_sorted inSet
    exact standsAlone_conditionalLine plain (onSet key value isSet).1 (onSet key value isSet).2
  · exact standsAlone_empty
  · have found := Table.get?_of_mem_sorted isEntry
    obtain ⟨plain, plainDeps, plainRules⟩ := readable.plan name body found
    rcases List.mem_cons.mp inLines with rfl | isRuleLine
    · exact standsAlone_targetLine plain plainDeps
    · obtain ⟨rule, isRule, rfl⟩ := List.mem_map.mp isRuleLine
      exact standsAlone_ruleLine (plainRules rule isRule)

end DryMake
