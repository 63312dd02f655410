import DryMake.Proofs.Database.Written

/-!
The written form of a database says what the database holds and nothing else. Each section has its
entries once and in strictly ascending order, and there is only one such listing of a database. So
databases that hold the same are written alike, whatever the order of their tables.
-/

namespace DryMake

namespace Enumerates

variable {Key Entry Shown Inner : Type} {below : Key → Key → Prop} {found : Key → Option Entry}
  {entries : List (Key × Entry)}

theorem filterMap (listed : Enumerates below found entries) (shown? : Entry → Option Shown) :
    Enumerates below (fun key => (found key).bind shown?)
      (entries.filterMap fun entry => (shown? entry.2).map (entry.1, ·)) where
  ascends := by
    rw [List.pairwise_filterMap]
    refine listed.ascends.imp fun {left right} isBelow item isShown itemToo isShownToo => ?_
    obtain ⟨_, _, rfl⟩ := Option.map_eq_some_iff.mp isShown
    obtain ⟨_, _, rfl⟩ := Option.map_eq_some_iff.mp isShownToo
    exact isBelow
  complete := by
    intro key item
    rw [List.mem_filterMap, Option.bind_eq_some_iff]
    constructor
    · rintro ⟨⟨key, entry⟩, member, isShown⟩
      obtain ⟨_, isItem, same⟩ := Option.map_eq_some_iff.mp isShown
      cases same
      exact ⟨entry, (listed.complete key entry).mp member, isItem⟩
    · rintro ⟨entry, isEntry, isItem⟩
      refine ⟨(key, entry), (listed.complete key entry).mpr isEntry, ?_⟩
      rw [isItem, Option.map_some]

theorem flatMap {within : Inner → Inner → Prop} {items : Entry → List (Inner × Shown)}
    {item? : Entry → Inner → Option Shown} (listed : Enumerates below found entries)
    (each : ∀ entry, Enumerates within (item? entry) (items entry)) :
    Enumerates (Prod.Lex below within) (fun keys => (found keys.1).bind (item? · keys.2))
      (entries.flatMap fun entry => (items entry.2).map fun item => ((entry.1, item.1), item.2))
    where
  ascends := by
    rw [List.pairwise_flatMap]
    constructor
    · intro (outer, entry) _
      rw [List.pairwise_map]
      refine (each entry).ascends.imp fun isBelow => ?_
      exact Prod.Lex.right outer isBelow
    · refine listed.ascends.imp fun {left right} isBelow item inLeft itemToo inRight => ?_
      obtain ⟨_, _, rfl⟩ := List.mem_map.mp inLeft
      obtain ⟨_, _, rfl⟩ := List.mem_map.mp inRight
      exact Prod.Lex.left _ _ isBelow
  complete := by
    intro (outer, inner) item
    rw [List.mem_flatMap, Option.bind_eq_some_iff]
    constructor
    · rintro ⟨⟨key, entry⟩, member, inEntry⟩
      obtain ⟨⟨_, _⟩, isItem, same⟩ := List.mem_map.mp inEntry
      cases same
      exact ⟨entry, (listed.complete key entry).mp member, ((each entry).complete _ _).mp isItem⟩
    · rintro ⟨entry, isEntry, isItem⟩
      exact ⟨(outer, entry), (listed.complete outer entry).mpr isEntry,
        List.mem_map.mpr ⟨(inner, item), ((each entry).complete inner item).mpr isItem, rfl⟩⟩

end Enumerates

/-- What a database holds, section by section. A conditional macro has the name of its target and
its own name for its key. -/
structure Listing where
  macros : List (String × String)
  conditionals : List ((String × String) × String)
  plan : List (String × Target)

def Macro.inked? (known : Macro) : Option String :=
  if known.value = "" then none else some known.value

def MacroTable.inked? (macros : MacroTable) (name : String) : Option String :=
  (macros.get? name).bind Macro.inked?

private theorem MacroTable.inked?_eq (macros : MacroTable) (name : String) :
    macros.inked? name = (macros.value? name).filter (· ≠ "") := by
  rw [inked?, value?]
  cases macros.get? name with
  | none => rfl
  | some known =>
      rw [Option.bind_some, Option.map_some, Macro.inked?]
      by_cases empty : known.value = ""
      · rw [if_pos empty, empty]
        rfl
      · rw [if_neg empty, Option.filter_some_pos (by simpa using empty)]

namespace Listing

def lines (listing : Listing) : List String :=
  listing.macros.map (fun (name, value) => macroLine name value) ++ [""] ++
    listing.conditionals.map (fun ((target, name), value) => conditionalLine target name value) ++
      [""] ++ listing.plan.flatMap fun (name, body) =>
        targetLine name body.deps :: body.rules.map ruleLine

def text (listing : Listing) : String :=
  Database.ended listing.lines

/-- The listing has each macro with a value that is not empty, each conditional macro and each
target of the database, and nothing else, once each and in strictly ascending order. -/
structure Lists (listing : Listing) (database : Database) : Prop where
  macros : Enumerates (· < ·) database.macros.inked? listing.macros
  conditionals : Enumerates (Prod.Lex (· < ·) (· < ·))
    (fun (target, name) => database.conditionals.value? target name) listing.conditionals
  plan : Enumerates (· < ·) database.plan.get? listing.plan

private theorem Lists.unique {listing other : Listing} {database : Database}
    (lists : listing.Lists database) (listsToo : other.Lists database) : listing = other := by
  have macros := lists.macros.unique listsToo.macros
  have conditionals := lists.conditionals.unique listsToo.conditionals
  have plan := lists.plan.unique listsToo.plan
  cases listing
  cases other
  cases macros
  cases conditionals
  cases plan
  rfl

end Listing

namespace Database

/-- The databases have the same values of macros, the same conditional macros and the same targets.
Nothing is said of the order in which their tables came to hold them. -/
structure HoldsSame (database other : Database) : Prop where
  macros : ∀ name, database.macros.value? name = other.macros.value? name
  conditionals : ∀ target name,
    database.conditionals.value? target name = other.conditionals.value? target name
  plan : ∀ name, database.plan.get? name = other.plan.get? name

private theorem HoldsSame.lists {database other : Database} (same : database.HoldsSame other)
    {listing : Listing} (lists : listing.Lists database) : listing.Lists other where
  macros := by
    have sameInked : database.macros.inked? = other.macros.inked? := by
      funext name
      rw [MacroTable.inked?_eq, MacroTable.inked?_eq, same.macros]
    exact sameInked ▸ lists.macros
  conditionals := by
    have sameValues : database.conditionals.value? = other.conditionals.value? :=
      funext fun target => funext (same.conditionals target)
    exact sameValues ▸ lists.conditionals
  plan := funext same.plan ▸ lists.plan

def listing (database : Database) : Listing where
  macros := database.macros.sorted.filterMap fun entry => entry.2.inked?.map (entry.1, ·)
  conditionals := database.conditionals.sorted.flatMap fun entry =>
    entry.2.sorted.map fun item => ((entry.1, item.1), item.2)
  plan := database.plan.sorted

private theorem lists_listing (database : Database) : database.listing.Lists database where
  macros := database.macros.enumerates_sorted.filterMap Macro.inked?
  conditionals := database.conditionals.enumerates_sorted.flatMap Table.enumerates_sorted
  plan := database.plan.enumerates_sorted

private theorem dump_eq_text_listing (database : Database) :
    database.dump = database.listing.text := by
  have macros : database.macros.sorted.flatMap macroLines =
      database.listing.macros.map fun (name, value) => macroLine name value := by
    rw [listing, List.map_filterMap, List.filterMap_eq_flatMap_toList]
    congr 1
    funext entry
    rw [macroLines, Macro.inked?]
    split <;> rfl
  have conditionals : database.conditionals.sorted.flatMap conditionalLines =
      database.listing.conditionals.map fun ((target, name), value) =>
        conditionalLine target name value := by
    rw [listing, List.map_flatMap]
    congr 1
    funext entry
    rw [List.map_map]
    rfl
  rw [dump_eq, dumpLines, macros, conditionals]
  rfl

/-- The written form of a database has three sections, with an empty line after the first and after
the second: a line for each macro with a value that is not empty, a line for each conditional macro,
and for each target its line and those of its rules. Each section is complete and in strictly
ascending order, whatever way of sorting brings it there. Databases that hold the same are written
alike. -/
theorem dump_lists (database : Database) :
    (∃ listing : Listing, listing.Lists database) ∧
    (∀ listing : Listing, listing.Lists database → database.dump = listing.text) ∧
    ∀ other : Database, database.HoldsSame other → database.dump = other.dump := by
  refine ⟨⟨database.listing, database.lists_listing⟩, ?_, ?_⟩
  · intro listing lists
    rw [dump_eq_text_listing, database.lists_listing.unique lists]
  · intro other same
    have listing : database.listing = other.listing :=
      (same.lists database.lists_listing).unique other.lists_listing
    rw [dump_eq_text_listing, dump_eq_text_listing, listing]

/-- The same macros, conditional macros and targets, but they came in another order, and a
conditional macro and a target by steps. -/
theorem dump_lists_reordered :
    let macros := MacroTable.importVariable
      (.assign (.assign .empty true "ZED" "last") true "NONE" "") "ALPHA" "first"
    let macrosToo := MacroTable.assign
      (.assign (.importVariable .empty "ALPHA" "first") true "ZED" "last") true "NONE" ""
    let conditionals := ConditionalTable.assign
      (.assign (.assign .empty "b" "Y" "2") "a" "X" "1") "b" "A" "0"
    let conditionalsToo := ConditionalTable.assign
      (.assign (.assign (.assign .empty "a" "X" "1") "b" "A" "9") "b" "Y" "2") "b" "A" "0"
    let plan := (Plan.commit .empty ⟨["zz"], ⟨["y", "x"], ["one", "two"]⟩⟩).commit
      ⟨["aa"], ⟨[], []⟩⟩
    let planToo := ((Plan.commit .empty ⟨["aa"], ⟨[], []⟩⟩).commit
      ⟨["zz"], ⟨["y"], ["one"]⟩⟩).commit ⟨["zz"], ⟨["x"], ["two"]⟩⟩
    let database : Database := ⟨macros, conditionals, plan, false⟩
    let other : Database := ⟨macrosToo, conditionalsToo, planToo, true⟩
    let listing : Listing :=
      ⟨[("ALPHA", "first"), ("ZED", "last")],
        [(("a", "X"), "1"), (("b", "A"), "0"), (("b", "Y"), "2")],
        [("aa", ⟨[], []⟩), ("zz", ⟨["y", "x"], ["one", "two"]⟩)]⟩
    let written := "ALPHA= first\nZED= last\n\na := X = 1\nb := A = 0\nb := Y = 2\n\n" ++
      "aa:\nzz: y x\n\tone\n\ttwo\n"
    database.HoldsSame other ∧ macros.names ≠ macrosToo.names ∧
      conditionals.names ≠ conditionalsToo.names ∧ plan.names ≠ planToo.names ∧
      listing.Lists database ∧ database.dump = written ∧ other.dump = written := by
  intro macros macrosToo conditionals conditionalsToo plan planToo database other listing written
  have same : database.HoldsSame other := by
    constructor
    · intro name
      have entries : macros.entries.Perm macrosToo.entries := by decide
      exact congrArg (Option.map Macro.value) (Table.get?_of_perm entries name)
    · intro target name
      simp only [database, other, conditionals, conditionalsToo, ConditionalTable.value?_assign]
      grind
    · have entries : plan.entries.Perm planToo.entries := by decide
      exact Table.get?_of_perm entries
  have isListing : database.listing = listing := by cbv
  have isWritten : listing.text = written := by cbv
  have lists : listing.Lists database := isListing ▸ database.lists_listing
  obtain ⟨_, writes, canonical⟩ := dump_lists database
  have dumped : database.dump = written := (writes listing lists).trans isWritten
  exact ⟨same, by decide, by decide, by decide, lists, dumped, canonical other same ▸ dumped⟩

end Database

end DryMake
