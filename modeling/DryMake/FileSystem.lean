import DryMake.Path

/-!
What a reader of files can ask: what, if anything, is at a path. Only finitely many paths name
something, up to sameness, which is what makes it possible to tell that a chain of files comes to
an end. A path of 4096 bytes or more names nothing, and so every look-up can be limited to finitely
many paths.
-/

namespace DryMake

inductive Contents where
  | directory
  | binary
  | text (text : String)
deriving DecidableEq, Repr

/-- The files as they are while makefiles are read. -/
structure FileSystem where
  lookup : Path → Option Contents
  finite : ∃ known : List (List String),
    ∀ path, (lookup path).isSome → path.components ∈ known

namespace FileSystem

def contains (files : FileSystem) (path : Path) : Bool :=
  (files.lookup path).isSome

def pathLimit : Nat := 4096

private theorem exists_characters : ∃ known : List Char, ∀ c : Char, c ∈ known := by
  refine ⟨(List.range 0x110000).map Char.ofNat, fun c => List.mem_map.mpr ⟨c.toNat, ?_, ?_⟩⟩
  · rw [List.mem_range]
    have valid := c.valid
    unfold UInt32.isValidChar Nat.isValidChar at valid
    unfold Char.toNat
    omega
  · exact Char.ofNat_toNat c

private theorem exists_bounded_lists (length : Nat) :
    ∃ known : List (List Char), ∀ text : List Char, text.length ≤ length → text ∈ known := by
  obtain ⟨characters, everyCharacter⟩ := exists_characters
  induction length with
  | zero =>
      refine ⟨[[]], fun text short => ?_⟩
      rw [List.length_eq_zero_iff.mp (Nat.le_zero.mp short)]
      exact List.mem_singleton.mpr rfl
  | succ length inductionHypothesis =>
      obtain ⟨shorter, everyShorter⟩ := inductionHypothesis
      refine ⟨[] :: characters.flatMap fun c => shorter.map (c :: ·), fun text short => ?_⟩
      cases text with
      | nil => exact List.mem_cons_self
      | cons first rest =>
          refine List.mem_cons_of_mem _ (List.mem_flatMap.mpr ⟨first, everyCharacter first, ?_⟩)
          exact List.mem_map.mpr ⟨rest, everyShorter rest (Nat.le_of_succ_le_succ short), rfl⟩

private theorem length_le_utf8ByteSize (characters : List Char) :
    characters.length ≤ (String.ofList characters).utf8ByteSize := by
  induction characters with
  | nil => exact Nat.zero_le _
  | cons first rest inductionHypothesis =>
      have positive := Char.utf8Size_pos first
      rw [String.ofList_cons, String.utf8ByteSize_append, String.utf8ByteSize_singleton,
        List.length_cons]
      omega

/-- There are finitely many texts below any size. -/
theorem exists_bounded_texts (size : Nat) :
    ∃ known : List String, ∀ text : String, text.utf8ByteSize < size → text ∈ known := by
  obtain ⟨lists, everyList⟩ := exists_bounded_lists size
  refine ⟨lists.map String.ofList, fun text small => List.mem_map.mpr ⟨text.toList, ?_, ?_⟩⟩
  · apply everyList
    have bounded := length_le_utf8ByteSize text.toList
    rw [String.ofList_toList] at bounded
    omega
  · exact String.ofList_toList

/-- The files that a look-up finds, but for those at paths that are too long. -/
def ofLookup (lookup : Path → Option Contents) : FileSystem where
  lookup path := if path.text.utf8ByteSize < pathLimit then lookup path else none
  finite := by
    obtain ⟨texts, everyText⟩ := exists_bounded_texts pathLimit
    refine ⟨texts.map fun text => (Path.mk text).components, fun path found => ?_⟩
    have small : path.text.utf8ByteSize < pathLimit := by
      refine Decidable.byContradiction fun large => ?_
      rw [if_neg large] at found
      cases found
    exact List.mem_map.mpr ⟨path.text, everyText path.text small, rfl⟩

end FileSystem

end DryMake
