/-!
The quantity that bounds a depth-first walk which never opens what is already open. The walk keeps a
stack of frames. Each frame has some items pending, and may yet open whatever was not open when it
was reached. A frame weighs its pending items times a power of a base that no frame's number of items
reaches, the exponent being the number of things it may still open. Opening one of them takes an
item from the frame and adds a frame with a smaller exponent, and the sum of the weights goes down.
-/

namespace DryMake.Budget

variable {Item : Type} [DecidableEq Item]

def unused (all used : List Item) : Nat :=
  all.countP fun item => decide (item ∉ used)

theorem unused_cons_le (all used : List Item) (item : Item) :
    unused all (item :: used) ≤ unused all used := by
  apply List.countP_mono_left
  intro other _ kept
  simp only [List.mem_cons, not_or, decide_eq_true_eq] at kept ⊢
  exact kept.2

theorem unused_cons_lt {all used : List Item} {item : Item} (member : item ∈ all)
    (fresh : item ∉ used) : unused all (item :: used) < unused all used := by
  induction all with
  | nil => cases member
  | cons first rest inductionHypothesis =>
      have monotone := unused_cons_le rest used item
      unfold unused at monotone inductionHypothesis ⊢
      rw [List.countP_cons, List.countP_cons]
      by_cases same : first = item
      · subst same
        have usedNow : decide (first ∉ first :: used) = false := by simp
        have freshBefore : decide (first ∉ used) = true := by simp [fresh]
        rw [usedNow, freshBefore, if_neg Bool.false_ne_true, if_pos rfl]
        omega
      · have later : item ∈ rest :=
          (List.mem_cons.mp member).resolve_left fun equal => same equal.symm
        have smaller := inductionHypothesis later
        have unchanged : decide (first ∉ item :: used) = decide (first ∉ used) := by
          simp [same]
        rw [unchanged]
        omega

theorem unused_congr (all : List Item) {used other : List Item}
    (same : ∀ item, item ∈ used ↔ item ∈ other) : unused all used = unused all other := by
  unfold unused
  congr 1
  funext item
  rw [decide_eq_decide, same item]

/-- The weight of a frame with `pending` items that may open `free` things. -/
def weight (base pending free : Nat) : Nat :=
  (pending + 1) * base.pow free

theorem weight_pos {base : Nat} (positive : 0 < base) (pending free : Nat) :
    0 < weight base pending free :=
  Nat.mul_pos (Nat.succ_pos _) (Nat.pow_pos positive)

theorem weight_lt_of_pending_lt {base fewer pending : Nat} (positive : 0 < base)
    (less : fewer < pending) (free : Nat) : weight base fewer free < weight base pending free :=
  Nat.mul_lt_mul_of_pos_right (Nat.succ_lt_succ less) (Nat.pow_pos positive)

theorem weight_open {base fewer pending child below free : Nat} (less : fewer < pending)
    (bounded : child + 1 < base) (deeper : below < free) :
    weight base child below + weight base fewer free < weight base pending free := by
  have positive : 0 < base := by omega
  have child_lt : weight base child below < base.pow free := by
    calc weight base child below
        < base * base.pow below := Nat.mul_lt_mul_of_pos_right bounded (Nat.pow_pos positive)
      _ = base.pow (below + 1) := Nat.mul_comm _ _
      _ ≤ base.pow free := Nat.pow_le_pow_right positive deeper
  have parent_le : base.pow free + weight base fewer free ≤ weight base pending free := by
    calc base.pow free + weight base fewer free
        = (fewer + 1 + 1) * base.pow free := by
          unfold weight
          rw [Nat.succ_mul (fewer + 1), Nat.add_comm]
      _ ≤ (pending + 1) * base.pow free := Nat.mul_le_mul_right _ (by omega)
  omega

/-- What counts of a frame: its pending items, and the thing that was opened for it, if one was. -/
structure Load (Item : Type) where
  pending : Nat
  opened : Option Item

/-- The weight of a stack, the innermost frame first, while the things `used` are open. What was
opened for a frame is not open for the frames below it. -/
def total (base : Nat) (all : List Item) : List Item → List (Load Item) → Nat
  | _, [] => 0
  | used, load :: below =>
      weight base load.pending (unused all used) +
        total base all (load.opened.elim used used.erase) below

theorem total_close_lt {base : Nat} (positive : 0 < base) (all used : List Item)
    (load : Load Item) (below : List (Load Item)) :
    total base all (load.opened.elim used used.erase) below <
      total base all used (load :: below) := by
  have heavy := weight_pos positive load.pending (unused all used)
  rw [total]
  omega

theorem total_read_lt {base fewer pending : Nat} (positive : 0 < base) (less : fewer < pending)
    (opened : Option Item) (all used : List Item) (below : List (Load Item)) :
    total base all used (⟨fewer, opened⟩ :: below) <
      total base all used (⟨pending, opened⟩ :: below) := by
  rw [total, total]
  exact Nat.add_lt_add_right (weight_lt_of_pending_lt positive less _) _

/-- Opening something for a pending item lowers the weight. -/
theorem total_open_lt {base fewer pending child : Nat} {all used : List Item} {item : Item}
    (less : fewer < pending) (bounded : child + 1 < base) (member : item ∈ all)
    (fresh : item ∉ used) (opened : Option Item) (below : List (Load Item)) :
    total base all (used.insert item) (⟨child, some item⟩ :: ⟨fewer, opened⟩ :: below) <
      total base all used (⟨pending, opened⟩ :: below) := by
  have lighter := weight_open less bounded (unused_cons_lt member fresh)
  rw [List.insert_of_not_mem fresh, total, total, total, Option.elim_some, List.erase_cons_head]
  dsimp only
  omega

def largest (sizes : List Nat) : Nat :=
  sizes.foldr max 0

theorem le_largest {sizes : List Nat} {size : Nat} (member : size ∈ sizes) :
    size ≤ largest sizes := by
  induction sizes with
  | nil => cases member
  | cons first rest inductionHypothesis =>
      unfold largest at inductionHypothesis ⊢
      rw [List.foldr_cons]
      rcases List.mem_cons.mp member with same | later
      · subst same
        exact Nat.le_max_left _ _
      · exact Nat.le_trans (inductionHypothesis later) (Nat.le_max_right _ _)

end DryMake.Budget
