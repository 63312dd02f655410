/-!
Tables from names to entries that remember the order in which names were first added. No name
occurs twice. Every change goes through `upsert`, which gives a name the entry computed from the
one it had; adding never moves or removes another name.
-/

namespace DryMake

structure Table (Entry : Type) where
  entries : List (String × Entry)
  distinct : (entries.map Prod.fst).Nodup

/-- The entries are all that is found, each of them once, and their keys ascend strictly. -/
structure Enumerates {Key Entry : Type} (below : Key → Key → Prop) (found : Key → Option Entry)
    (entries : List (Key × Entry)) : Prop where
  ascends : entries.Pairwise fun left right => below left.1 right.1
  complete : ∀ key entry, (key, entry) ∈ entries ↔ found key = some entry

namespace Enumerates

variable {Key Entry : Type} {below : Key → Key → Prop} {found : Key → Option Entry}
  {entries others : List (Key × Entry)}

theorem nodup [Std.Irrefl below] (listed : Enumerates below found entries) : entries.Nodup := by
  refine listed.ascends.imp ?_
  rintro entry _ isBelow rfl
  exact Std.Irrefl.irrefl entry.1 isBelow

theorem unique [Std.Asymm below] (listed : Enumerates below found entries)
    (listedToo : Enumerates below found others) : entries = others := by
  have perm : entries.Perm others := by
    refine (List.perm_ext_iff_of_nodup listed.nodup listedToo.nodup).mpr ?_
    intro (key, entry)
    rw [listed.complete, listedToo.complete]
  refine perm.eq_of_pairwise ?_ listed.ascends listedToo.ascends
  intro left right _ _ isBelow isAbove
  exact absurd isAbove (Std.Asymm.asymm _ _ isBelow)

end Enumerates

namespace Table

variable {Entry : Type}

instance [Repr Entry] : Repr (Table Entry) where
  reprPrec table precedence := reprPrec table.entries precedence

instance [DecidableEq Entry] : DecidableEq (Table Entry) := fun left right =>
  decidable_of_iff (left.entries = right.entries) (by cases left; cases right; simp)

def empty : Table Entry where
  entries := []
  distinct := by simp

instance : Inhabited (Table Entry) := ⟨empty⟩

def names (table : Table Entry) : List String :=
  table.entries.map Prod.fst

def size (table : Table Entry) : Nat :=
  table.entries.length

def get? (table : Table Entry) (name : String) : Option Entry :=
  table.entries.lookup name

def contains (table : Table Entry) (name : String) : Bool :=
  (table.get? name).isSome

private def upsertIn (name : String) (change : Option Entry → Entry) :
    List (String × Entry) → List (String × Entry)
  | [] => [(name, change none)]
  | (other, entry) :: rest =>
      if name = other then (other, change (some entry)) :: rest
      else (other, entry) :: upsertIn name change rest

private theorem upsertIn_names (name : String) (change : Option Entry → Entry)
    (entries : List (String × Entry)) :
    (upsertIn name change entries).map Prod.fst =
      if name ∈ entries.map Prod.fst then entries.map Prod.fst
      else entries.map Prod.fst ++ [name] := by
  induction entries with
  | nil => simp [upsertIn]
  | cons first rest inductionHypothesis =>
      obtain ⟨other, entry⟩ := first
      by_cases same : name = other
      · simp [upsertIn, same]
      · rw [upsertIn, if_neg same, List.map_cons, inductionHypothesis]
        by_cases known : name ∈ rest.map Prod.fst
        · have stillKnown : name ∈ ((other, entry) :: rest).map Prod.fst := by
            rw [List.map_cons]
            exact List.mem_cons_of_mem _ known
          rw [if_pos known, if_pos stillKnown, List.map_cons]
        · have unknown : name ∉ ((other, entry) :: rest).map Prod.fst := by
            rw [List.map_cons, List.mem_cons, not_or]
            exact ⟨same, known⟩
          rw [if_neg known, if_neg unknown, List.map_cons, List.cons_append]

/-- Gives `name` the entry that `change` computes from the one it has. A new name goes last. -/
def upsert (table : Table Entry) (name : String) (change : Option Entry → Entry) :
    Table Entry where
  entries := upsertIn name change table.entries
  distinct := by
    rw [upsertIn_names]
    split
    · exact table.distinct
    · rename_i absent
      rw [List.nodup_append]
      refine ⟨table.distinct, by simp, ?_⟩
      intro old oldMember new newMember same
      rw [List.mem_singleton] at newMember
      exact absent (newMember ▸ same ▸ oldMember)

def insert (table : Table Entry) (name : String) (entry : Entry) : Table Entry :=
  table.upsert name fun _ => entry

def sorted (table : Table Entry) : List (String × Entry) :=
  table.entries.mergeSort fun left right => decide (left.1 ≤ right.1)

@[simp] theorem get?_empty (name : String) : (empty : Table Entry).get? name = none := rfl

@[simp] theorem names_empty : (empty : Table Entry).names = [] := rfl

@[simp] theorem names_upsert (table : Table Entry) (name : String)
    (change : Option Entry → Entry) :
    (table.upsert name change).names =
      if name ∈ table.names then table.names else table.names ++ [name] :=
  upsertIn_names name change table.entries

private theorem lookup_upsertIn_self (name : String) (change : Option Entry → Entry)
    (entries : List (String × Entry)) :
    (upsertIn name change entries).lookup name = some (change (entries.lookup name)) := by
  induction entries with
  | nil => simp [upsertIn]
  | cons first rest inductionHypothesis =>
      obtain ⟨other, entry⟩ := first
      by_cases same : name = other
      · simp [upsertIn, same]
      · have differ : (name == other) = false := by simpa using same
        simp [upsertIn, same, List.lookup_cons, differ, inductionHypothesis]

private theorem lookup_upsertIn_of_ne {name other : String} (different : other ≠ name)
    (change : Option Entry → Entry) (entries : List (String × Entry)) :
    (upsertIn name change entries).lookup other = entries.lookup other := by
  induction entries with
  | nil =>
      have differ : (other == name) = false := by simpa using different
      simp [upsertIn, List.lookup_cons, differ]
  | cons first rest inductionHypothesis =>
      obtain ⟨key, entry⟩ := first
      by_cases same : name = key
      · subst same
        have differ : (other == name) = false := by simpa using different
        simp [upsertIn, List.lookup_cons, differ]
      · simp only [upsertIn, if_neg same, List.lookup_cons]
        split
        · rfl
        · exact inductionHypothesis

@[simp] theorem get?_upsert_self (table : Table Entry) (name : String)
    (change : Option Entry → Entry) :
    (table.upsert name change).get? name = some (change (table.get? name)) :=
  lookup_upsertIn_self name change table.entries

@[simp] theorem get?_upsert_of_ne (table : Table Entry) {name other : String}
    (different : other ≠ name) (change : Option Entry → Entry) :
    (table.upsert name change).get? other = table.get? other :=
  lookup_upsertIn_of_ne different change table.entries

private theorem upsertIn_of_notMem {name : String} {entries : List (String × Entry)}
    (absent : name ∉ entries.map Prod.fst) (change : Option Entry → Entry) :
    upsertIn name change entries = entries ++ [(name, change none)] := by
  induction entries with
  | nil => rfl
  | cons first rest inductionHypothesis =>
      obtain ⟨other, entry⟩ := first
      rw [List.map_cons, List.mem_cons, not_or] at absent
      rw [upsertIn, if_neg absent.1, inductionHypothesis absent.2, List.cons_append]

theorem entries_upsert_of_notMem {table : Table Entry} {name : String}
    (absent : name ∉ table.names) (change : Option Entry → Entry) :
    (table.upsert name change).entries = table.entries ++ [(name, change none)] :=
  upsertIn_of_notMem absent change

private theorem upsertIn_upsertIn (name : String) (first second : Option Entry → Entry)
    (entries : List (String × Entry)) :
    upsertIn name second (upsertIn name first entries) =
      upsertIn name (fun known => second (some (first known))) entries := by
  induction entries with
  | nil => simp [upsertIn]
  | cons here rest inductionHypothesis =>
      obtain ⟨other, entry⟩ := here
      by_cases same : name = other
      · simp [upsertIn, same]
      · simp [upsertIn, same, inductionHypothesis]

theorem upsert_upsert (table : Table Entry) (name : String) (first second : Option Entry → Entry) :
    (table.upsert name first).upsert name second =
      table.upsert name fun known => second (some (first known)) := by
  unfold upsert
  congr 1
  exact upsertIn_upsertIn name first second table.entries

@[simp] theorem names_insert (table : Table Entry) (name : String) (entry : Entry) :
    (table.insert name entry).names =
      if name ∈ table.names then table.names else table.names ++ [name] :=
  table.names_upsert name _

@[simp] theorem get?_insert_self (table : Table Entry) (name : String) (entry : Entry) :
    (table.insert name entry).get? name = some entry :=
  table.get?_upsert_self name _

@[simp] theorem get?_insert_of_ne (table : Table Entry) {name other : String}
    (different : other ≠ name) (entry : Entry) :
    (table.insert name entry).get? other = table.get? other :=
  table.get?_upsert_of_ne different _

theorem isSome_get?_iff (table : Table Entry) (name : String) :
    (table.get? name).isSome ↔ name ∈ table.names := by
  simp [get?, names, List.lookup_isSome_iff]

theorem mem_names_of_get? {table : Table Entry} {name : String} {entry : Entry}
    (found : table.get? name = some entry) : name ∈ table.names :=
  (table.isSome_get?_iff name).mp (by simp [found])

theorem mem_entries_of_get? {table : Table Entry} {name : String} {entry : Entry}
    (found : table.get? name = some entry) : (name, entry) ∈ table.entries := by
  obtain ⟨before, after, split, _⟩ := List.lookup_eq_some_iff.mp found
  rw [split]
  exact List.mem_append_right _ List.mem_cons_self

theorem get?_of_mem_entries {table : Table Entry} {name : String} {entry : Entry}
    (member : (name, entry) ∈ table.entries) : table.get? name = some entry := by
  obtain ⟨before, after, split⟩ := List.append_of_mem member
  have distinct := table.distinct
  rw [split, List.map_append, List.map_cons, List.nodup_append] at distinct
  refine List.lookup_eq_some_iff.mpr ⟨before, after, split, fun other inBefore => ?_⟩
  have different := distinct.2.2 other.1 (List.mem_map_of_mem inBefore) name List.mem_cons_self
  rw [bne_iff_ne]
  exact different.symm

theorem get?_eq_some_iff (table : Table Entry) (name : String) (entry : Entry) :
    table.get? name = some entry ↔ (name, entry) ∈ table.entries :=
  ⟨mem_entries_of_get?, get?_of_mem_entries⟩

theorem get?_of_perm {table other : Table Entry} (same : table.entries.Perm other.entries)
    (name : String) : table.get? name = other.get? name := by
  ext entry
  rw [get?_eq_some_iff, get?_eq_some_iff, same.mem_iff]

theorem sorted_perm (table : Table Entry) : table.sorted.Perm table.entries :=
  List.mergeSort_perm _ _

theorem mem_sorted_iff (table : Table Entry) (name : String) (entry : Entry) :
    (name, entry) ∈ table.sorted ↔ table.get? name = some entry := by
  rw [table.sorted_perm.mem_iff, get?_eq_some_iff]

theorem get?_of_mem_sorted {table : Table Entry} {name : String} {entry : Entry}
    (member : (name, entry) ∈ table.sorted) : table.get? name = some entry :=
  (table.mem_sorted_iff name entry).mp member

theorem nodup_sorted (table : Table Entry) : (table.sorted.map Prod.fst).Nodup :=
  (table.sorted_perm.map Prod.fst).nodup_iff.mpr table.distinct

theorem sorted_pairwise (table : Table Entry) :
    table.sorted.Pairwise fun left right => left.1 < right.1 := by
  have ordered : table.sorted.Pairwise fun left right => left.1 ≤ right.1 := by
    have weak := @List.pairwise_mergeSort (String × Entry)
      (fun left right => decide (left.1 ≤ right.1))
      (fun _ _ _ first second => by
        simp only [decide_eq_true_eq] at first second ⊢
        exact String.le_trans first second)
      (fun left right => by simpa using String.le_total left.1 right.1) table.entries
    exact weak.imp fun inOrder => by simpa using inOrder
  have distinct : table.sorted.Pairwise fun left right => left.1 ≠ right.1 :=
    List.pairwise_map.mp table.nodup_sorted
  refine ordered.imp₂ ?_ distinct
  intro left right below different
  exact Std.lt_of_le_of_ne below different

theorem enumerates_sorted (table : Table Entry) :
    Enumerates (· < ·) table.get? table.sorted where
  ascends := table.sorted_pairwise
  complete := table.mem_sorted_iff

/-- The sorted entries hang on the look-ups alone. -/
theorem sorted_congr {table other : Table Entry}
    (same : ∀ name, table.get? name = other.get? name) : table.sorted = other.sorted := by
  have listed := table.enumerates_sorted
  rw [funext same] at listed
  exact listed.unique other.enumerates_sorted

end Table

end DryMake
