import DryMake.Build
import Mathlib.Data.List.Chain

/-!
The names kept beside the stack of a build are those of its frames, each of them once. Each frame is
the dependency at which the frame below it has stopped. So the stack is never higher than the plan has
targets, and every build ends, also that of a target which depends on itself.
-/

namespace DryMake.Build

variable {database : Database} {name : String} {record : Record}

/-- The walks met while a target is built that was asked for, with what is on record then. -/
inductive Reachable (database : Database) (name : String) (record : Record) :
    Walk → Record → Prop where
  | start {root : Frame} {now : Record} (notMarker : name ≠ waitMarker)
      (entered : enter database name none 1 record = (now, .ok root)) :
      Reachable database name record (.start root) now
  | step {walk next : Walk} {now later : Record}
      (reached : Reachable database name record walk now)
      (stepped : step database walk now = (later, .more next)) :
      Reachable database name record next later

/-- The one frame is the dependency just before the next one of the other. -/
def Frame.NeededBy (upper lower : Frame) : Prop :=
  ∃ position, lower.nextDep = position + 1 ∧ lower.body.deps[position]? = some upper.name

/-- Every frame has the depth at which it stands, the lowest one being at depth one. -/
def Leveled : List Frame → Prop
  | [] => True
  | frame :: below => frame.depth = below.length + 1 ∧ Leveled below

private theorem Leveled.depth_eq {frame : Frame} {above below : List Frame}
    (leveled : Leveled (above ++ frame :: below)) : frame.depth = below.length + 1 := by
  induction above with
  | nil => exact leveled.1
  | cons _ _ inductionHypothesis => exact inductionHypothesis leveled.2

structure Walk.Disciplined (database : Database) (walk : Walk) : Prop where
  names : walk.frames.map Frame.name = walk.active
  distinct : walk.active.Nodup
  known : ∀ frame ∈ walk.frames, database.plan.get? frame.name = some frame.body
  linked : walk.frames.IsChain Frame.NeededBy
  leveled : Leveled walk.frames

private theorem disciplined_start {root : Frame} {now : Record}
    (entered : enter database name none 1 record = (now, .ok root)) :
    (Walk.start root).Disciplined database := by
  obtain ⟨body, found, rfl⟩ := of_enter_eq_ok entered
  constructor
  · rfl
  · exact List.pairwise_singleton _ _
  · intro frame member
    rw [List.mem_singleton.mp member]
    exact found
  · exact .singleton _
  · exact ⟨rfl, trivial⟩

theorem isChain_advance {top : Frame} {below : List Frame}
    (linked : (top :: below).IsChain Frame.NeededBy) (count : Nat) :
    ({ top with nextDep := count } :: below).IsChain Frame.NeededBy := by
  cases below with
  | nil => exact .singleton _
  | cons lower rest =>
      obtain ⟨needed, others⟩ := List.isChain_cons_cons.mp linked
      exact .cons_cons needed others

private theorem Move.disciplined {walk next : Walk} (moved : Move database walk next)
    (disciplined : walk.Disciplined database) : next.Disciplined database := by
  obtain ⟨names, distinct, known, linked, leveled⟩ := disciplined
  cases moved with
  | @finish top below active noMore =>
      cases names
      have popped : (top.name :: below.map Frame.name).erase top.name = below.map Frame.name :=
        List.erase_cons_head _ _
      constructor
      · exact popped.symm
      · exact popped.symm ▸ (List.nodup_cons.mp distinct).2
      · intro frame member
        exact known frame (List.mem_cons_of_mem _ member)
      · exact linked.tail
      · exact leveled.2
  | @skip top below active nextDep =>
      constructor
      · exact names
      · exact distinct
      · intro frame member
        rcases List.mem_cons.mp member with same | lower
        · exact same ▸ known top List.mem_cons_self
        · exact known frame (List.mem_cons_of_mem _ lower)
      · exact isChain_advance linked _
      · exact leveled
  | @enter top below active dep body nextDep fresh found =>
      rw [List.insert_of_not_mem fresh]
      constructor
      · exact congrArg (dep :: ·) names
      · exact List.nodup_cons.mpr ⟨fresh, distinct⟩
      · intro frame member
        rcases List.mem_cons.mp member with same | older
        · exact same ▸ found
        · rcases List.mem_cons.mp older with same | lower
          · exact same ▸ known top List.mem_cons_self
          · exact known frame (List.mem_cons_of_mem _ lower)
      · exact .cons_cons ⟨top.nextDep, rfl, nextDep⟩ (isChain_advance linked _)
      · exact ⟨congrArg Nat.succ leveled.1, leveled⟩

private theorem Reachable.disciplined {walk : Walk} {now : Record}
    (reached : Reachable database name record walk now) : walk.Disciplined database := by
  induction reached with
  | start notMarker entered => exact disciplined_start entered
  | step _ stepped inductionHypothesis =>
      exact (move_of_step stepped).disciplined inductionHypothesis

private theorem Walk.Disciplined.length_frames_le {walk : Walk}
    (disciplined : walk.Disciplined database) : walk.frames.length ≤ database.plan.size := by
  have inPlan : walk.active ⊆ database.plan.names := by
    intro target member
    rw [← disciplined.names] at member
    obtain ⟨frame, onStack, sameName⟩ := List.mem_map.mp member
    exact sameName ▸ Table.mem_names_of_get? (disciplined.known frame onStack)
  have bounded := disciplined.distinct.length_le_of_subset inPlan
  rw [← disciplined.names, List.length_map] at bounded
  simpa [Table.names, Table.size] using bounded

private theorem step_wellFounded (database : Database) :
    WellFounded fun later earlier : Walk × Record =>
      step database earlier.1 earlier.2 = (later.2, .more later.1) :=
  Subrelation.wf (fun stepped => step_decreases stepped)
    (InvImage.wf (fun state : Walk × Record => state.1.weight database.plan) Nat.lt_wfRel.wf)

/-- From every walk that is met, the steps lead to a last one, whose result is the result. -/
theorem exists_last (state : Walk × Record)
    (reached : Reachable database name record state.1 state.2) :
    ∃ last now, Reachable database name record last now ∧
      step database last now =
        ((run database state.1 state.2).1, .done (run database state.1 state.2).2) := by
  induction state using (step_wellFounded database).induction with
  | _ state inductionHypothesis =>
      obtain ⟨walk, now⟩ := state
      cases stepped : step database walk now with
      | mk later further =>
          cases further with
          | more next =>
              rw [run_of_step_more stepped]
              exact inductionHypothesis (next, later) stepped (reached.step stepped)
          | done result =>
              rw [run_of_step_done stepped]
              exact ⟨walk, now, reached, stepped⟩

/-- No sequence of steps is endless, for whatever plan, and the steps from a request end with its
build. On the way the names kept beside the stack are just those of its frames, which are different
targets of the plan; each frame above the lowest is the dependency just before the next one of the
frame under it and has the depth at which it stands; and the stack is not higher than the plan. -/
theorem buildInto_terminates (database : Database) (name : String) (record : Record) :
    (WellFounded fun later earlier : Walk × Record =>
        step database earlier.1 earlier.2 = (later.2, .more later.1)) ∧
      (name = waitMarker ∨ database.plan.get? name = none ∨
        ∃ last now, Reachable database name record last now ∧
          step database last now =
            ((database.buildInto name record).1, .done (database.buildInto name record).2)) ∧
      ∀ walk now, Reachable database name record walk now →
        (∀ target, target ∈ walk.active ↔ target ∈ walk.frames.map Frame.name) ∧
        walk.active.Nodup ∧ (walk.frames.map Frame.name).Nodup ∧
        (∀ frame ∈ walk.frames, database.plan.get? frame.name = some frame.body) ∧
        walk.frames.IsChain Frame.NeededBy ∧
        (∀ above frame below, walk.frames = above ++ frame :: below →
          frame.depth = below.length + 1) ∧
        walk.frames.length ≤ database.plan.size := by
  refine ⟨step_wellFounded database, ?_, ?_⟩
  · by_cases marker : name = waitMarker
    · exact Or.inl marker
    · cases found : database.plan.get? name with
      | none => exact Or.inr (Or.inl rfl)
      | some body =>
          rw [Database.buildInto_of_found marker found]
          have entered := enter_of_found found none 1 record
          exact Or.inr (Or.inr (exists_last (_, _) (.start marker entered)))
  · intro walk now reached
    have disciplined := reached.disciplined
    refine ⟨?_, disciplined.distinct, ?_, disciplined.known, disciplined.linked, ?_,
      disciplined.length_frames_le⟩
    · intro target
      rw [disciplined.names]
    · rw [disciplined.names]
      exact disciplined.distinct
    · intro above frame below split
      exact Leveled.depth_eq (split ▸ disciplined.leveled)

end DryMake.Build
