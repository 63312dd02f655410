import DryMake.Expansion

/-!
The open references of an expansion are those of the values on its stack, each of them once. So the
stack is never higher than one frame for the given text and one for each entry of the two tables, and
every expansion ends with what its last frame holds.
-/

namespace DryMake.Expansion

variable {bindings : Bindings} {text : String}

inductive Reachable (bindings : Bindings) (text : String) : Walk → Prop where
  | start : Reachable bindings text (.start text)
  | step {walk later : Walk} (reached : Reachable bindings text walk)
      (stepped : step bindings walk = .more later) : Reachable bindings text later

/-- The references of `active` are those of the frames, in the same order; below them stands the
frame of the text that was given. -/
structure Walk.Disciplined (bindings : Bindings) (walk : Walk) : Prop where
  origins : walk.frames.map Frame.origin = walk.active.map some ++ [none]
  distinct : walk.active.Nodup
  known : ∀ reference ∈ walk.active, reference ∈ bindings.references

private theorem disciplined_start (bindings : Bindings) (text : String) :
    (Walk.start text).Disciplined bindings := by
  constructor
  · rfl
  · exact List.nodup_nil
  · intro reference member
    cases member

private theorem Move.disciplined {walk later : Walk} (moved : Move bindings walk later)
    (disciplined : walk.Disciplined bindings) : later.Disciplined bindings := by
  obtain ⟨origins, distinct, known⟩ := disciplined
  cases moved with
  | @handBack frame parent below active finished =>
      cases active with
      | nil => simp at origins
      | cons reference others =>
          simp only [List.map_cons, List.cons_append, List.cons.injEq] at origins
          obtain ⟨opened, outer⟩ := origins
          have closed : frame.origin.elim (reference :: others) (reference :: others).erase =
              others := by
            rw [opened, Option.elim_some, List.erase_cons_head]
          rw [closed]
          constructor
          · exact outer
          · exact (List.nodup_cons.mp distinct).2
          · intro other member
            exact known other (List.mem_cons_of_mem _ member)
  | read scanned replaced => exact ⟨origins, distinct, known⟩
  | @openValue frame below active first rest reference value scanned replaced =>
      obtain ⟨found, fresh⟩ := Bindings.of_replace_eq_value replaced
      rw [List.insert_of_not_mem fresh]
      constructor
      · exact congrArg (some reference :: ·) origins
      · exact List.nodup_cons.mpr ⟨fresh, distinct⟩
      · intro other member
        rcases List.mem_cons.mp member with same | older
        · exact same ▸ Bindings.mem_references found
        · exact known other older

theorem Reachable.disciplined {walk : Walk} (reached : Reachable bindings text walk) :
    walk.Disciplined bindings := by
  induction reached with
  | start => exact disciplined_start bindings text
  | step _ stepped inductionHypothesis =>
      exact (move_of_step stepped).disciplined inductionHypothesis

namespace Walk.Disciplined

variable {walk : Walk}

private theorem mem_active_iff (disciplined : walk.Disciplined bindings) (reference : Reference) :
    reference ∈ walk.active ↔ some reference ∈ walk.frames.map Frame.origin := by
  rw [disciplined.origins]
  simp

private theorem origins_nodup (disciplined : walk.Disciplined bindings) :
    (walk.frames.map Frame.origin).Nodup := by
  rw [disciplined.origins, List.nodup_append]
  refine ⟨?_, by simp, ?_⟩
  · refine List.pairwise_map.mpr (disciplined.distinct.imp ?_)
    intro reference other different same
    exact different (Option.some.inj same)
  · intro origin opened bottom atBottom same
    rw [List.mem_singleton] at atBottom
    obtain ⟨reference, _, isReference⟩ := List.mem_map.mp opened
    rw [← isReference, atBottom] at same
    cases same

private theorem length_frames (disciplined : walk.Disciplined bindings) :
    walk.frames.length = walk.active.length + 1 := by
  have lengths := congrArg List.length disciplined.origins
  simpa using lengths

theorem length_frames_le (disciplined : walk.Disciplined bindings) :
    walk.frames.length ≤ 1 + bindings.macros.size + bindings.conditional.size := by
  have bounded : walk.active.length ≤ bindings.references.length :=
    disciplined.distinct.length_le_of_subset fun reference => disciplined.known reference
  have counted : bindings.references.length =
      bindings.conditional.size + bindings.macros.size := by
    simp [Bindings.references, Table.names, Table.size]
  have height := disciplined.length_frames
  omega

theorem frames_ne_nil (disciplined : walk.Disciplined bindings) : walk.frames ≠ [] := by
  intro empty
  have height := disciplined.length_frames
  rw [empty] at height
  simp at height

end Walk.Disciplined

private theorem step_wellFounded (bindings : Bindings) :
    WellFounded fun later earlier : Walk => step bindings earlier = .more later :=
  Subrelation.wf (fun stepped => step_decreases stepped)
    (InvImage.wf (Walk.weight bindings) Nat.lt_wfRel.wf)

theorem exists_last (walk : Walk) (reached : Reachable bindings text walk) :
    ∃ last, Reachable bindings text last ∧ step bindings last = .done (run bindings walk) := by
  induction walk using (step_wellFounded bindings).induction with
  | _ walk inductionHypothesis =>
      cases stepped : step bindings walk with
      | more later =>
          rw [run_of_step_more stepped]
          exact inductionHypothesis later stepped (reached.step stepped)
      | done result =>
          rw [run_of_step_done stepped]
          exact ⟨walk, reached, stepped⟩

/-- No sequence of steps is endless, for whatever macros, and the steps from a text end with its
expansion. On the way the open references are just those of the frames, no two frames have the same
origin, and the stack is neither empty nor higher than the macros allow. -/
theorem expand_terminates (bindings : Bindings) (text : String) :
    (WellFounded fun later earlier : Walk => step bindings earlier = .more later) ∧
      (∃ last, Reachable bindings text last ∧
        step bindings last = .done (bindings.expand text)) ∧
      ∀ walk, Reachable bindings text walk →
        (∀ reference, reference ∈ walk.active ↔ some reference ∈ walk.frames.map Frame.origin) ∧
        walk.active.Nodup ∧ (walk.frames.map Frame.origin).Nodup ∧ walk.frames ≠ [] ∧
        walk.frames.length ≤ 1 + bindings.macros.size + bindings.conditional.size := by
  refine ⟨step_wellFounded bindings, exists_last _ .start, ?_⟩
  intro walk reached
  have disciplined := reached.disciplined
  exact ⟨disciplined.mem_active_iff, disciplined.distinct, disciplined.origins_nodup,
    disciplined.frames_ne_nil, disciplined.length_frames_le⟩

end DryMake.Expansion
