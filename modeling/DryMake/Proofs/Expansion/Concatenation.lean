import DryMake.Proofs.Expansion.Grammar
import DryMake.Proofs.Expansion.Termination

/-!
The expansion of two texts, one put after the other. The text that was given stands at the bottom of
the stack, and only the frame there can tell whether the text is alone or a part of a longer one. So
the walk on a part is the walk on the whole, but for what is below that frame's output and behind its
rest, and a part that is read to its end leaves nothing for the next one to trip over.
-/

namespace DryMake

def ExpansionError.toldOf (text : String) : ExpansionError → ExpansionError
  | .strayDollar found _ => .strayDollar found text
  | .unterminated _ => .unterminated text
  | .recursive name => .recursive name

/-- The failure of a part, as a failure of the whole. Only what was met in the part itself is told of
the whole; what was met in a value is told of the value. -/
def ExpansionError.inWhole (whole : String) (place? : Option Expansion.Reference)
    (failure : ExpansionError) : ExpansionError :=
  match place? with
  | none => failure.toldOf whole
  | some _ => failure

namespace Expansion

private theorem scan_append_of_token {text rest : List Char} {first : Token}
    (scanned : scan text = .token first rest) (after : List Char) :
    scan (text ++ after) = .token first (rest ++ after) := by
  rw [lexeme_append_of_scan scanned, List.append_assoc]
  exact scan_lexeme_append (isWellFormed_of_scan scanned) (rest ++ after)

private theorem scan_append_of_stray {text : List Char} {found : Char}
    (scanned : scan text = .stray found) (after : List Char) :
    scan (text ++ after) = .stray found := by
  obtain ⟨rest, rfl, notOpen, notDollar⟩ := (scan_eq_stray_iff text found).mp scanned
  exact (scan_eq_stray_iff _ found).mpr ⟨rest ++ after, rfl, notOpen, notDollar⟩

/-- The frame of a text that is a part of another one: `before` is the expansion of what stands
before the part, and `after` is what stands behind it. -/
def Frame.embed (whole before : String) (after : List Char) (frame : Frame) : Frame where
  text := whole
  origin := frame.origin
  rest := frame.rest ++ after
  output := before ++ frame.output

def onBottom (change : Frame → Frame) : List Frame → List Frame
  | [] => []
  | [bottom] => [change bottom]
  | top :: next :: below => top :: onBottom change (next :: below)

def Walk.embed (whole before : String) (after : List Char) (walk : Walk) : Walk :=
  { walk with frames := onBottom (.embed whole before after) walk.frames }

section

variable {bindings : Bindings} {text whole before : String} {after : List Char}

/-- A step that goes on does not depend on what stands around the text at the bottom. -/
theorem step_embed {walk later : Walk} (stepped : step bindings walk = .more later) :
    step bindings (walk.embed whole before after) = .more (later.embed whole before after) := by
  cases move_of_step stepped with
  | @handBack frame parent below active finished =>
      cases below with
      | nil =>
          simp only [Walk.embed, onBottom, Frame.embed, step, finished, String.append_assoc]
      | cons next others => simp only [Walk.embed, onBottom, step, finished]
  | @read frame below active first rest text scanned replaced =>
      cases below with
      | nil =>
          simp only [Walk.embed, onBottom, Frame.embed, step, scan_append_of_token scanned after,
            replaced, String.append_assoc]
      | cons next others => simp only [Walk.embed, onBottom, step, scanned, replaced]
  | @openValue frame below active first rest reference value scanned replaced =>
      cases below with
      | nil =>
          simp only [Walk.embed, onBottom, Frame.embed, step, scan_append_of_token scanned after,
            replaced]
      | cons next others => simp only [Walk.embed, onBottom, step, scanned, replaced]

private theorem Reachable.embed {outer : String} {walk : Walk}
    (begun : Reachable bindings outer ((Walk.start text).embed whole before after))
    (reached : Reachable bindings text walk) :
    Reachable bindings outer (walk.embed whole before after) := by
  induction reached with
  | start => exact begun
  | step _ stepped inductionHypothesis => exact inductionHypothesis.step (step_embed stepped)

end

/-- The expansion of the text fails while the value of a reference is being read or, if there is no
such reference, the text itself. -/
def Bindings.FailsIn (bindings : Bindings) (text : String) (place? : Option Reference)
    (failure : ExpansionError) : Prop :=
  ∃ frame below active, Reachable bindings text ⟨frame :: below, active⟩ ∧
    frame.origin = place? ∧ step bindings ⟨frame :: below, active⟩ = .done (.error failure)

section

variable {bindings : Bindings} {text : String}

private theorem run_of_reachable {walk : Walk} (reached : Reachable bindings text walk) :
    run bindings walk = bindings.expand text := by
  induction reached with
  | start => rfl
  | step _ stepped inductionHypothesis =>
      rw [← inductionHypothesis, run_of_step_more stepped]

private theorem expand_eq_error_iff (bindings : Bindings) (text : String)
    (failure : ExpansionError) :
    bindings.expand text = .error failure ↔ ∃ place?, bindings.FailsIn text place? failure := by
  constructor
  · intro failed
    obtain ⟨last, reached, stepped⟩ := exists_last (.start text) (@Reachable.start bindings text)
    obtain ⟨frames, active⟩ := last
    cases frames with
    | nil => exact absurd rfl reached.disciplined.frames_ne_nil
    | cons frame below =>
        refine ⟨frame.origin, frame, below, active, reached, rfl, ?_⟩
        rw [stepped, run_of_reachable .start, failed]
  · rintro ⟨place?, frame, below, active, reached, -, stepped⟩
    rw [← run_of_reachable reached, run_of_step_done stepped]

theorem of_step_eq_ok {walk : Walk} {output : String} (nonempty : walk.frames ≠ [])
    (stepped : step bindings walk = .done (.ok output)) :
    ∃ frame, walk.frames = [frame] ∧ frame.rest = [] ∧ frame.output = output := by
  obtain ⟨frames, active⟩ := walk
  unfold step at stepped
  simp only at stepped
  split at stepped
  · exact absurd rfl nonempty
  · rename_i frame below
    split at stepped
    · rename_i finished
      split at stepped
      · cases stepped
        exact ⟨frame, rfl, eq_nil_of_scan_eq_finished finished, rfl⟩
      · cases stepped
    · cases stepped
    · cases stepped
    · split at stepped <;> cases stepped

theorem exists_reachable_of_expand_eq_ok {output : String}
    (expanded : bindings.expand text = .ok output) :
    ∃ input, Reachable bindings text ⟨[⟨input, none, [], output⟩], []⟩ := by
  obtain ⟨last, reached, stepped⟩ := exists_last (.start text) (@Reachable.start bindings text)
  rw [run_of_reachable .start, expanded] at stepped
  have disciplined := reached.disciplined
  obtain ⟨frame, alone, atEnd, sameOutput⟩ := of_step_eq_ok disciplined.frames_ne_nil stepped
  have origins := disciplined.origins
  obtain ⟨frames, active⟩ := last
  obtain ⟨input, origin, rest, soFar⟩ := frame
  subst alone atEnd sameOutput
  cases active with
  | nil =>
      cases origins
      exact ⟨input, reached⟩
  | cons reference others => simp at origins

theorem Reachable.below_eq_nil_iff {frame : Frame} {below : List Frame} {active : List Reference}
    (reached : Reachable bindings text ⟨frame :: below, active⟩) :
    below = [] ↔ frame.origin = none := by
  have origins := reached.disciplined.origins
  cases active with
  | nil =>
      obtain ⟨isNone, none⟩ := List.cons.inj origins
      simp [isNone, List.map_eq_nil_iff.mp none]
  | cons reference others =>
      obtain ⟨isSome, some⟩ := List.cons.inj origins
      have nonempty : below ≠ [] := by
        rintro rfl
        simp at some
      simp [isSome, nonempty]

/-- What ends a walk in failure: what stands at the start of the innermost text, or a token of it that
cannot be replaced. -/
inductive StopsWith (bindings : Bindings) (active : List Reference) (frame : Frame) :
    ExpansionError → Prop where
  | stray {found : Char} (scanned : scan frame.rest = .stray found) :
      StopsWith bindings active frame (.strayDollar found frame.text)
  | unterminated (scanned : scan frame.rest = .unterminated) :
      StopsWith bindings active frame (.unterminated frame.text)
  | recursive {first : Token} {rest : List Char} {name : String}
      (scanned : scan frame.rest = .token first rest)
      (replaced : bindings.replace active first = .recursive name) :
      StopsWith bindings active frame (.recursive name)

private theorem step_eq_error_iff {frame : Frame} {below : List Frame} {active : List Reference}
    {failure : ExpansionError} :
    step bindings ⟨frame :: below, active⟩ = .done (.error failure) ↔
      StopsWith bindings active frame failure := by
  constructor
  · intro stepped
    unfold step at stepped
    simp only at stepped
    split at stepped
    · split at stepped <;> cases stepped
    · rename_i scanned
      cases stepped
      exact .stray scanned
    · rename_i scanned
      cases stepped
      exact .unterminated scanned
    · rename_i scanned
      split at stepped
      · cases stepped
      · rename_i replaced
        cases stepped
        exact .recursive scanned replaced
      · cases stepped
  · intro stops
    cases stops with
    | stray scanned => simp only [step, scanned]
    | unterminated scanned => simp only [step, scanned]
    | recursive scanned replaced => simp only [step, scanned, replaced]

/-- A walk that fails does so within a longer text too, unless the text ends in the middle of a token
and more text comes. -/
theorem step_embed_of_error {frame : Frame} {below : List Frame} {active : List Reference}
    {failure : ExpansionError} (isBottom : below = [] ↔ frame.origin = none)
    (stepped : step bindings ⟨frame :: below, active⟩ = .done (.error failure))
    (whole before : String) {after : List Char}
    (lasting : after = [] ∨ ∀ input, failure = .unterminated input → frame.origin ≠ none) :
    step bindings (Walk.embed whole before after ⟨frame :: below, active⟩) =
      .done (.error (failure.inWhole whole frame.origin)) := by
  have stops := step_eq_error_iff.mp stepped
  cases below with
  | cons next others =>
      obtain ⟨reference, isValue⟩ := Option.ne_none_iff_exists'.mp (mt isBottom.mpr nofun)
      rw [isValue]
      exact step_eq_error_iff.mpr stops
  | nil =>
      rw [isBottom.mp rfl] at lasting ⊢
      apply step_eq_error_iff.mpr
      cases stops with
      | stray scanned => exact .stray (scan_append_of_stray scanned after)
      | unterminated scanned =>
          rcases lasting with rfl | lasting
          · have scannedToo : scan (frame.rest ++ []) = .unterminated := by
              rwa [List.append_nil]
            exact .unterminated scannedToo
          · exact absurd rfl (lasting frame.text rfl)
      | recursive scanned replaced =>
          exact .recursive (scan_append_of_token scanned after) replaced

end

/-- If a text expands, the expansion of a text behind it is put behind its own, and a failure of that
text is one of both together. If a text fails, no text behind it changes that, unless the first one
ends in the middle of a token. The failure stays the same, but that what was met in one of the two
texts, and not in the value of a macro, is told of both together. -/
theorem expand_append (bindings : Bindings) (first second : String) :
    (∀ text failure, bindings.expand text = .error failure ↔
      ∃ place?, bindings.FailsIn text place? failure) ∧
    (∀ output, bindings.expand first = .ok output →
      (∀ further, bindings.expand second = .ok further →
        bindings.expand (first ++ second) = .ok (output ++ further)) ∧
      ∀ place? failure, bindings.FailsIn second place? failure →
        bindings.expand (first ++ second) =
          .error (failure.inWhole (first ++ second) place?)) ∧
    ∀ place? failure, bindings.FailsIn first place? failure →
      (∀ input, failure = .unterminated input → place? ≠ none) →
      bindings.expand (first ++ second) = .error (failure.inWhole (first ++ second) place?) := by
  have onFirst : (Walk.start first).embed (first ++ second) "" second.toList =
      .start (first ++ second) := by
    simp [Walk.embed, Walk.start, onBottom, Frame.embed, Frame.start]
  have begun : Reachable bindings (first ++ second)
      ((Walk.start first).embed (first ++ second) "" second.toList) := onFirst ▸ .start
  refine ⟨expand_eq_error_iff bindings, ?_, ?_⟩
  · intro output expanded
    obtain ⟨input, reached⟩ := exists_reachable_of_expand_eq_ok expanded
    have middle : Reachable bindings (first ++ second)
        ((Walk.start second).embed (first ++ second) output []) := by
      have embedded := begun.embed reached
      simpa [Walk.embed, Walk.start, onBottom, Frame.embed, Frame.start] using embedded
    constructor
    · intro further expandedToo
      obtain ⟨other, reachedToo⟩ := exists_reachable_of_expand_eq_ok expandedToo
      rw [← run_of_reachable (middle.embed reachedToo)]
      exact run_of_step_done rfl
    · rintro place? failure ⟨frame, below, active, reachedToo, rfl, stepped⟩
      rw [← run_of_reachable (middle.embed reachedToo)]
      exact run_of_step_done (step_embed_of_error reachedToo.below_eq_nil_iff stepped
        (first ++ second) output (Or.inl rfl))
  · rintro place? failure ⟨frame, below, active, reached, rfl, stepped⟩ lasting
    rw [← run_of_reachable (begun.embed reached)]
    exact run_of_step_done (step_embed_of_error reached.below_eq_nil_iff stepped
      (first ++ second) "" (Or.inr lasting))

/-- A text that ends in the middle of a token is mended by what stands behind it. -/
example : (Bindings.mk (MacroTable.assign .empty false "CC" "cc") .empty).expand ("$(C" ++ "C)") =
    .ok "cc" := by
  cbv

end Expansion

end DryMake
