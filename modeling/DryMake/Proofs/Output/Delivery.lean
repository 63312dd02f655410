import DryMake.Output.Bounded
import Mathlib

/-!
What a sink gets of a text, told by a record of the calls that are made to it. However short the
writes are cut, the sink takes a first part of the bytes, in their order and each of them once. A
fault ends the writing, and only the fault of a reader that has gone away is forgiven.
-/

namespace DryMake.Sink

inductive Call where
  | write (offered : List UInt8) (answer : Except SinkFault Nat)
  | flush (answer : Except SinkFault Unit)

namespace Call

def taken : Call → List UInt8
  | write offered (.ok count) => offered.take count
  | _ => []

def fault? : Call → Option SinkFault
  | write _ (.error fault) => some fault
  | flush (.error fault) => some fault
  | _ => none

def context : Call → String
  | write .. => "write output"
  | flush _ => "flush output"

end Call

def delivered (calls : List Call) : List UInt8 :=
  calls.flatMap Call.taken

private theorem delivered_append (before after : List Call) :
    delivered (before ++ after) = delivered before ++ delivered after :=
  List.flatMap_append

private theorem delivered_cons_taken (offered : List UInt8) (count : Nat) (calls : List Call) :
    delivered (.write offered (.ok count) :: calls) = offered.take count ++ delivered calls :=
  List.flatMap_cons

variable {State : Type}

def recorded (sink : Sink State) : Sink (State × List Call) where
  write := fun (state, calls) offered =>
    match sink.write state offered with
    | (later, answer) => ((later, calls ++ [.write offered answer]), answer)
  flush := fun (state, calls) =>
    match sink.flush state with
    | (later, answer) => ((later, calls ++ [.flush answer]), answer)

def calls (sink : Sink State) (state : State) (text : String) : List Call :=
  (sink.recorded.writeText (state, []) text).1.2

/-- A write that does not fail takes at least one of the bytes offered and at most all of them. -/
def IsLawful (sink : Sink State) : Prop :=
  ∀ state offered later count, offered ≠ [] → sink.write state offered = (later, .ok count) →
    0 < count ∧ count ≤ offered.length

section

variable {sink : Sink State} {state later : State} {bytes : List UInt8}

private theorem writeAll_nil (sink : Sink State) (state : State) :
    sink.writeAll state [] = (state, .ok ()) := by
  rw [writeAll, dif_pos rfl]

private theorem writeAll_of_fault {fault : SinkFault} (nonempty : bytes ≠ [])
    (answered : sink.write state bytes = (later, .error fault)) :
    sink.writeAll state bytes = (later, .error fault) := by
  rw [writeAll, dif_neg nonempty, answered]

private theorem writeAll_of_taken {count : Nat} (nonempty : bytes ≠ [])
    (answered : sink.write state bytes = (later, .ok (count + 1))) :
    sink.writeAll state bytes = sink.writeAll later (bytes.drop (count + 1)) := by
  rw [writeAll, dif_neg nonempty, answered]

end

/-- The calls that offer bytes, each of them what is left by those before it, until nothing is left
or one fails. -/
inductive Writes : List UInt8 → List Call → Except SinkFault Unit → Prop
  | nothing : Writes [] [] (.ok ())
  | failed {bytes : List UInt8} (fault : SinkFault) (nonempty : bytes ≠ []) :
      Writes bytes [.write bytes (.error fault)] (.error fault)
  | more {bytes : List UInt8} {count : Nat} {calls : List Call} {result : Except SinkFault Unit}
      (rest : Writes (bytes.drop count) calls result) :
      Writes bytes (.write bytes (.ok count) :: calls) result

/-- Keeping a record changes nothing, and what is recorded of the writes are calls of this kind. -/
theorem exists_writes {sink : Sink State} (lawful : sink.IsLawful) (state : State)
    (before : List Call) (bytes : List UInt8) :
    ∃ made, Writes bytes made (sink.writeAll state bytes).2 ∧
      sink.recorded.writeAll (state, before) bytes =
        (((sink.writeAll state bytes).1, before ++ made), (sink.writeAll state bytes).2) := by
  fun_induction sink.writeAll state bytes generalizing before with
  | case1 state =>
      refine ⟨[], .nothing, ?_⟩
      rw [writeAll_nil, List.append_nil]
  | case2 state bytes nonempty later fault answered =>
      refine ⟨[.write bytes (.error fault)], .failed fault nonempty, ?_⟩
      apply writeAll_of_fault nonempty
      simp only [recorded, answered]
  | case3 state bytes nonempty later answered =>
      have impossible := (lawful state bytes later 0 nonempty answered).1
      omega
  | case4 state bytes nonempty later taken answered inductionHypothesis =>
      obtain ⟨made, writes, same⟩ :=
        inductionHypothesis (before ++ [.write bytes (.ok (taken + 1))])
      refine ⟨.write bytes (.ok (taken + 1)) :: made, .more writes, ?_⟩
      rw [List.append_assoc, List.singleton_append] at same
      rw [← same]
      apply writeAll_of_taken nonempty
      simp only [recorded, answered]

namespace Writes

variable {bytes : List UInt8} {calls : List Call} {result : Except SinkFault Unit}

private theorem flush_notMem (writes : Writes bytes calls result) (answer : Except SinkFault Unit) :
    .flush answer ∉ calls := by
  induction writes with
  | nothing => exact List.not_mem_nil
  | failed fault nonempty => simp
  | more rest inductionHypothesis => simpa using inductionHypothesis

theorem of_ok (writes : Writes bytes calls (.ok ())) :
    delivered calls = bytes ∧ ∀ call ∈ calls, call.fault? = none := by
  generalize isOk : (.ok () : Except SinkFault Unit) = result at writes
  induction writes with
  | nothing => exact ⟨rfl, by simp⟩
  | failed fault nonempty => cases isOk
  | @more bytes count calls result rest inductionHypothesis =>
      obtain ⟨delivers, faultless⟩ := inductionHypothesis isOk
      constructor
      · rw [delivered_cons_taken, delivers, List.take_append_drop]
      · rw [List.forall_mem_cons]
        exact ⟨rfl, faultless⟩

/-- Only the last call fails, and it offered what was not delivered, which is something. -/
theorem of_error {fault : SinkFault} (writes : Writes bytes calls (.error fault)) :
    ∃ before offered, calls = before ++ [.write offered (.error fault)] ∧ offered ≠ [] ∧
      delivered before ++ offered = bytes ∧ ∀ call ∈ before, call.fault? = none := by
  generalize isError : (.error fault : Except SinkFault Unit) = result at writes
  induction writes with
  | nothing => cases isError
  | @failed bytes fault nonempty =>
      cases isError
      exact ⟨[], bytes, rfl, nonempty, rfl, by simp⟩
  | @more bytes count calls result rest inductionHypothesis =>
      obtain ⟨before, offered, rfl, nonempty, delivers, faultless⟩ := inductionHypothesis isError
      refine ⟨.write bytes (.ok count) :: before, offered, rfl, nonempty, ?_, ?_⟩
      · rw [delivered_cons_taken, List.append_assoc, delivers, List.take_append_drop]
      · rw [List.forall_mem_cons]
        exact ⟨rfl, faultless⟩

private theorem ordered (writes : Writes bytes calls result) : delivered calls <+: bytes := by
  cases result with
  | ok => exact writes.of_ok.1 ▸ List.prefix_rfl
  | error fault =>
      obtain ⟨before, offered, rfl, _, delivers, _⟩ := writes.of_error
      rw [delivered_append, ← delivers]
      exact (List.prefix_append_right_inj _).mpr List.nil_prefix

private theorem delivered_ne {fault : SinkFault} (writes : Writes bytes calls (.error fault)) :
    delivered calls ≠ bytes := by
  obtain ⟨before, offered, rfl, nonempty, delivers, _⟩ := writes.of_error
  intro whole
  rw [delivered_append, ← delivers, List.append_cancel_left_eq] at whole
  exact nonempty whole.symm

private theorem result_of_fault {call : Call} {fault : SinkFault}
    (writes : Writes bytes calls result) (member : call ∈ calls)
    (failed : call.fault? = some fault) :
    result = .error fault := by
  cases result with
  | ok =>
      rw [writes.of_ok.2 call member] at failed
      cases failed
  | error fault =>
      obtain ⟨before, offered, rfl, _, _, faultless⟩ := writes.of_error
      rcases List.mem_append.mp member with earlier | isLast
      · rw [faultless call earlier] at failed
        cases failed
      · rw [List.mem_singleton.mp isLast] at failed
        cases failed
        rfl

end Writes

/-! ### Faults that are forgiven -/

private theorem forgive_eq_ok_iff (result : Except SinkFault Unit) :
    forgive result = .ok () ↔ result = .ok () ∨ result = .error .brokenPipe := by
  unfold forgive
  split
  · simp
  · rename_i unbroken
    constructor
    · exact Or.inl
    · rintro (isOk | isBroken)
      · exact isOk
      · exact absurd isBroken unbroken

private theorem forgive_of_serious {fault : SinkFault} (serious : fault ≠ .brokenPipe) :
    forgive (.error fault) = .error fault := by
  unfold forgive
  split
  · rename_i isBroken
    cases isBroken
    exact absurd rfl serious
  · rfl

private theorem forgiven_or_serious (result : Except SinkFault Unit) :
    forgive result = .ok () ∨ ∃ fault, result = .error fault ∧ fault ≠ .brokenPipe := by
  rw [forgive_eq_ok_iff]
  cases result with
  | ok => exact Or.inl (Or.inl rfl)
  | error fault =>
      by_cases broken : fault = .brokenPipe
      · exact Or.inl (Or.inr (congrArg Except.error broken))
      · exact Or.inr ⟨fault, rfl, broken⟩

namespace Writes

variable {bytes : List UInt8} {calls : List Call} {result : Except SinkFault Unit}

private theorem all_or_broken (writes : Writes bytes calls result)
    (forgiven : forgive result = .ok ()) :
    delivered calls = bytes ∨ ∃ offered, .write offered (.error .brokenPipe) ∈ calls := by
  rcases (forgive_eq_ok_iff result).mp forgiven with rfl | rfl
  · exact Or.inl writes.of_ok.1
  · obtain ⟨before, offered, rfl, _⟩ := writes.of_error
    exact Or.inr ⟨offered, List.mem_append_right _ List.mem_cons_self⟩

private theorem fault?_of_forgiven (writes : Writes bytes calls result)
    (forgiven : forgive result = .ok ()) {call : Call} (member : call ∈ calls) :
    call.fault? = none ∨ call.fault? = some .brokenPipe := by
  cases failed : call.fault? with
  | none => exact Or.inl rfl
  | some fault =>
      rw [writes.result_of_fault member failed, forgive_eq_ok_iff] at forgiven
      cases forgiven.resolve_left nofun
      exact Or.inr rfl

end Writes

section

variable {sink : Sink State} {state later last : State} {text : String}
  {written answer : Except SinkFault Unit} {fault : SinkFault}

private theorem writeText_of_unwritten
    (wrote : sink.writeAll state text.toUTF8.toList = (later, .error fault))
    (serious : fault ≠ .brokenPipe) :
    sink.writeText state text = (later, .error ⟨.writing, fault⟩) := by
  simp only [writeText, wrote, forgive_of_serious serious]

private theorem writeText_of_flushed
    (wrote : sink.writeAll state text.toUTF8.toList = (later, written))
    (forgiven : forgive written = .ok ()) (flushed : sink.flush later = (last, answer)) :
    sink.writeText state text = (last, (forgive answer).mapError (.mk .flushing)) := by
  simp only [writeText, wrote, forgiven, flushed]
  cases forgive answer <;> rfl

end

/-- What the calls that are made for some bytes, and the result, have to do with each other. -/
structure Delivery (bytes : List UInt8) (calls : List Call) (result : Except OutputError Unit) :
    Prop where
  /-- No byte is left out before another, changed, moved or delivered twice. -/
  ordered : delivered calls <+: bytes
  flushes_iff : (∃ answer, .flush answer ∈ calls) ↔
    delivered calls = bytes ∨ ∃ offered, .write offered (.error .brokenPipe) ∈ calls
  /-- The sink is flushed once at most, and nothing is done after that. -/
  flushesLast : ∀ answer, .flush answer ∉ calls.dropLast
  succeeds_iff : result = .ok () ↔ .flush (.ok ()) ∈ calls ∨ .flush (.error .brokenPipe) ∈ calls
  complete : result = .ok () → (∀ offered fault, .write offered (.error fault) ∉ calls) →
    delivered calls = bytes
  /-- The failure reported is the first that is not forgiven, and nothing is done after it. -/
  reported : ∀ failure, result = .error failure → ∃ before last,
    calls = before ++ [last] ∧ last.fault? = some failure.fault ∧ failure.fault ≠ .brokenPipe ∧
      (∀ call ∈ before, call.fault? = none ∨ call.fault? = some .brokenPipe) ∧
      failure.chain = [last.context, failure.fault.message]

theorem Writes.delivery_flushed {bytes : List UInt8} {made : List Call}
    {written : Except SinkFault Unit} (writes : Writes bytes made written)
    (forgiven : forgive written = .ok ()) (answer : Except SinkFault Unit) :
    Delivery bytes (made ++ [.flush answer]) ((forgive answer).mapError (.mk .flushing)) := by
  have whole : delivered (made ++ [.flush answer]) = delivered made := by
    rw [delivered_append]
    exact List.append_nil _
  have flush_mem_iff : ∀ other, .flush other ∈ made ++ [.flush answer] ↔ answer = other := by
    simp [writes.flush_notMem, eq_comm]
  constructor
  · rw [whole]
    exact writes.ordered
  · refine ⟨fun _ => ?_, fun _ => ⟨answer, (flush_mem_iff answer).mpr rfl⟩⟩
    rw [whole]
    exact (writes.all_or_broken forgiven).imp_right fun ⟨offered, member⟩ =>
      ⟨offered, List.mem_append_left _ member⟩
  · rw [List.dropLast_concat]
    exact writes.flush_notMem
  · rw [flush_mem_iff, flush_mem_iff, ← forgive_eq_ok_iff]
    cases forgive answer <;> simp [Except.mapError]
  · intro _ unfailing
    rw [whole]
    exact (writes.all_or_broken forgiven).resolve_right fun ⟨offered, member⟩ =>
      unfailing offered .brokenPipe (List.mem_append_left _ member)
  · intro failure failed
    rcases forgiven_or_serious answer with forgivenToo | ⟨fault, rfl, serious⟩
    · rw [forgivenToo] at failed
      cases failed
    · rw [forgive_of_serious serious] at failed
      cases failed
      exact ⟨made, .flush (.error fault), rfl, rfl, serious,
        fun call member => writes.fault?_of_forgiven forgiven member, rfl⟩

theorem Writes.delivery_unwritten {bytes : List UInt8} {made : List Call} {fault : SinkFault}
    (writes : Writes bytes made (.error fault)) (serious : fault ≠ .brokenPipe) :
    Delivery bytes made (.error ⟨.writing, fault⟩) := by
  constructor
  · exact writes.ordered
  · constructor
    · rintro ⟨answer, member⟩
      exact absurd member (writes.flush_notMem answer)
    · rintro (whole | ⟨offered, member⟩)
      · exact absurd whole writes.delivered_ne
      · cases writes.result_of_fault member rfl
        exact absurd rfl serious
  · intro answer member
    exact writes.flush_notMem answer ((List.dropLast_sublist made).subset member)
  · simp [writes.flush_notMem]
  · nofun
  · intro failure failed
    cases failed
    obtain ⟨before, offered, rfl, _, _, faultless⟩ := writes.of_error
    exact ⟨before, .write offered (.error fault), rfl, rfl, serious,
      fun call member => Or.inl (faultless call member), rfl⟩

/-- A text is written to any sink without corruption, and only the fault of a reader that has gone
away is forgiven. Keeping the record of the calls changes neither the sink nor the result. -/
theorem writeText_delivers {sink : Sink State} (lawful : sink.IsLawful) (state : State)
    (text : String) :
    sink.recorded.writeText (state, []) text =
      (((sink.writeText state text).1, sink.calls state text), (sink.writeText state text).2) ∧
    Delivery text.toUTF8.toList (sink.calls state text) (sink.writeText state text).2 := by
  obtain ⟨made, writes, wroteToo⟩ := exists_writes lawful state [] text.toUTF8.toList
  obtain ⟨⟨later, written⟩, wrote⟩ : ∃ wrote, sink.writeAll state text.toUTF8.toList = wrote :=
    ⟨_, rfl⟩
  rw [List.nil_append, wrote] at wroteToo
  rw [wrote] at writes
  rw [calls]
  rcases forgiven_or_serious written with forgiven | ⟨fault, rfl, serious⟩
  · obtain ⟨⟨last, answer⟩, flushed⟩ : ∃ flushed, sink.flush later = flushed := ⟨_, rfl⟩
    have flushedToo : sink.recorded.flush (later, made) =
        ((last, made ++ [.flush answer]), answer) := by
      simp only [recorded, flushed]
    rw [writeText_of_flushed wrote forgiven flushed,
      writeText_of_flushed wroteToo forgiven flushedToo]
    exact ⟨rfl, writes.delivery_flushed forgiven answer⟩
  · rw [writeText_of_unwritten wrote serious, writeText_of_unwritten wroteToo serious]
    exact ⟨rfl, writes.delivery_unwritten serious⟩

private theorem isLawful_bounded (full : SinkFault) (flushed : Except SinkFault Unit) :
    (BoundedSink.sink full flushed).IsLawful := by
  intro state offered later count nonempty answered
  have positive := List.length_pos_iff.mpr nonempty
  simp only [BoundedSink.sink, BoundedSink.write] at answered
  split at answered
  · cases answered
    omega
  · rename_i room _
    rw [if_neg nonempty] at answered
    split at answered
    · cases answered
    · cases answered
      omega

theorem writeText_delivers_cut_short :
    let disk := BoundedSink.sink (.other "disk full") (.ok ())
    let pipe := BoundedSink.sink .brokenPipe (.error .brokenPipe)
    let state := BoundedSink.empty (some 2)
    let bytes := [97, 9, 98]
    disk.IsLawful ∧ pipe.IsLawful ∧
      disk.calls state "a\tb" =
        [.write bytes (.ok 2), .write [98] (.error (.other "disk full"))] ∧
      Delivery bytes (disk.calls state "a\tb") (.error ⟨.writing, .other "disk full"⟩) ∧
      pipe.calls state "a\tb" =
        [.write bytes (.ok 2), .write [98] (.error .brokenPipe), .flush (.error .brokenPipe)] ∧
      Delivery bytes (pipe.calls state "a\tb") (.ok ()) := by
  intro disk pipe state bytes
  have lawful : disk.IsLawful := isLawful_bounded _ _
  have lawfulToo : pipe.IsLawful := isLawful_bounded _ _
  have isText : "a\tb".toUTF8.toList = bytes := by cbv
  have onDisk : (disk.calls state "a\tb", (disk.writeText state "a\tb").2) =
      ([.write bytes (.ok 2), .write [98] (.error (.other "disk full"))],
        .error ⟨.writing, .other "disk full"⟩) := by cbv
  have onPipe : (pipe.calls state "a\tb", (pipe.writeText state "a\tb").2) =
      ([.write bytes (.ok 2), .write [98] (.error .brokenPipe), .flush (.error .brokenPipe)],
        .ok ()) := by cbv
  obtain ⟨diskCalls, diskResult⟩ := Prod.mk.inj onDisk
  obtain ⟨pipeCalls, pipeResult⟩ := Prod.mk.inj onPipe
  have diskDelivery := (writeText_delivers lawful state "a\tb").2
  have pipeDelivery := (writeText_delivers lawfulToo state "a\tb").2
  rw [diskResult, isText] at diskDelivery
  rw [pipeResult, isText] at pipeDelivery
  exact ⟨lawful, lawfulToo, diskCalls, diskDelivery, pipeCalls, pipeDelivery⟩

end DryMake.Sink
