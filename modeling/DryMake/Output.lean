/-!
Writing a text to a sink, which may take less at a time than it is offered and may fail. What is
left is offered again until the sink has taken everything, and then the sink is flushed. A reader
that has gone away is no failure: the rest is not written, and the sink is flushed all the same.
-/

namespace DryMake

inductive SinkFault where
  | brokenPipe
  | tookNothing
  | other (message : String)
deriving DecidableEq, Repr

def SinkFault.message : SinkFault → String
  | brokenPipe => "broken pipe"
  | tookNothing => "failed to write whole buffer"
  | other message => message

/-- Something that bytes are written to. A write tells how many of the bytes offered it took. -/
structure Sink (State : Type) where
  write : State → List UInt8 → State × Except SinkFault Nat
  flush : State → State × Except SinkFault Unit

inductive OutputStage where
  | writing
  | flushing
deriving DecidableEq, Repr

structure OutputError where
  stage : OutputStage
  fault : SinkFault
deriving DecidableEq, Repr

def OutputError.chain (failure : OutputError) : List String :=
  let stage := match failure.stage with
    | .writing => "write output"
    | .flushing => "flush output"
  [stage, failure.fault.message]

namespace Sink

variable {State : Type}

/-- Offers bytes until the sink has taken all of them or fails. -/
def writeAll (sink : Sink State) (state : State) (bytes : List UInt8) :
    State × Except SinkFault Unit :=
  if _rest : bytes = [] then (state, .ok ())
  else
    match sink.write state bytes with
    | (state, .error fault) => (state, .error fault)
    | (state, .ok 0) => (state, .error .tookNothing)
    | (state, .ok (taken + 1)) => sink.writeAll state (bytes.drop (taken + 1))
termination_by bytes.length
decreasing_by
  have positive := List.length_pos_iff.mpr _rest
  simp only [List.length_drop]
  omega

def forgive (result : Except SinkFault Unit) : Except SinkFault Unit :=
  match result with
  | .error .brokenPipe => .ok ()
  | _ => result

def writeText (sink : Sink State) (state : State) (text : String) :
    State × Except OutputError Unit :=
  match sink.writeAll state text.toUTF8.toList with
  | (state, written) =>
      match forgive written with
      | .error fault => (state, .error ⟨.writing, fault⟩)
      | .ok () =>
          match sink.flush state with
          | (state, flushed) =>
              match forgive flushed with
              | .error fault => (state, .error ⟨.flushing, fault⟩)
              | .ok () => (state, .ok ())

end Sink

end DryMake
