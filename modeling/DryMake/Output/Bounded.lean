import DryMake.Output

/-!
A sink with room for so many bytes. It takes what it has room for; once it is full, every write of
at least one byte fails.
-/

namespace DryMake

/-- What a bounded sink holds, and the room that is left in it, if it is bounded at all. -/
structure BoundedSink where
  held : List UInt8
  room? : Option Nat
deriving DecidableEq, Repr

namespace BoundedSink

def empty (room? : Option Nat) : BoundedSink where
  held := []
  room?

def write (full : SinkFault) (state : BoundedSink) (bytes : List UInt8) :
    BoundedSink × Except SinkFault Nat :=
  match state.room? with
  | none => ({ state with held := state.held ++ bytes }, .ok bytes.length)
  | some room =>
      if bytes = [] then (state, .ok 0)
      else if room = 0 then (state, .error full)
      else
        let taken := min room bytes.length
        (⟨state.held ++ bytes.take taken, some (room - taken)⟩, .ok taken)

/-- The bounded sink whose writes fail with `full` when it is full, and whose flush has the given
result. -/
def sink (full : SinkFault) (flushed : Except SinkFault Unit) : Sink BoundedSink where
  write := write full
  flush state := (state, flushed)

end BoundedSink

end DryMake
