/-!
# Writers and sinks

Where written bytes go. A writer takes bytes in, or fails and gives a reason. A sink
is a store of bytes with room for any number of them or only for so many: a write
that does not fit stores the bytes for which there is room, and fails.
-/

namespace OberonModules

class Writer (ω : Type) where
  /-- Takes bytes in, and gives the reason if it fails. What a write that fails leaves behind is up
  to the writer. -/
  write : ω → ByteArray → ω × Option String

/-- Writes one piece after another, up to the first that fails. Gives the reason of that one. -/
def Writer.writeAll {ω : Type} [Writer ω] (writer : ω) : List ByteArray → ω × Option String
  | [] => (writer, none)
  | piece :: rest =>
    match Writer.write writer piece with
    | (writer, none) => writeAll writer rest
    | (writer, some reason) => (writer, some reason)

structure Sink where
  stored : ByteArray
  /-- Bytes the sink can hold in all; none if there is no bound. -/
  capacity : Option Nat

namespace Sink

def empty (capacity : Option Nat) : Sink :=
  ⟨.empty, capacity⟩

def failure : String := "limit reached"

/-- Stores the bytes for which there is room, and fails if that was not all of them. -/
def write (sink : Sink) (bytes : ByteArray) : Sink × Option String :=
  match sink.capacity with
  | none => ({ sink with stored := sink.stored ++ bytes }, none)
  | some capacity =>
    let room := capacity - sink.stored.size
    if bytes.size ≤ room then
      ({ sink with stored := sink.stored ++ bytes }, none)
    else
      ({ sink with stored := sink.stored ++ bytes.extract 0 room }, some failure)

instance : Writer Sink := ⟨write⟩

end Sink

end OberonModules
