import TimingAudit.Failure

/-!
# Byte sinks

Where bytes go: something that takes a run of bytes whole or refuses it. A bounded writer takes a
fixed number of bytes in all. It takes the part of a run that still fits and is full from then on.
-/

namespace TimingAudit

/-- A run of bytes. -/
abbrev Bytes := List UInt8

/-- The UTF-8 bytes of a text. -/
def utf8 (s : String) : Bytes := s.toUTF8.data.toList

/-- A state that takes runs of bytes or refuses them. -/
class ByteSink (ω : Type) where
  /-- Offers a run of bytes. -/
  push : Bytes → StateM ω (Except WriteError Unit)

/-- A sink that never refuses anything: it keeps all bytes, in order. -/
instance : ByteSink (Array UInt8) where
  push bytes := fun received => (.ok (), received ++ bytes)

/-- A sink with room for a limited number of bytes. -/
structure BoundedWriter where
  room : Nat
  received : Array UInt8
deriving DecidableEq

namespace BoundedWriter

/-- A bounded writer that has received nothing yet. -/
def withRoom (room : Nat) : BoundedWriter := ⟨room, #[]⟩

/-- Takes what fits, and refuses if that is not all. -/
def push (w : BoundedWriter) (bytes : Bytes) : Except WriteError Unit × BoundedWriter :=
  if bytes.length ≤ w.room then
    (.ok (), ⟨w.room - bytes.length, w.received ++ bytes⟩)
  else (.error .writerFull, ⟨0, w.received ++ bytes.take w.room⟩)

instance : ByteSink BoundedWriter where
  push bytes := fun w => w.push bytes

end BoundedWriter

end TimingAudit
