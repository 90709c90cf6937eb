/-!
# A destination of text with limited room

A sink takes bytes until its limit is reached. A write that fits is taken whole. One that does
not fit is taken up to the limit and reported as lost, and from then on only the empty text
still fits, so what a sink has received is always a beginning of what was written to it. A
closed sink and a full one differ in the fault they report.
-/

namespace RootFinding

inductive WriteFault where
  | closed
  | full
  deriving DecidableEq, Repr

def WriteFault.message : WriteFault → String
  | .closed => "closed"
  | .full => "failed to write whole buffer"

structure Sink where
  /-- the bytes it takes in all; without a limit it takes everything -/
  limit : Option Nat
  fault : WriteFault
  received : ByteArray

namespace Sink

def unlimited : Sink := ⟨none, .closed, .empty⟩

def limited (limit : Nat) (fault : WriteFault) : Sink := ⟨some limit, fault, .empty⟩

def accepts (s : Sink) (size : Nat) : Nat :=
  match s.limit with
  | none => size
  | some limit => min size (limit - s.received.size)

def write (s : Sink) (text : String) : Option WriteFault × Sink :=
  let bytes := text.toUTF8
  let taken := s.accepts bytes.size
  if taken = bytes.size then (none, { s with received := s.received ++ bytes })
  else (some s.fault, { s with received := s.received ++ bytes.extract 0 taken })

theorem received_write (s : Sink) (text : String) :
    (s.write text).2.received =
      s.received ++ text.toUTF8.extract 0 (s.accepts text.toUTF8.size) := by
  unfold write
  dsimp only
  split
  · next h => rw [h, ByteArray.extract_zero_size]
  · rfl

theorem limit_write (s : Sink) (text : String) : (s.write text).2.limit = s.limit := by
  unfold write
  dsimp only
  split <;> rfl

theorem fault_write (s : Sink) (text : String) : (s.write text).2.fault = s.fault := by
  unfold write
  dsimp only
  split <;> rfl

end Sink

end RootFinding
