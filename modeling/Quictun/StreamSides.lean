import Quictun.Stream

/-!
# The two sides of a stream under its operations

No operation opens the write side again, once the FIN has been written or a reset
sent, and a FIN that is known stays where it is behind the unread bytes. The write
side is closed only after one of the two, as long as the connection is up.
-/

namespace Quictun

def QuictunStream.sendOpen (s : QuictunStream) : Bool := !s.finBuffered && !s.rstSent

namespace QuictunStream

variable {s : QuictunStream}

/-- The write side is not opened again, and a FIN that is still known is where it was. -/
structure Tame (s s' : QuictunStream) : Prop where
  opens : s'.sendOpen = true → s.sendOpen = true
  stopped : s'.readingStopped = s.readingStopped
  fin : s'.fin = true → s.fin = true ∧ s'.readable = s.readable

variable (s : QuictunStream)

theorem tame_reset : Tame s s.reset.1 := by
  constructor <;> grind [reset, closeReadSide, maybeSendRstStream, closeWriteSide, sendOpen]

theorem tame_onStreamReset (error : Bool) : Tame s (s.onStreamReset error).1 := by
  constructor <;> grind [onStreamReset, closeReadSide, sendOpen]

theorem tame_onStopSending (error : Bool) : Tame s (s.onStopSending error).1 := by
  constructor <;> grind [onStopSending, maybeSendRstStream, closeWriteSide, sendOpen]

theorem tame_onCanWrite (k : Nat) (finTaken : Bool) : Tame s (s.onCanWrite k finTaken).1 := by
  constructor <;> grind [onCanWrite, writeBufferedData, closeWriteSide, sendOpen]

theorem tame_onAck (k : Nat) (fin : Bool) : Tame s (s.onAck k fin) := ⟨id, rfl, fun h => ⟨h, rfl⟩⟩

theorem tame_writeToStream (data : Bytes) (fin : Bool) (k : Nat) (finTaken : Bool) :
    Tame s (s.writeToStream data fin k finTaken).1 := by
  constructor <;> grind [writeToStream, writeBufferedData, closeWriteSide, sendOpen]

theorem read_stopped (n : Nat) : (s.read n).2.2.1.readingStopped = s.readingStopped := by
  grind [QuictunStream.read, closeReadSide]

theorem read_fin (n : Nat) (h : (s.read n).2.2.1.fin = true) :
    s.fin = true ∧ (s.read n).1 ++ (s.read n).2.2.1.readable = s.readable := by
  have := List.take_append_drop n s.readable
  grind [QuictunStream.read, closeReadSide]

theorem read_ended (n : Nat) (h : (s.read n).2.1 = true) :
    (s.read n).2.2.1.fin = true ∧ (s.read n).2.2.1.readable = [] := by
  grind [QuictunStream.read, closeReadSide]

theorem reset_closes : s.reset.1.sendOpen = false := by
  grind [reset, maybeSendRstStream, closeWriteSide, sendOpen]

/-! ## How the write side closes -/

/-- The write side is not opened again, and is closed only behind the FIN or a reset. -/
structure Onward (s s' : QuictunStream) : Prop where
  opens : s'.sendOpen = true → s.sendOpen = true
  shut : s'.writeSideClosed = true → s.writeSideClosed = true ∨ s'.sendOpen = false

theorem Onward.refl : Onward s s := ⟨id, .inl⟩

theorem onward_read (n : Nat) : Onward s (s.read n).2.2.1 := by
  constructor <;> grind [QuictunStream.read, closeReadSide, sendOpen]

theorem onward_stopReading (b : Bool) : Onward s (s.stopReading b).1 := by
  constructor <;> grind [stopReading, closeReadSide, sendOpen]

theorem onward_reset : Onward s s.reset.1 := by
  constructor <;> grind [reset, closeReadSide, maybeSendRstStream, closeWriteSide, sendOpen]

theorem onward_writeToStream (data : Bytes) (fin : Bool) (k : Nat) (finTaken : Bool) :
    Onward s (s.writeToStream data fin k finTaken).1 := by
  constructor <;> grind [writeToStream, writeBufferedData, closeWriteSide, sendOpen]

theorem onward_onStreamFrame (bs : Bytes) (fin : Bool) : Onward s (s.onStreamFrame bs fin).1 := by
  constructor <;> grind [onStreamFrame, closeReadSide, sendOpen]

theorem onward_onStreamReset (error : Bool) : Onward s (s.onStreamReset error).1 := by
  constructor <;> grind [onStreamReset, closeReadSide, sendOpen]

theorem onward_onStopSending (error : Bool) : Onward s (s.onStopSending error).1 := by
  constructor <;> grind [onStopSending, maybeSendRstStream, closeWriteSide, sendOpen]

theorem onward_onCanWrite (k : Nat) (finTaken : Bool) : Onward s (s.onCanWrite k finTaken).1 := by
  constructor <;> grind [onCanWrite, writeBufferedData, closeWriteSide, sendOpen]

theorem writeToStream_fin (data : Bytes) (k : Nat) (finTaken : Bool)
    (h : (s.writeToStream data true k finTaken).1.sendOpen = true) : s.writeSideClosed = true := by
  grind [writeToStream, writeBufferedData, closeWriteSide, sendOpen]

end QuictunStream

end Quictun
