import Quictun.Stream

/-!
# The preamble of a stream

A client opens each stream with its key, length first, and in transparent mode with
the destination address. `examine` is what one turn of the loop of
`QuictunServerConnection::OnStreamDataAvailable` decides from all the bytes it has
read so far.
-/

namespace Quictun

structure QuicSocketAddress where
  ip : Bytes
  port : Nat
deriving DecidableEq

def fromPackedString (bs : Bytes) : Option Bytes :=
  if bs.length = 4 ∨ bs.length = 16 then some bs else none

def uint16At (buf : Bytes) (i : Nat) : Nat := (buf.getD i 0).toNat * 256 + (buf.getD (i + 1) 0).toNat

inductive ParsedTransparentHeader
  | incomplete
  | invalid
  | complete (headerLength : Nat) (destination : QuicSocketAddress)
deriving DecidableEq

def addrLen (atyp : UInt8) : Option Nat :=
  if atyp = 1 then some 4 else if atyp = 4 then some 16 else none

def parseQuictunTransparentHeader : Bytes → ParsedTransparentHeader
  | [] => .incomplete
  | atyp :: rest =>
    match addrLen atyp with
    | none => .invalid
    | some n =>
      let headerLength := 1 + n + 2
      if (atyp :: rest).length < headerLength then .incomplete
      else match fromPackedString (rest.take n) with
        | none => .invalid
        | some ip => .complete headerLength ⟨ip, uint16At (atyp :: rest) (1 + n)⟩

inductive Verdict
  | more
  | reject
  | accept (leftover : Bytes) (dest : Option QuicSocketAddress)
deriving DecidableEq

def examine (expectedPsk : Bytes) (transparent : Bool) (buf : Bytes) : Verdict :=
  if buf.length < 2 then .more
  else
    let keyLength := uint16At buf 0
    if buf.length < 2 + keyLength then .more
    else if (buf.drop 2).take keyLength ≠ expectedPsk then .reject
    else if transparent then
      match parseQuictunTransparentHeader (buf.drop (2 + keyLength)) with
      | .invalid => .reject
      | .incomplete => .more
      | .complete headerLength destination => .accept (buf.drop (2 + keyLength + headerLength)) (some destination)
    else .accept (buf.drop (2 + keyLength)) none

end Quictun
