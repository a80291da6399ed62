import PupaCoin.Chain.Serialize

/-!
# How messages are taken from a socket (`net.cpp`, `net.h`, `protocol.h`)

The bytes of a connection arrive in chunks that have nothing to do with the messages. A message is received in
two phases, its header into `hdrbuf` and its data into `vRecv`. A copy that leaves its buffer or its chunk, and a
loop that makes no progress, are faults.
-/

namespace PupaCoin

open Codec

structure CMessageHeader where
  pchMessageStart : List UInt8
  pchCommand : List UInt8
  nMessageSize : UInt32
  nChecksum : UInt32
deriving DecidableEq, Repr

namespace CMessageHeader

def messageStartSize : Nat := 4
def commandSize : Nat := 12

/-- `CMessageHeader()`. -/
def initial (messageStart : List UInt8) : CMessageHeader where
  pchMessageStart := messageStart
  pchCommand := (List.replicate commandSize 0).set 1 1
  nMessageSize := -1
  nChecksum := 0

/-- The fields are arrays of these lengths. -/
structure Fits (hdr : CMessageHeader) : Prop where
  pchMessageStart : hdr.pchMessageStart.length = messageStartSize
  pchCommand : hdr.pchCommand.length = commandSize

def serialize (hdr : CMessageHeader) : List UInt8 :=
  hdr.pchMessageStart ++ hdr.pchCommand ++ writeUInt32 hdr.nMessageSize ++ writeUInt32 hdr.nChecksum

def unserialize : ReadM CMessageHeader := do
  let pchMessageStart ← readData messageStartSize
  let pchCommand ← readData commandSize
  let nMessageSize ← readUInt32
  let nChecksum ← readUInt32
  return { pchMessageStart, pchCommand, nMessageSize, nChecksum }

end CMessageHeader

/-- What must not happen while a message is received. -/
inductive ReceiveFault
  | outOfBounds
  | noProgress
deriving DecidableEq, Repr

def memcpy (dst : List UInt8) (pos : UInt32) (pch : List UInt8) (n : UInt32) : Except ReceiveFault (List UInt8) :=
  if pos.toNat + n.toNat ≤ dst.length ∧ n.toNat ≤ pch.length then
    .ok (dst.take pos.toNat ++ pch.take n.toNat ++ dst.drop (pos.toNat + n.toNat))
  else .error .outOfBounds

/-- `vch.resize(n)`. -/
def resize (vch : List UInt8) (n : Nat) : List UInt8 := vch.take n ++ List.replicate (n - vch.length) 0

/-- An `unsigned int` that is returned as an `int`. -/
def asInt (n : UInt32) : Int := n.toInt32.toInt

structure CNetMessage where
  /-- Parsing the header (`false`) or the data (`true`). -/
  inData : Bool
  hdrbuf : List UInt8
  hdr : CMessageHeader
  nHdrPos : UInt32
  vRecv : List UInt8
  nDataPos : UInt32
deriving DecidableEq, Repr

namespace CNetMessage

/-- `CNetMessage()`. -/
def initial (messageStart : List UInt8) : CNetMessage where
  inData := false
  hdrbuf := resize [] 24
  hdr := .initial messageStart
  nHdrPos := 0
  vRecv := []
  nDataPos := 0

def complete (msg : CNetMessage) : Bool := if !msg.inData then false else msg.hdr.nMessageSize == msg.nDataPos

/-- `readHeader`: how many bytes it has taken, or -1. Reading the header uses `hdrbuf` up. -/
def readHeader (msg : CNetMessage) (pch : List UInt8) (nBytes : UInt32) :
    Except ReceiveFault (Int × CNetMessage) := do
  let nRemaining := 24 - msg.nHdrPos
  let nCopy := min nRemaining nBytes
  let hdrbuf ← memcpy msg.hdrbuf msg.nHdrPos pch nCopy
  let nHdrPos := msg.nHdrPos + nCopy
  if nHdrPos < 24 then return (asInt nCopy, { msg with hdrbuf, nHdrPos })
  match CMessageHeader.unserialize hdrbuf with
  | (.error _, hdrbuf) => return (-1, { msg with hdrbuf, nHdrPos })
  | (.ok hdr, hdrbuf) =>
    if hdr.nMessageSize.toNat > maxSize then return (-1, { msg with hdrbuf, nHdrPos, hdr })
    return (asInt nCopy, { msg with hdrbuf, nHdrPos, hdr, inData := true })

/-- `readData`: room is made for at most 256 KiB more than what has arrived. -/
def readData (msg : CNetMessage) (pch : List UInt8) (nBytes : UInt32) : Except ReceiveFault (Int × CNetMessage) := do
  let nRemaining := msg.hdr.nMessageSize - msg.nDataPos
  let nCopy := min nRemaining nBytes
  let vRecv :=
    if msg.vRecv.length < (msg.nDataPos + nCopy).toNat then
      resize msg.vRecv (min msg.hdr.nMessageSize (msg.nDataPos + nCopy + 256 * 1024)).toNat
    else msg.vRecv
  let vRecv ← memcpy vRecv msg.nDataPos pch nCopy
  return (asInt nCopy, { msg with vRecv, nDataPos := msg.nDataPos + nCopy })

end CNetMessage

section CNode

variable (messageStart : List UInt8)

/-- The messages in front of the one to go on with: the current incomplete message, or a new one. -/
def currentMessage (vRecvMsg : List CNetMessage) : List CNetMessage × CNetMessage :=
  match vRecvMsg.getLast? with
  | none => (vRecvMsg, .initial messageStart)
  | some msg => if msg.complete then (vRecvMsg, .initial messageStart) else (vRecvMsg.dropLast, msg)

/-- One pass of the loop of `ReceiveMsgBytes`: `handled`, and the messages behind it. -/
def absorb (vRecvMsg : List CNetMessage) (pch : List UInt8) (nBytes : UInt32) :
    Except ReceiveFault (Int × List CNetMessage) := do
  let (front, msg) := currentMessage messageStart vRecvMsg
  let (handled, msg) ← if !msg.inData then msg.readHeader pch nBytes else msg.readData pch nBytes
  return (handled, front ++ [msg])

/-- The loop of `ReceiveMsgBytes`. -/
def receiveLoop : Nat → List CNetMessage → List UInt8 → UInt32 → Except ReceiveFault (Bool × List CNetMessage)
  | fuel, vRecvMsg, pch, nBytes =>
    if nBytes > 0 then
      match fuel with
      | 0 => .error .noProgress
      | fuel + 1 => do
        let (handled, vRecvMsg) ← absorb messageStart vRecvMsg pch nBytes
        if handled < 0 then return (false, vRecvMsg)
        receiveLoop fuel vRecvMsg (pch.drop handled.toNat) (nBytes - UInt32.ofNat handled.toNat)
    else .ok (true, vRecvMsg)

/-- `ReceiveMsgBytes`; a pass that takes at least a byte of the chunk is made at most `nBytes` times. -/
def receiveMsgBytes (vRecvMsg : List CNetMessage) (pch : List UInt8) (nBytes : UInt32) :
    Except ReceiveFault (Bool × List CNetMessage) :=
  receiveLoop messageStart nBytes.toNat vRecvMsg pch nBytes

/-- The chunks that the socket handler receives, until one is refused and the socket is closed. -/
def receiveChunks : List CNetMessage → List (List UInt8) → Except ReceiveFault (Bool × List CNetMessage)
  | vRecvMsg, [] => .ok (true, vRecvMsg)
  | vRecvMsg, pchBuf :: chunks => do
    let (accepted, vRecvMsg) ← receiveMsgBytes messageStart vRecvMsg pchBuf (UInt32.ofNat pchBuf.length)
    if !accepted then return (false, vRecvMsg)
    receiveChunks vRecvMsg chunks

end CNode

/-- A message as its sender means it. -/
structure NetMessage where
  hdr : CMessageHeader
  payload : List UInt8
deriving DecidableEq, Repr

namespace NetMessage

/-- The header announces the payload, which is not larger than `MAX_SIZE`. -/
structure Valid (m : NetMessage) : Prop where
  hdr : m.hdr.Fits
  size : m.payload.length = m.hdr.nMessageSize.toNat
  payload : m.payload.length ≤ maxSize

def serialize (m : NetMessage) : List UInt8 := m.hdr.serialize ++ m.payload

end NetMessage

def messageStream (ms : List NetMessage) : List UInt8 := ms.flatMap NetMessage.serialize

def receivedMessages (vRecvMsg : List CNetMessage) : List NetMessage :=
  (vRecvMsg.filter CNetMessage.complete).map fun msg => ⟨msg.hdr, msg.vRecv⟩

/-- A way of cutting a byte string into non-empty chunks whose lengths an `unsigned int` holds. -/
def Cut (bytes : List UInt8) (chunks : List (List UInt8)) : Prop :=
  chunks.flatten = bytes ∧ ∀ pchBuf ∈ chunks, pchBuf ≠ [] ∧ pchBuf.length < 2 ^ 32

end PupaCoin
