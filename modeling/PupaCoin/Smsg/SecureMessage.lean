import PupaCoin.Net.Message

/-!
# Secure messages (`smessage.h`)

A message is a header of 104 bytes and an encrypted payload. A header that has been received is a pointer into the
bytes of its sender; its fields are read from there. A read or a copy that leaves its buffer is a fault.
-/

namespace PupaCoin.Smsg

variable {n : Int} {buf bytes : Bytes} {pos : Nat}

abbrev Bytes := List UInt8

def smsgHdrLen : Nat := 104

/-- The length of the header in front of the text in a payload that is not anonymous. -/
def smsgPlHdrLen : Nat := 1 + 20 + 65 + 4

def smsgBucketLen : Int := 60 * 10
def smsgRetention : Int := 60 * 60 * 48
def smsgTimeLeeway : Int := 60
def smsgTimeIgnore : Int := 90

def smsgMaxMsgBytes : Nat := 4096

def lz4CompressBound (isize : Nat) : Nat := if isize > 0x7E000000 then 0 else isize + isize / 255 + 16

def smsgMaxMsgWorst : Nat := lz4CompressBound (smsgMaxMsgBytes + smsgPlHdrLen)

/-- How a function of this file ends without a result. -/
inductive Stop where
  /-- The value it returns. -/
  | rv (n : Int)
  /-- A read or a copy that leaves its buffer. -/
  | outOfBounds
  /-- Another kind of undefined behaviour. -/
  | undefined (what : String)
deriving DecidableEq, Repr

/-- Return `n` where the check fires. -/
def returnIf (c : Bool) (n : Int) : Except Stop Unit := Guards.stopIf c (.rv n)

@[simp] theorem returnIf_eq_ok {c : Bool} {u : Unit} : returnIf c n = .ok u ↔ c = false :=
  Guards.stopIf_eq_ok

@[simp] theorem returnIf_false (n : Int) : returnIf false n = .ok () := rfl

/-- Return `n` where there is no value. -/
def orReturn {α : Type} (o : Option α) (n : Int) : Except Stop α :=
  match o with
  | none => .error (.rv n)
  | some a => .ok a

@[simp] theorem orReturn_eq_ok {α : Type} {o : Option α} {a : α} : orReturn o n = .ok a ↔ o = some a := by
  cases o <;> simp [orReturn]

@[simp] theorem orReturn_some {α : Type} (a : α) (n : Int) : orReturn (some a) n = .ok a := rfl

/-- The bytes that a `memcpy` of `len` bytes from `&buf[pos]` copies. -/
def readAt (buf : Bytes) (pos len : Nat) : Except Stop Bytes :=
  if pos + len ≤ buf.length then .ok ((buf.drop pos).take len) else .error .outOfBounds

/-- A `memcpy` of `bytes` to `&buf[pos]`. -/
def writeAt (buf : Bytes) (pos : Nat) (bytes : Bytes) : Except Stop Bytes :=
  if pos + bytes.length ≤ buf.length then
    .ok (buf.take pos ++ bytes ++ buf.drop (pos + bytes.length))
  else .error .outOfBounds

theorem readAt_eq_ok {len : Nat} :
    readAt buf pos len = .ok bytes ↔ pos + len ≤ buf.length ∧ (buf.drop pos).take len = bytes := by
  unfold readAt
  split_ifs with h <;> simp [h]

theorem writeAt_eq_ok {buf' : Bytes} : writeAt buf pos bytes = .ok buf' ↔ pos + bytes.length ≤ buf.length ∧
      buf.take pos ++ bytes ++ buf.drop (pos + bytes.length) = buf' := by
  unfold writeAt
  split_ifs with h <;> simp [h]

/-- A `uint32_t` from its bytes. -/
def toUInt32 (bytes : Bytes) : UInt32 := UInt32.ofNat (LittleEndian.toNat bytes)

/-- The bytes of a `uint32_t`. -/
def ofUInt32 (x : UInt32) : Bytes := LittleEndian.ofNat 4 x.toNat

@[simp] theorem length_ofUInt32 (x : UInt32) : (ofUInt32 x).length = 4 := LittleEndian.length_ofNat _ _

@[simp] theorem toUInt32_ofUInt32 (x : UInt32) : toUInt32 (ofUInt32 x) = x := by
  unfold toUInt32 ofUInt32
  have hlt : x.toNat < 256 ^ 4 := x.toNat_lt
  rw [LittleEndian.toNat_ofNat hlt, UInt32.ofNat_toNat]

/-- The header of a `SecureMessage`, field by field. -/
structure SecureMessage where
  hash : Bytes
  version : Bytes
  flags : Bytes
  timestamp : Int
  iv : Bytes
  cpkR : Bytes
  mac : Bytes
  nonse : Bytes
  nPayload : UInt32
deriving DecidableEq, Repr

/-- `(SecureMessage*) pHeader`: the fields at their offsets. -/
def SecureMessage.ofBytes (pHeader : Bytes) : SecureMessage where
  hash := (pHeader.drop 0).take 4
  version := (pHeader.drop 4).take 2
  flags := (pHeader.drop 6).take 1
  timestamp := LittleEndian.toInt ((pHeader.drop 7).take 8)
  iv := (pHeader.drop 15).take 16
  cpkR := (pHeader.drop 31).take 33
  mac := (pHeader.drop 64).take 32
  nonse := (pHeader.drop 96).take 4
  nPayload := toUInt32 ((pHeader.drop 100).take 4)

def SecureMessage.toBytes (smsg : SecureMessage) : Bytes :=
  smsg.hash ++ smsg.version ++ smsg.flags ++ LittleEndian.ofInt 8 smsg.timestamp ++ smsg.iv ++ smsg.cpkR ++ smsg.mac
    ++ smsg.nonse ++ ofUInt32 smsg.nPayload

end PupaCoin.Smsg
