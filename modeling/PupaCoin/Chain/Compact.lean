import PupaCoin.Chain.Params
import PupaCoin.Lib.Mpi

/-!
# Compact targets (`bignum.h`)

`CBigNum` is an arbitrary-precision integer. The compact form of a target has the number of bytes in
its top byte, a sign bit, and the 23 most significant bits.
-/

namespace PupaCoin

def setCompact (nCompact : UInt32) : Int :=
  let nSize := nCompact.toNat / 2 ^ 24
  let nWord := nCompact.toNat % 2 ^ 23
  let magnitude : Nat := if nSize ≤ 3 then nWord / 256 ^ (3 - nSize) else nWord * 256 ^ (nSize - 3)
  if nCompact.toNat / 2 ^ 23 % 2 = 1 then -(magnitude : Int) else magnitude

/-- The number of bytes of the MPI form of a magnitude: one more bit than the magnitude has, for the
    sign. -/
def mpiSize (magnitude : Nat) : Nat :=
  if magnitude = 0 then 0 else magnitude.log2 / 8 + 1 + if magnitude.log2 % 8 = 7 then 1 else 0

def getCompact (n : Int) : UInt32 :=
  let nSize := mpiSize n.natAbs
  let nWord := if nSize ≤ 3 then n.natAbs * 256 ^ (3 - nSize) else n.natAbs / 256 ^ (nSize - 3)
  let sign := if n < 0 then 2 ^ 23 else 0
  UInt32.ofNat (nSize * 2 ^ 24 + nWord + sign)

/-- `CBigNum::getuint256`: the magnitude, truncated to 256 bits. -/
def getUInt256 (n : Int) : UInt256 := BitVec.ofNat 256 n.natAbs

/-!
## Compact targets in bytes (`bignum.h`)

`CBigNum` goes through the MPI strings of OpenSSL: a compact target has the length of the string in its top
byte, and then the first three bytes of it. Of a longer number the other bytes are lost.
-/

/-- `BN_bn2mpi` and `BN_mpi2bn`. -/
structure BnMpi where
  bn2mpi : Int → List UInt8
  mpi2bn : List UInt8 → Int
  bn2mpi_eq : ∀ n, bn2mpi n = Mpi.frame (Mpi.encode n)
  mpi2bn_frame : ∀ bytes, bytes.length < 2 ^ 31 → mpi2bn (Mpi.frame bytes) = Mpi.decode bytes

/-- The string that `SetCompact` builds. -/
def compactVch (nCompact : UInt32) : List UInt8 :=
  let nSize := nCompact >>> 24
  let vch := (List.replicate (4 + nSize.toNat) 0).set 3 nSize.toUInt8
  let vch := if nSize ≥ 1 then vch.set 4 ((nCompact >>> 16) &&& 0xff).toUInt8 else vch
  let vch := if nSize ≥ 2 then vch.set 5 ((nCompact >>> 8) &&& 0xff).toUInt8 else vch
  if nSize ≥ 3 then vch.set 6 ((nCompact >>> 0) &&& 0xff).toUInt8 else vch

namespace BnMpi

variable (bn : BnMpi)

def setCompact (nCompact : UInt32) : Int := bn.mpi2bn (compactVch nCompact)

/-- `CBigNum::GetCompact`. The length of a number's string fits an `unsigned int`; its shift may not. -/
def getCompact (n : Int) : UInt32 :=
  let vch := bn.bn2mpi n
  let nSize := vch.length - 4
  let nCompact := UInt32.ofNat nSize <<< 24
  let nCompact := if nSize ≥ 1 then nCompact ||| ((vch.getD 4 0).toUInt32 <<< 16) else nCompact
  let nCompact := if nSize ≥ 2 then nCompact ||| ((vch.getD 5 0).toUInt32 <<< 8) else nCompact
  if nSize ≥ 3 then nCompact ||| ((vch.getD 6 0).toUInt32 <<< 0) else nCompact

end BnMpi

def mantissa (nCompact : UInt32) : List UInt8 :=
  [((nCompact >>> 16) &&& 0xff).toUInt8, ((nCompact >>> 8) &&& 0xff).toUInt8, (nCompact &&& 0xff).toUInt8]

/-- A compact target of a string without a needless byte, with zeros in the bytes that a short string does not
    use. -/
def IsCanonical (nCompact : UInt32) : Prop :=
  Mpi.Minimal ((compactVch nCompact).drop 4) ∧ ∀ b ∈ (mantissa nCompact).drop (nCompact >>> 24).toNat, b = 0

instance (nCompact : UInt32) : Decidable (IsCanonical nCompact) := inferInstanceAs (Decidable (_ ∧ _))

/-- Framed strings of the same length with the same three most significant bytes. -/
def SameTopBytes (a b : List UInt8) : Prop :=
  a.length = b.length ∧ (a.drop 4).take 3 = (b.drop 4).take 3

end PupaCoin
