import PupaCoin.Chain.Compact
import PupaCoin.Script.Interpreter

/-!
# The two encodings of a number (`script.h`, `bignum.h`)

`CScriptNum` encodes a 64-bit number with shifts, `CBigNum` through the MPI strings of OpenSSL. What C++ leaves
undefined has no result: the negation of the least number, and a shift by 64 bits.
-/

namespace PupaCoin

namespace CScriptNum

/-- The loop of `serialize`; eight rounds empty a 64-bit number. -/
def absBytes : Nat → UInt64 → List UInt8
  | 0, _ => []
  | fuel + 1, absvalue =>
    if absvalue = 0 then [] else (absvalue &&& 0xff).toUInt8 :: absBytes fuel (absvalue >>> 8)

def serialize (value : Int64) : Option (List UInt8) :=
  if value = 0 then some []
  else
    let neg := decide (value < 0)
    if value = Int64.minValue then none
    else
      let absvalue := (if neg then -value else value).toUInt64
      let result := absBytes 8 absvalue
      let back := result.getLastD 0
      if back &&& 0x80 ≠ 0 then some (result ++ [if neg then 0x80 else 0])
      else if neg then some (result.dropLast ++ [back ||| 0x80])
      else some result

/-- The loop of `set_vch`, from the byte at `i` on. -/
def orBytes : Nat → UInt64 → List UInt8 → UInt64
  | _, result, [] => result
  | i, result, b :: vch => orBytes (i + 1) (result ||| (b.toUInt64 <<< UInt64.ofNat (8 * i))) vch

def setVch (vch : List UInt8) : Option Int64 :=
  if vch = [] then some 0
  else if 8 < vch.length then none
  else
    let result := orBytes 0 0 vch
    if vch.getLastD 0 &&& 0x80 ≠ 0 then
      some (-(result &&& ~~~((0x80 : UInt64) <<< UInt64.ofNat (8 * (vch.length - 1)))).toInt64)
    else some result.toInt64

end CScriptNum

namespace BnMpi

variable (bn : BnMpi)

/-- The loop of `setint64` over the bytes of `n`, the highest first: what it appends to `p`. -/
def int64Bytes (fNegative : Bool) : Nat → UInt64 → Bool → List UInt8 → List UInt8
  | 0, _, _, p => p
  | fuel + 1, n, fLeadingZeroes, p =>
    let c := ((n >>> 56) &&& 0xff).toUInt8
    let n := n <<< 8
    if fLeadingZeroes then
      if c = 0 then int64Bytes fNegative fuel n true p
      else if c &&& 0x80 ≠ 0 then int64Bytes fNegative fuel n false (p ++ [if fNegative then 0x80 else 0, c])
      else int64Bytes fNegative fuel n false (p ++ [if fNegative then c ||| 0x80 else c])
    else int64Bytes fNegative fuel n false (p ++ [c])

def setint64 (sn : Int64) : Int :=
  let fNegative := decide (sn < 0)
  let n := if fNegative then (-(sn + 1)).toUInt64 + 1 else sn.toUInt64
  bn.mpi2bn (Mpi.frame (int64Bytes fNegative 8 n true []))

/-- `CBigNum(long n)`: `BN_set_word` takes the number itself. -/
def ofLong (n : Int64) : Int := if 0 ≤ n then (n.toUInt64.toNat : Int) else bn.setint64 n

def setvch (vch : List UInt8) : Int := bn.mpi2bn (Mpi.frame vch.reverse)

def getvch (n : Int) : List UInt8 :=
  let vch := bn.bn2mpi n
  if vch.length ≤ 4 then [] else (vch.drop 4).reverse

end BnMpi

end PupaCoin
