import PupaCoin.Lib.Radix
import Mathlib.Algebra.Group.Defs
import Mathlib.Data.Nat.Prime.Defs

/-!
# Stealth payments (`stealth.cpp`, `wallet.cpp`)

The sender of a payment makes an ephemeral key, and pays to a key that it derives from this and the two public
keys of a stealth address. The receiver derives the same key from its two secrets and the ephemeral public key.
-/

namespace PupaCoin

def ecSecretSize : ℕ := 32
def ecCompressedSize : ℕ := 33

structure EcSecret where
  e : List UInt8
  size : e.length = ecSecretSize
deriving DecidableEq

abbrev EcPoint := List UInt8

/-- The curve, with `EC_POINT_bn2point` and the compressed form of `EC_POINT_point2bn`: a byte 2 or 3 and 32
    more, or a single 0 for infinity. -/
structure Curve (G : Type) [AddCommGroup G] where
  generator : G
  order : ℕ
  bn2point : ℕ → Option G
  point2bn : G → ℕ
  prime : order.Prime
  order_lt : order < 256 ^ ecSecretSize
  nsmul_order : ∀ P : G, order • P = 0
  generator_ne : generator ≠ 0
  infinity : point2bn 0 = 0
  compressed : ∀ P, P ≠ 0 → 2 * 256 ^ ecSecretSize ≤ point2bn P ∧ point2bn P < 4 * 256 ^ ecSecretSize
  bn2point_point2bn : ∀ P, P ≠ 0 → bn2point (point2bn P) = some P

section Stealth

variable {G : Type} [AddCommGroup G] (curve : Curve G) (sha256 : List UInt8 → EcSecret)

namespace EcSecret

/-- `BN_bin2bn`. -/
def bn (secret : EcSecret) : ℕ := BigEndian.toNat secret.e

/-- A number in 32 bytes, with zeros in front; `none` where it has more of them. -/
def ofBN (n : ℕ) : Option EcSecret :=
  if h : BigEndian.numBytes n ≤ ecSecretSize then
    some ⟨BigEndian.pad ecSecretSize (BigEndian.ofNat n),
      BigEndian.length_pad (by rw [BigEndian.length_ofNat]; exact h)⟩
  else none

end EcSecret

/-- A point in 33 bytes; `none` where it takes another number of them. -/
def encodePoint (P : G) : Option EcPoint :=
  let bn := curve.point2bn P
  if BigEndian.numBytes bn ≠ ecCompressedSize then none else some (BigEndian.ofNat bn)

def decodePoint (point : EcPoint) : Option G := curve.bn2point (BigEndian.toNat point)

def secretToPublicKey (secret : EcSecret) : Option EcPoint :=
  encodePoint curve (secret.bn • curve.generator)

/-- What both sides share: the hash of `eQ`, which is `dP`. -/
def sharedSecret (secret : EcSecret) (pubkey : EcPoint) : Option EcSecret := do
  let Q ← decodePoint curve pubkey
  let vchOutQ ← encodePoint curve (secret.bn • Q)
  return sha256 vchOutQ

/-- `StealthSecret`: the shared secret and the key that is paid to. -/
def stealthSecret (secret : EcSecret) (pubkey pkSpend : EcPoint) : Option (EcSecret × EcPoint) := do
  let sharedSOut ← sharedSecret curve sha256 secret pubkey
  let C := sharedSOut.bn • curve.generator
  let R ← decodePoint curve pkSpend
  let pkOut ← encodePoint curve (R + C)
  return (sharedSOut, pkOut)

def stealthSharedToSecretSpend (sharedS spendSecret : EcSecret) : Option EcSecret :=
  let bnSpend := (spendSecret.bn + sharedS.bn) % curve.order
  if bnSpend = 0 then none else EcSecret.ofBN bnSpend

def stealthSecretSpend (scanSecret : EcSecret) (ephemPubkey : EcPoint) (spendSecret : EcSecret) :
    Option EcSecret := do
  let hash1 ← sharedSecret curve sha256 scanSecret ephemPubkey
  stealthSharedToSecretSpend curve hash1 spendSecret

def EcSecret.check (secret : EcSecret) : Prop := 0 < secret.bn ∧ secret.bn < curve.order

instance (secret : EcSecret) : Decidable (secret.check curve) := by
  unfold EcSecret.check
  infer_instance

end Stealth

end PupaCoin
