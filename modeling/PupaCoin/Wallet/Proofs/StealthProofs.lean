import PupaCoin.Wallet.Stealth
import Mathlib.GroupTheory.OrderOfElement
import Mathlib.Data.ZMod.Basic
import Mathlib.Tactic.NormNum.Prime

/-!
# Both sides of a stealth payment derive the same key

Every key is a multiple of the generator, so that the two sides differ in the order of the factors only. The
encoding of a point fails for infinity alone.
-/

namespace PupaCoin

variable {G : Type} [AddCommGroup G] {curve : Curve G} {sha256 : List UInt8 → EcSecret}
  {secret scanSecret spendSecret ephemSecret sharedS : EcSecret} {scanPubkey spendPubkey ephemPubkey : EcPoint}

variable {P : G} {point pubkey : EcPoint}

theorem numBytes_point2bn (hP : P ≠ 0) : BigEndian.numBytes (curve.point2bn P) = ecCompressedSize := by
  obtain ⟨hlow, hhigh⟩ := curve.compressed P hP
  unfold ecSecretSize at hlow hhigh
  have hle : BigEndian.numBytes (curve.point2bn P) ≤ 33 := by
    rw [BigEndian.numBytes_le_iff]
    omega
  have hgt : ¬ BigEndian.numBytes (curve.point2bn P) ≤ 32 := by
    rw [BigEndian.numBytes_le_iff]
    omega
  unfold ecCompressedSize
  omega

theorem encodePoint_zero (curve : Curve G) : encodePoint curve 0 = none := by
  have hzero : BigEndian.numBytes (curve.point2bn 0) ≠ ecCompressedSize := by
    rw [curve.infinity]
    decide
  unfold encodePoint
  rw [if_pos hzero]

theorem encodePoint_of_ne (hP : P ≠ 0) : encodePoint curve P = some (BigEndian.ofNat (curve.point2bn P)) := by
  unfold encodePoint
  rw [if_neg (not_not.mpr (numBytes_point2bn hP))]

theorem encodePoint_eq_some (hpoint : encodePoint curve P = some point) :
    P ≠ 0 ∧ decodePoint curve point = some P := by
  by_cases hP : P = 0
  · rw [hP, encodePoint_zero] at hpoint
    cases hpoint
  · rw [encodePoint_of_ne hP] at hpoint
    cases hpoint
    refine ⟨hP, ?_⟩
    unfold decodePoint
    rw [BigEndian.toNat_ofNat, curve.bn2point_point2bn P hP]

theorem nsmul_eq_zero_iff (hP : P ≠ 0) (n : ℕ) : n • P = 0 ↔ n % curve.order = 0 := by
  have horder : addOrderOf P = curve.order := by
    have hprime : Fact curve.order.Prime := ⟨curve.prime⟩
    exact addOrderOf_eq_prime (curve.nsmul_order P) hP
  rw [← addOrderOf_dvd_iff_nsmul_eq_zero, horder, Nat.dvd_iff_mod_eq_zero]

theorem secretToPublicKey_eq_some (hkey : secretToPublicKey curve secret = some point) :
    secret.bn % curve.order ≠ 0 ∧ decodePoint curve point = some (secret.bn • curve.generator) := by
  obtain ⟨hne, hdecode⟩ := encodePoint_eq_some hkey
  refine ⟨fun hzero => hne ?_, hdecode⟩
  exact (nsmul_eq_zero_iff curve.generator_ne _).mpr hzero

theorem EcSecret.ofBN_of_lt {n : ℕ} (hn : n < 256 ^ ecSecretSize) :
    ∃ secret, EcSecret.ofBN n = some secret ∧ secret.bn = n := by
  have hle : BigEndian.numBytes n ≤ ecSecretSize := BigEndian.numBytes_le_iff.mpr hn
  unfold EcSecret.ofBN
  rw [dif_pos hle]
  refine ⟨_, rfl, ?_⟩
  unfold EcSecret.bn
  rw [BigEndian.toNat_pad, BigEndian.toNat_ofNat]

theorem stealthSharedToSecretSpend_spec (curve : Curve G) (sharedS spendSecret : EcSecret) :
    ((spendSecret.bn + sharedS.bn) % curve.order = 0
      ∧ stealthSharedToSecretSpend curve sharedS spendSecret = none)
    ∨ ((spendSecret.bn + sharedS.bn) % curve.order ≠ 0
      ∧ ∃ secretOut, stealthSharedToSecretSpend curve sharedS spendSecret = some secretOut
        ∧ secretOut.bn = (spendSecret.bn + sharedS.bn) % curve.order) := by
  unfold stealthSharedToSecretSpend
  dsimp only
  by_cases hzero : (spendSecret.bn + sharedS.bn) % curve.order = 0
  · left
    rw [if_pos hzero]
    exact ⟨hzero, rfl⟩
  · right
    rw [if_neg hzero]
    have hlt : (spendSecret.bn + sharedS.bn) % curve.order < 256 ^ ecSecretSize :=
      lt_trans (Nat.mod_lt _ curve.prime.pos) curve.order_lt
    exact ⟨hzero, EcSecret.ofBN_of_lt hlt⟩

theorem sharedSecret_eq (sha256 : List UInt8 → EcSecret) {other : EcSecret} (hsecret : secret.bn % curve.order ≠ 0)
    (hkey : secretToPublicKey curve other = some pubkey) : sharedSecret curve sha256 secret pubkey
      = some (sha256 (BigEndian.ofNat (curve.point2bn ((secret.bn * other.bn) • curve.generator)))) := by
  obtain ⟨hother, hdecode⟩ := secretToPublicKey_eq_some hkey
  have hprod : (secret.bn * other.bn) • curve.generator ≠ 0 := by
    rw [Ne, nsmul_eq_zero_iff curve.generator_ne, ← Nat.dvd_iff_mod_eq_zero, curve.prime.dvd_mul]
    rw [Ne, ← Nat.dvd_iff_mod_eq_zero] at hsecret hother
    exact not_or.mpr ⟨hsecret, hother⟩
  unfold sharedSecret
  rw [hdecode, Option.bind_eq_bind, Option.bind_some, ← mul_nsmul', encodePoint_of_ne hprod]
  rfl

theorem stealthSecret_eq (hshared : sharedSecret curve sha256 secret pubkey = some sharedS)
    (hspend : secretToPublicKey curve spendSecret = some spendPubkey) :
    stealthSecret curve sha256 secret pubkey spendPubkey
      = (encodePoint curve ((spendSecret.bn + sharedS.bn) • curve.generator)).map fun pkOut =>
        (sharedS, pkOut) := by
  obtain ⟨-, hdecode⟩ := secretToPublicKey_eq_some hspend
  unfold stealthSecret
  dsimp only
  rw [hshared, Option.bind_eq_bind, Option.bind_some, hdecode, Option.bind_eq_bind, Option.bind_some, ← add_nsmul]
  cases encodePoint curve ((spendSecret.bn + sharedS.bn) • curve.generator) <;> rfl

/-- The sender and the receiver derive the same shared secret and the same key; the secrets that the receiver
    derives in the two ways are the same, are in range, and have this key as their public key. There is no key
    exactly when there is no secret. -/
theorem stealth_keys_agree (curve : Curve G) (sha256 : List UInt8 → EcSecret)
    (hscan : secretToPublicKey curve scanSecret = some scanPubkey)
    (hspend : secretToPublicKey curve spendSecret = some spendPubkey)
    (hephem : secretToPublicKey curve ephemSecret = some ephemPubkey) :
    stealthSecret curve sha256 ephemSecret scanPubkey spendPubkey
        = stealthSecret curve sha256 scanSecret ephemPubkey spendPubkey
      ∧ (∀ sharedS pkOut, stealthSecret curve sha256 scanSecret ephemPubkey spendPubkey = some (sharedS, pkOut) →
        ∃ secretOut, stealthSecretSpend curve sha256 scanSecret ephemPubkey spendSecret = some secretOut
          ∧ stealthSharedToSecretSpend curve sharedS spendSecret = some secretOut
          ∧ secretToPublicKey curve secretOut = some pkOut ∧ secretOut.check curve)
      ∧ (stealthSecret curve sha256 scanSecret ephemPubkey spendPubkey = none ↔
        stealthSecretSpend curve sha256 scanSecret ephemPubkey spendSecret = none) := by
  have hsend := sharedSecret_eq sha256 (secretToPublicKey_eq_some hephem).1 hscan
  have hreceive := sharedSecret_eq sha256 (secretToPublicKey_eq_some hscan).1 hephem
  rw [Nat.mul_comm] at hsend
  have hkeys := stealthSecret_eq hsend hspend
  have hkeys' := stealthSecret_eq hreceive hspend
  have hsecret : stealthSecretSpend curve sha256 scanSecret ephemPubkey spendSecret
      = stealthSharedToSecretSpend curve
        (sha256 (BigEndian.ofNat (curve.point2bn ((scanSecret.bn * ephemSecret.bn) • curve.generator))))
        spendSecret := by
    unfold stealthSecretSpend
    rw [hreceive]
    rfl
  generalize sha256 (BigEndian.ofNat (curve.point2bn ((scanSecret.bn * ephemSecret.bn) • curve.generator)))
    = sharedS at hkeys hkeys' hsecret
  refine ⟨hkeys.trans hkeys'.symm, ?_⟩
  rw [hkeys', hsecret]
  rcases stealthSharedToSecretSpend_spec curve sharedS spendSecret with ⟨hzero, hnone⟩ | ⟨hne, secretOut, hout, hbn⟩
  · have hinfinity : (spendSecret.bn + sharedS.bn) • curve.generator = 0 :=
      (nsmul_eq_zero_iff curve.generator_ne _).mpr hzero
    rw [hinfinity, encodePoint_zero, hnone]
    constructor
    · intro sharedS' pkOut hsome
      cases hsome
    · exact iff_of_true rfl rfl
  · have hpoint : (spendSecret.bn + sharedS.bn) • curve.generator ≠ 0 := by
      rw [Ne, nsmul_eq_zero_iff curve.generator_ne]
      exact hne
    have hpublic : secretToPublicKey curve secretOut
        = encodePoint curve ((spendSecret.bn + sharedS.bn) • curve.generator) := by
      unfold secretToPublicKey
      rw [hbn, ← nsmul_eq_mod_nsmul _ (curve.nsmul_order _)]
    have hcheck : secretOut.check curve := by
      unfold EcSecret.check
      rw [hbn]
      exact ⟨Nat.pos_of_ne_zero hne, Nat.mod_lt _ curve.prime.pos⟩
    rw [hout]
    constructor
    · intro sharedS' pkOut hsome
      obtain ⟨pk, hpk, heq⟩ := Option.map_eq_some_iff.mp hsome
      cases heq
      exact ⟨secretOut, rfl, hout, hpublic.trans hpk, hcheck⟩
    · rw [encodePoint_of_ne hpoint]
      exact iff_of_false (by simp) (by simp)

namespace Sample

def sevenPoints : Curve (ZMod 7) where
  generator := 1
  order := 7
  bn2point n := some (n - 2 * 256 ^ 32 : ℕ)
  point2bn P := if P = 0 then 0 else 2 * 256 ^ 32 + P.val
  prime := by norm_num
  order_lt := by decide
  nsmul_order := by decide
  generator_ne := by decide
  infinity := rfl
  compressed := by decide
  bn2point_point2bn := by decide

def smallSecret (b : UInt8) : EcSecret := ⟨List.replicate 31 0 ++ [b], rfl⟩

def lastByte (bytes : List UInt8) : EcSecret := smallSecret (bytes.getLast?.getD 0)

def smallPoint (b : UInt8) : EcPoint := 2 :: (List.replicate 31 0 ++ [b])

theorem secretToPublicKey_small : secretToPublicKey sevenPoints (smallSecret 3) = some (smallPoint 3)
    ∧ secretToPublicKey sevenPoints (smallSecret 4) = some (smallPoint 4)
    ∧ secretToPublicKey sevenPoints (smallSecret 12) = some (smallPoint 5) := by
  decide

theorem smallKeys_agree : stealthSecret sevenPoints lastByte (smallSecret 12) (smallPoint 3) (smallPoint 4)
        = stealthSecret sevenPoints lastByte (smallSecret 3) (smallPoint 5) (smallPoint 4)
      ∧ ∃ secretOut, stealthSecretSpend sevenPoints lastByte (smallSecret 3) (smallPoint 5) (smallSecret 4)
          = some secretOut ∧ secretToPublicKey sevenPoints secretOut = some (smallPoint 5) := by
  obtain ⟨hscan, hspend, hephem⟩ := secretToPublicKey_small
  obtain ⟨hagree, hout, -⟩ := stealth_keys_agree sevenPoints lastByte hscan hspend hephem
  refine ⟨hagree, ?_⟩
  have hpaid : stealthSecret sevenPoints lastByte (smallSecret 3) (smallPoint 5) (smallPoint 4)
      = some (smallSecret 1, smallPoint 5) := by decide
  obtain ⟨secretOut, hsecret, -, hpublic, -⟩ := hout _ _ hpaid
  exact ⟨secretOut, hsecret, hpublic⟩

end Sample

end PupaCoin
