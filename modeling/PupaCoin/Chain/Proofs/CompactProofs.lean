import PupaCoin.Chain.Compact
import Mathlib.Data.List.GetD

/-!
# What compact targets keep

`SetCompact` decodes the string that the compact form says, and `GetCompact` packs the length and the first
three bytes of the encoded one; a canonical form loses nothing, and a form of any other number stands for the
number with its lower bytes cleared.
-/

namespace PupaCoin

variable {k : Nat} {nCompact : UInt32} {n : Int}

theorem toNat_mantissa (nCompact : UInt32) : (mantissa nCompact).map UInt8.toNat
      = [nCompact.toNat / 2 ^ 16 % 256, nCompact.toNat / 2 ^ 8 % 256, nCompact.toNat % 256] := by
  have hbyte : ∀ c : UInt32, (c &&& 0xff).toUInt8.toNat = c.toNat % 256 := by
    intro c
    rw [UInt32.toNat_toUInt8, UInt32.toNat_and]
    show (c.toNat &&& (2 ^ 8 - 1)) % 2 ^ 8 = c.toNat % 2 ^ 8
    rw [Nat.and_two_pow_sub_one_eq_mod, Nat.mod_mod]
  have hshift16 : (nCompact >>> 16).toNat = nCompact.toNat / 2 ^ 16 := by
    rw [UInt32.toNat_shiftRight, Nat.shiftRight_eq_div_pow]
    rfl
  have hshift8 : (nCompact >>> 8).toNat = nCompact.toNat / 2 ^ 8 := by
    rw [UInt32.toNat_shiftRight, Nat.shiftRight_eq_div_pow]
    rfl
  simp only [mantissa, List.map_cons, List.map_nil, hbyte, hshift16, hshift8]

theorem exists_mantissa (nCompact : UInt32) : ∃ a b c, mantissa nCompact = [a, b, c] ∧
      nCompact.toNat = nCompact.toNat / 2 ^ 24 * 2 ^ 24 + a.toNat * 2 ^ 16 + b.toNat * 2 ^ 8 + c.toNat := by
  refine ⟨_, _, _, rfl, ?_⟩
  have hbytes := toNat_mantissa nCompact
  simp only [mantissa, List.map_cons, List.map_nil, List.cons.injEq, and_true] at hbytes
  rw [hbytes.1, hbytes.2.1, hbytes.2.2]
  have h16 : nCompact.toNat / 2 ^ 16 = nCompact.toNat / 2 ^ 8 / 2 ^ 8 := by omega
  have h24 : nCompact.toNat / 2 ^ 24 = nCompact.toNat / 2 ^ 16 / 2 ^ 8 := by omega
  omega

theorem toNat_size (nCompact : UInt32) : (nCompact >>> 24).toNat = nCompact.toNat / 2 ^ 24 := by
  rw [UInt32.toNat_shiftRight, Nat.shiftRight_eq_div_pow]
  rfl

theorem or_eq_add {x y : Nat} (hx : 2 ^ k ∣ x) (hy : y < 2 ^ k) : x ||| y = x + y := by
  obtain ⟨a, rfl⟩ := hx
  exact (Nat.two_pow_add_eq_or_of_lt hy a).symm

theorem toNat_pack (nSize : Nat) (a b c : UInt8) :
    (UInt32.ofNat nSize <<< 24 ||| a.toUInt32 <<< 16 ||| b.toUInt32 <<< 8 ||| c.toUInt32 <<< 0).toNat
      = nSize % 256 * 2 ^ 24 + a.toNat * 2 ^ 16 + b.toNat * 2 ^ 8 + c.toNat := by
  have ha := a.toNat_lt
  have hb := b.toNat_lt
  have hc := c.toNat_lt
  have hsize : (UInt32.ofNat nSize <<< 24).toNat = 2 ^ 24 * (nSize % 256) := by
    rw [UInt32.toNat_shiftLeft, UInt32.toNat_ofNat', Nat.shiftLeft_eq]
    show nSize % 2 ^ 32 * 2 ^ 24 % 2 ^ 32 = _
    omega
  have hbyte : ∀ (d : UInt8) (k : UInt32), k.toNat < 24 → (d.toUInt32 <<< k).toNat = d.toNat * 2 ^ k.toNat := by
    intro d k hk
    have hd := d.toNat_lt
    have hlt : d.toNat * 2 ^ k.toNat < 2 ^ 32 :=
      calc d.toNat * 2 ^ k.toNat < 2 ^ 8 * 2 ^ 24 :=
            Nat.mul_lt_mul_of_lt_of_le hd (Nat.pow_le_pow_right (by norm_num) hk.le) (by norm_num)
        _ = 2 ^ 32 := by norm_num
    have hmod : k.toNat % 32 = k.toNat := Nat.mod_eq_of_lt (by omega)
    rw [UInt32.toNat_shiftLeft, UInt8.toNat_toUInt32, hmod, Nat.shiftLeft_eq, Nat.mod_eq_of_lt hlt]
  rw [UInt32.toNat_or, UInt32.toNat_or, UInt32.toNat_or, hsize, hbyte a 16 (by decide),
    hbyte b 8 (by decide), hbyte c 0 (by decide)]
  show ((2 ^ 24 * (nSize % 256) ||| a.toNat * 2 ^ 16) ||| b.toNat * 2 ^ 8) ||| c.toNat * 2 ^ 0 = _
  have h24 := or_eq_add (x := 2 ^ 24 * (nSize % 256)) (y := a.toNat * 2 ^ 16) (k := 24) (by omega) (by omega)
  have h16 := or_eq_add (x := 2 ^ 24 * (nSize % 256) + a.toNat * 2 ^ 16) (y := b.toNat * 2 ^ 8) (k := 16)
    (by omega) (by omega)
  have h8 := or_eq_add (x := 2 ^ 24 * (nSize % 256) + a.toNat * 2 ^ 16 + b.toNat * 2 ^ 8)
    (y := c.toNat * 2 ^ 0) (k := 8) (by omega) (by omega)
  rw [h24, h16, h8]
  omega

/-- What `SetCompact` decodes: the three bytes as far as the length has room for them, and zeros. -/
def compactBytes (nCompact : UInt32) : List UInt8 :=
  (mantissa nCompact).take (nCompact >>> 24).toNat ++ List.replicate ((nCompact >>> 24).toNat - 3) 0

theorem length_compactBytes (nCompact : UInt32) : (compactBytes nCompact).length = (nCompact >>> 24).toNat := by
  have hlength : (mantissa nCompact).length = 3 := rfl
  unfold compactBytes
  rw [List.length_append, List.length_take, List.length_replicate, hlength]
  omega

theorem getD_compactBytes {i : Nat} (hi : i < 3)
    (hunused : ∀ b ∈ (mantissa nCompact).drop (nCompact >>> 24).toNat, b = 0) :
    (compactBytes nCompact).getD i 0 = (mantissa nCompact).getD i 0 := by
  have hlength : (mantissa nCompact).length = 3 := rfl
  unfold compactBytes
  rcases lt_or_ge i (nCompact >>> 24).toNat with hlt | hge
  · have htake : i < ((mantissa nCompact).take (nCompact >>> 24).toNat).length := by
      rw [List.length_take]
      omega
    rw [List.getD_append _ _ _ _ htake, List.getD_eq_getElem?_getD, List.getElem?_take, if_pos hlt,
      ← List.getD_eq_getElem?_getD]
  · have hzero : (mantissa nCompact).getD i 0 = 0 := by
      refine hunused _ (List.mem_iff_getElem?.mpr ⟨i - (nCompact >>> 24).toNat, ?_⟩)
      rw [List.getElem?_drop, Nat.add_sub_cancel' hge, List.getD_eq_getElem _ _ (by omega)]
      exact List.getElem?_eq_getElem _
    have hshort : (nCompact >>> 24).toNat - 3 = 0 := by omega
    rw [hzero, hshort, List.replicate_zero, List.append_nil, List.getD_eq_default]
    rw [List.length_take]
    omega

theorem compactVch_eq (nCompact : UInt32) : compactVch nCompact = Mpi.frame (compactBytes nCompact) := by
  have hlt : (nCompact >>> 24).toNat < 256 := by
    have := nCompact.toNat_lt
    rw [toNat_size]
    omega
  have hsize : (nCompact >>> 24).toUInt8 = UInt8.ofNat (nCompact >>> 24).toNat := rfl
  have h1 : nCompact >>> 24 ≥ 1 ↔ 1 ≤ (nCompact >>> 24).toNat := UInt32.le_iff_toNat_le
  have h2 : nCompact >>> 24 ≥ 2 ↔ 2 ≤ (nCompact >>> 24).toNat := UInt32.le_iff_toNat_le
  have h3 : nCompact >>> 24 ≥ 3 ↔ 3 ≤ (nCompact >>> 24).toNat := UInt32.le_iff_toNat_le
  rw [Mpi.frame_of_lt (by rw [length_compactBytes]; exact hlt), length_compactBytes]
  unfold compactVch compactBytes mantissa
  simp only [hsize, h1, h2, h3, UInt32.shiftRight_zero]
  match (nCompact >>> 24).toNat with
  | 0 => rfl
  | 1 => rfl
  | 2 => rfl
  | n + 3 =>
    have hlength : 4 + (n + 3) = 7 + n := by omega
    have hzeros : List.replicate (4 + (n + 3)) (0 : UInt8) = [0, 0, 0, 0, 0, 0, 0] ++ List.replicate n 0 := by
      rw [hlength, ← List.replicate_append_replicate]
      rfl
    rw [hzeros]
    simp

namespace BnMpi

variable (bn : BnMpi)

theorem setCompact_eq_decode (nCompact : UInt32) : bn.setCompact nCompact = Mpi.decode (compactBytes nCompact) := by
  have hlength := length_compactBytes nCompact
  have hlt := nCompact.toNat_lt
  rw [toNat_size] at hlength
  unfold setCompact
  rw [compactVch_eq, bn.mpi2bn_frame _ (by omega)]

theorem toNat_getCompact (n : Int) :
    (bn.getCompact n).toNat = (Mpi.encode n).length % 256 * 2 ^ 24 + ((Mpi.encode n).getD 0 0).toNat * 2 ^ 16
      + ((Mpi.encode n).getD 1 0).toNat * 2 ^ 8 + ((Mpi.encode n).getD 2 0).toNat := by
  have h4 : ∀ bytes, (Mpi.frame bytes).getD 4 0 = bytes.getD 0 0 := fun _ => rfl
  have h5 : ∀ bytes, (Mpi.frame bytes).getD 5 0 = bytes.getD 1 0 := fun _ => rfl
  have h6 : ∀ bytes, (Mpi.frame bytes).getD 6 0 = bytes.getD 2 0 := fun _ => rfl
  unfold getCompact
  simp only [← toNat_pack, bn.bn2mpi_eq, h4, h5, h6, Mpi.length_frame, Nat.add_sub_cancel]
  -- A byte that the string does not have is read as 0 here, and not at all in the function.
  match Mpi.encode n with
  | [] => rfl
  | [a] => simp
  | [a, b] => simp
  | a :: b :: c :: rest => simp

theorem getCompact_congr {m : Int} (hlength : (Mpi.encode m).length = (Mpi.encode n).length)
    (htake : (Mpi.encode m).take 3 = (Mpi.encode n).take 3) : bn.getCompact m = bn.getCompact n := by
  have hread : ∀ i < 3, (Mpi.encode m).getD i 0 = (Mpi.encode n).getD i 0 := by
    intro i hi
    have hget := congrArg (fun bytes => bytes.getD i 0) htake
    simpa [List.getD_eq_getElem?_getD, List.getElem?_take, hi] using hget
  rw [← UInt32.toNat_inj, toNat_getCompact, toNat_getCompact, hlength, hread 0 (by decide), hread 1 (by decide),
    hread 2 (by decide)]

theorem mantissa_getCompact (n : Int) : mantissa (bn.getCompact n)
      = [(Mpi.encode n).getD 0 0, (Mpi.encode n).getD 1 0, (Mpi.encode n).getD 2 0] := by
  have h0 := ((Mpi.encode n).getD 0 0).toNat_lt
  have h1 := ((Mpi.encode n).getD 1 0).toNat_lt
  have h2 := ((Mpi.encode n).getD 2 0).toNat_lt
  have hinj : Function.Injective (List.map UInt8.toNat) :=
    List.map_injective_iff.mpr fun _ _ => UInt8.toNat_inj.mp
  refine hinj ?_
  rw [toNat_mantissa, toNat_getCompact]
  simp only [List.map_cons, List.map_nil, List.cons.injEq, and_true]
  omega

theorem compactBytes_getCompact (hlength : (Mpi.encode n).length ≤ 255) :
    compactBytes (bn.getCompact n) = Mpi.truncate 3 (Mpi.encode n) := by
  have hsize : (bn.getCompact n >>> 24).toNat = (Mpi.encode n).length := by
    have h0 := ((Mpi.encode n).getD 0 0).toNat_lt
    have h1 := ((Mpi.encode n).getD 1 0).toNat_lt
    have h2 := ((Mpi.encode n).getD 2 0).toNat_lt
    rw [toNat_size, toNat_getCompact]
    omega
  have htake : ∀ bytes : List UInt8,
      [bytes.getD 0 0, bytes.getD 1 0, bytes.getD 2 0].take bytes.length = bytes.take 3 := by
    intro bytes
    match bytes with
    | [] => rfl
    | [a] => rfl
    | [a, b] => rfl
    | a :: b :: c :: rest => simp
  unfold compactBytes Mpi.truncate
  rw [mantissa_getCompact, hsize, htake]

theorem mpiSize_le_iff {m : Nat} : mpiSize m ≤ k ↔ 2 * m < 256 ^ k := by
  by_cases h0 : m = 0
  · rw [h0]
    exact ⟨fun _ => Nat.pow_pos (by norm_num), fun _ => Nat.zero_le k⟩
  · have hpow : (256 : Nat) ^ k = 2 ^ (8 * k) := by
      rw [pow_mul]
      norm_num
    have hlog : (2 * m).log2 = m.log2 + 1 := Nat.log2_two_mul h0
    rw [hpow, ← Nat.log2_lt (by omega), hlog]
    unfold mpiSize
    rw [if_neg h0]
    split <;> omega

theorem length_encode (n : Int) : (Mpi.encode n).length = mpiSize n.natAbs := by
  refine eq_of_forall_ge_iff fun k => ?_
  rw [Mpi.length_encode_le_iff, mpiSize_le_iff]

theorem toNat_top (bytes : List UInt8) : (if bytes.length ≤ 3 then BigEndian.toNat bytes * 256 ^ (3 - bytes.length)
        else BigEndian.toNat bytes / 256 ^ (bytes.length - 3))
      = (bytes.getD 0 0).toNat * 2 ^ 16 + (bytes.getD 1 0).toNat * 2 ^ 8 + (bytes.getD 2 0).toNat := by
  have hnil : BigEndian.toNat [] = 0 := rfl
  match bytes with
  | [] => rfl
  | [a] => simp [BigEndian.toNat_cons, hnil]
  | [a, b] =>
    simp [BigEndian.toNat_cons, hnil]
    ring
  | a :: b :: c :: rest =>
    have hlength : (a :: b :: c :: rest).length = rest.length + 3 := rfl
    have hvalue : BigEndian.toNat (a :: b :: c :: rest)
        = 256 ^ rest.length * (a.toNat * 2 ^ 16 + b.toNat * 2 ^ 8 + c.toNat) + BigEndian.toNat rest := by
      simp only [BigEndian.toNat_cons, List.length_cons]
      ring
    have htop : BigEndian.toNat (a :: b :: c :: rest) / 256 ^ rest.length
        = a.toNat * 2 ^ 16 + b.toNat * 2 ^ 8 + c.toNat := by
      rw [hvalue, Nat.mul_add_div (Nat.pow_pos (by norm_num)), Nat.div_eq_of_lt (BigEndian.toNat_lt rest),
        Nat.add_zero]
    simp only [List.getD_cons_zero, List.getD_cons_succ, hlength, Nat.add_sub_cancel, htop]
    split
    · next hle =>
      have hrest : rest.length = 0 := by omega
      rw [hrest, pow_zero, Nat.div_one] at htop
      rw [htop, hrest]
      simp
    · rfl

theorem word_eq (n : Int) : ((Mpi.encode n).getD 0 0).toNat * 2 ^ 16 + ((Mpi.encode n).getD 1 0).toNat * 2 ^ 8
        + ((Mpi.encode n).getD 2 0).toNat
      = (if mpiSize n.natAbs ≤ 3 then n.natAbs * 256 ^ (3 - mpiSize n.natAbs)
          else n.natAbs / 256 ^ (mpiSize n.natAbs - 3)) + if n < 0 then 2 ^ 23 else 0 := by
  rw [← length_encode]
  cases hbytes : Mpi.encode n with
  | nil =>
    have hn := Mpi.decode_encode n
    rw [hbytes] at hn
    rw [← hn]
    rfl
  | cons b rest =>
    obtain ⟨c, -, hb, habs⟩ := Mpi.exists_of_encode_eq hbytes
    have hsign : (if n < 0 then 2 ^ 23 else 0) = (if n < 0 then 128 else 0) * 2 ^ 16 := by split <;> rfl
    rw [List.getD_cons_zero, hb, habs, hsign]
    have hlength : (b :: rest).length = (c :: rest).length := rfl
    rw [hlength, toNat_top]
    simp only [List.getD_cons_succ, List.getD_cons_zero, Nat.add_mul]
    omega

theorem getCompact_eq (n : Int) : bn.getCompact n = PupaCoin.getCompact n := by
  have h0 := ((Mpi.encode n).getD 0 0).toNat_lt
  have h1 := ((Mpi.encode n).getD 1 0).toNat_lt
  have h2 := ((Mpi.encode n).getD 2 0).toNat_lt
  rw [← UInt32.toNat_inj, toNat_getCompact, length_encode]
  unfold PupaCoin.getCompact
  simp only
  rw [UInt32.toNat_ofNat', Nat.add_assoc (mpiSize n.natAbs * 2 ^ 24), ← word_eq]
  omega

theorem encode_setCompact_getCompact (hlength : (Mpi.encode n).length ≤ 255) :
    Mpi.encode (bn.setCompact (bn.getCompact n)) = Mpi.truncate 3 (Mpi.encode n) := by
  rw [setCompact_eq_decode, compactBytes_getCompact bn hlength]
  exact Mpi.encode_decode (Mpi.minimal_truncate (by norm_num) (Mpi.minimal_encode n))

theorem two_mul_natAbs_setCompact_lt (nCompact : UInt32) : 2 * (bn.setCompact nCompact).natAbs < 256 ^ 255 := by
  have hlt := nCompact.toNat_lt
  have hlength := length_compactBytes nCompact
  rw [toNat_size] at hlength
  rw [setCompact_eq_decode]
  exact (Mpi.two_mul_natAbs_decode_lt _).trans_le (Nat.pow_le_pow_right (by norm_num) (by omega))

theorem setCompact_getCompact_le (hn : 0 ≤ n) : bn.setCompact (bn.getCompact n) ≤ n := by
  have hle : (bn.setCompact (bn.getCompact n)).natAbs ≤ n.natAbs := by
    by_cases hlength : (Mpi.encode n).length ≤ 255
    · have htrunc := Mpi.natAbs_decode_truncate_le 2 (Mpi.encode n)
      rw [Mpi.decode_encode] at htrunc
      rw [setCompact_eq_decode, compactBytes_getCompact bn hlength]
      exact htrunc
    · -- No compact form stands for a number of that length.
      have hlt := two_mul_natAbs_setCompact_lt bn (bn.getCompact n)
      rw [Mpi.length_encode_le_iff] at hlength
      omega
  omega

theorem sameTopBytes_iff (n : Int) :
    SameTopBytes (bn.bn2mpi (bn.setCompact (bn.getCompact n))) (bn.bn2mpi n) ↔ (Mpi.encode n).length ≤ 255 := by
  unfold SameTopBytes
  rw [bn.bn2mpi_eq, bn.bn2mpi_eq, Mpi.length_frame, Mpi.length_frame, Mpi.drop_frame, Mpi.drop_frame]
  constructor
  · rintro ⟨hlength, -⟩
    have hle := Mpi.length_encode_le_iff.mpr (two_mul_natAbs_setCompact_lt bn (bn.getCompact n))
    omega
  · intro hlength
    rw [encode_setCompact_getCompact bn hlength, Mpi.length_truncate, Mpi.take_truncate]
    exact ⟨rfl, rfl⟩

theorem getCompact_setCompact_getCompact (hlength : (Mpi.encode n).length ≤ 255) :
    bn.getCompact (bn.setCompact (bn.getCompact n)) = bn.getCompact n := by
  have hencode := encode_setCompact_getCompact bn hlength
  refine getCompact_congr bn ?_ ?_
  · rw [hencode, Mpi.length_truncate]
  · rw [hencode, Mpi.take_truncate]

theorem getCompact_setCompact (h : IsCanonical nCompact) : bn.getCompact (bn.setCompact nCompact) = nCompact := by
  obtain ⟨hminimal, hunused⟩ := h
  obtain ⟨a, b, c, habc, hvalue⟩ := exists_mantissa nCompact
  have hlt := nCompact.toNat_lt
  rw [compactVch_eq, Mpi.drop_frame] at hminimal
  have hread : ∀ i < 3, (compactBytes nCompact).getD i 0 = [a, b, c].getD i 0 := by
    intro i hi
    rw [getD_compactBytes hi hunused, habc]
  rw [← UInt32.toNat_inj, toNat_getCompact, setCompact_eq_decode, Mpi.encode_decode hminimal, length_compactBytes,
    toNat_size, hread 0 (by decide), hread 1 (by decide), hread 2 (by decide)]
  simp only [List.getD_cons_zero, List.getD_cons_succ]
  omega

theorem length_encode_le_max_iff (hn : 0 ≤ n) : (Mpi.encode n).length ≤ 255 ↔ n < 2 ^ 2039 := by
  have hbase : (256 : Nat) = 2 ^ 8 := rfl
  have hpow : (256 : Nat) ^ 255 = 2 * 2 ^ 2039 := by rw [← pow_succ', hbase, ← pow_mul]
  have hmax : ((2 ^ 2039 : Nat) : Int) = 2 ^ 2039 := Nat.cast_pow 2 2039
  obtain ⟨m, rfl⟩ := Int.eq_ofNat_of_zero_le hn
  rw [Mpi.length_encode_le_iff, hpow, Nat.mul_lt_mul_left (by norm_num), Int.natAbs_natCast, ← hmax, Int.ofNat_lt]

end BnMpi

/-- **Compact targets.** The compact form of a number that is not negative stands for at most it, and keeps its length and
    its first three bytes just where the length fits the form's top byte; then packing again changes nothing.
    A canonical form is the one of what it stands for. -/
theorem compact_laws (bn : BnMpi) : (∀ v : Int, 0 ≤ v → bn.setCompact (bn.getCompact v) ≤ v ∧
        (SameTopBytes (bn.bn2mpi (bn.setCompact (bn.getCompact v))) (bn.bn2mpi v) ↔ v < 2 ^ 2039) ∧
        (v < 2 ^ 2039 → bn.getCompact (bn.setCompact (bn.getCompact v)) = bn.getCompact v)) ∧
      ∀ nCompact, IsCanonical nCompact → bn.getCompact (bn.setCompact nCompact) = nCompact := by
  refine ⟨fun v hv => ⟨bn.setCompact_getCompact_le hv, ?_, fun hlt => ?_⟩, fun _ h => bn.getCompact_setCompact h⟩
  · rw [bn.sameTopBytes_iff, BnMpi.length_encode_le_max_iff hv]
  · exact bn.getCompact_setCompact_getCompact ((BnMpi.length_encode_le_max_iff hv).mpr hlt)

namespace Sample

def bnMpi : BnMpi where
  bn2mpi n := Mpi.frame (Mpi.encode n)
  mpi2bn vch := Mpi.decode (vch.drop 4)
  bn2mpi_eq _ := rfl
  mpi2bn_frame _ _ := rfl

theorem sampleCompact_isCanonical : IsCanonical 0x1d00ffff := by
  have hdrop : (mantissa 0x1d00ffff).drop ((0x1d00ffff : UInt32) >>> 24).toNat = [] := by decide
  refine ⟨by decide, ?_⟩
  rw [hdrop]
  exact nofun

theorem compact_laws_sample : bnMpi.setCompact (bnMpi.getCompact 0x80123456) ≤ 0x80123456 ∧
      bnMpi.getCompact (bnMpi.setCompact (bnMpi.getCompact 0x80123456)) = bnMpi.getCompact 0x80123456 ∧
      bnMpi.getCompact (bnMpi.setCompact 0x1d00ffff) = 0x1d00ffff := by
  obtain ⟨hnumbers, hforms⟩ := compact_laws bnMpi
  obtain ⟨hle, -, hagain⟩ := hnumbers 0x80123456 (by decide)
  have hpow : ∀ k, 32 ≤ k → (0x80123456 : Int) < 2 ^ k := fun k hk =>
    calc (0x80123456 : Int) < 2 ^ 32 := by norm_num
      _ ≤ 2 ^ k := pow_le_pow_right₀ (by norm_num) hk
  exact ⟨hle, hagain (hpow 2039 (by norm_num)), hforms 0x1d00ffff sampleCompact_isCanonical⟩

/-- The first number with a string of 256 bytes: the length in its compact form is 0. -/
theorem compact_overflow : (0 : Int) ≤ 2 ^ 2039 ∧
      ¬ SameTopBytes (bnMpi.bn2mpi (bnMpi.setCompact (bnMpi.getCompact (2 ^ 2039)))) (bnMpi.bn2mpi (2 ^ 2039)) ∧
      bnMpi.getCompact (bnMpi.setCompact (bnMpi.getCompact (2 ^ 2039))) ≠ bnMpi.getCompact (2 ^ 2039) := by
  have hpos : (0 : Int) ≤ 2 ^ 2039 := by positivity
  have hget : bnMpi.getCompact (2 ^ 2039) = 0x8000 := by
    have hnat : ∀ k, ((2 : Int) ^ k).natAbs = 2 ^ k := fun k => Int.natAbs_pow 2 k
    have hsize : mpiSize (2 ^ 2039) = 256 := by
      unfold mpiSize
      rw [Nat.log2_two_pow, if_neg (by positivity)]
      rfl
    have hword : 2 ^ 2039 / 256 ^ (256 - 3) = 2 ^ 15 := by
      have hpow : (256 : Nat) ^ (256 - 3) = 2 ^ 2024 := by
        have hbase : (256 : Nat) = 2 ^ 8 := rfl
        nth_rewrite 1 [hbase]
        rw [← pow_mul]
      rw [hpow, Nat.pow_div (by norm_num) (by norm_num)]
    have hnonneg : ¬ (2 : Int) ^ 2039 < 0 := not_lt.mpr hpos
    have hlong : ¬ 256 ≤ 3 := by decide
    rw [bnMpi.getCompact_eq]
    unfold getCompact
    simp only [hnat, hsize, if_neg hnonneg, if_neg hlong, hword]
    decide
  have hset : bnMpi.setCompact 0x8000 = 0 := by decide
  refine ⟨hpos, ?_, ?_⟩
  · rw [bnMpi.sameTopBytes_iff, BnMpi.length_encode_le_max_iff hpos]
    exact lt_irrefl _
  · rw [hget, hset]
    decide

end Sample

end PupaCoin
