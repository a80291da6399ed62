import PupaCoin.Net.NetAddr

/-!
# Subnets (`netbase.cpp`)

A subnet is an address and a mask, read from a string with a prefix length or with a mask behind the slash. The bits of
an address are counted from the highest one of its first byte.
-/

namespace PupaCoin

open Decimal

/-! ## Reading -/

/-- What `strtol` takes the digits from. -/
def behindSign (psz : List UInt8) : List UInt8 :=
  match psz.dropWhile isSpace with
  | [] => []
  | c :: rest => if c = 0x2d ∨ c = 0x2b then rest else c :: rest

/-- `ParseInt32`: `strtol` has to end at the end of the string, where the empty string ends already. -/
def parseInt32 (str : List UInt8) : Option Int :=
  let psz := cString str
  if psz ≠ [] ∧ (behindSign psz = [] ∨ (behindSign psz).any (!isDigit ·)) then none
  else if -2 ^ 31 ≤ strtoll psz ∧ strtoll psz < 2 ^ 31 then some (strtoll psz) else none

/-- `LookupHost` for one address; the parameter is `getaddrinfo`, with no address where it fails. -/
def lookupHost (getaddrinfo : List UInt8 → Bool → List IpBytes) (pszName : List UInt8) (fAllowLookup : Bool) :
    Option IpBytes :=
  let strHost := cString pszName
  if strHost = [] then none
  else
    let strHost :=
      if strHost.head? = some 0x5b ∧ strHost.getLast? = some 0x5d then (strHost.drop 1).take (strHost.length - 2)
      else strHost
    match setSpecial strHost with
    | some addr => some addr
    | none => (getaddrinfo strHost fAllowLookup).head?

/-- `find_last_of('/')` and the parts on both sides. -/
def splitSlash (str : List UInt8) : List UInt8 × Option (List UInt8) :=
  if 0x2f ∈ str then
    let back := str.reverse.takeWhile (· != 0x2f)
    (str.take (str.length - back.length - 1), some back.reverse)
  else (str, none)

def IpBytes.isValid (ip : IpBytes) : Bool :=
  !ip.startsWith (pchIPv4.drop 3) && !ip.startsWith (List.replicate 16 0) &&
    !ip.startsWith [0x20, 0x01, 0x0d, 0xb8] &&
    !(ip.isIPv4 && (ip.startsWith (pchIPv4 ++ List.replicate 4 0xff) || ip.startsWith (pchIPv4 ++ List.replicate 4 0)))

structure CSubNet where
  network : IpBytes
  netmask : IpBytes
  valid : Bool
deriving DecidableEq

/-- The loop that clears the bits `[n..127]`, of which `k` are left. -/
def clearBits : Nat → IpBytes → IpBytes
  | 0, netmask => netmask
  | k + 1, netmask =>
    let n := 128 - (k + 1)
    let place := Fin.ofNat 16 (n / 8)
    clearBits k (Function.update netmask place (netmask place &&& ~~~(1 <<< UInt8.ofNat (n % 8))))

/-- Where the bits of an address begin. -/
def IpBytes.noffset (ip : IpBytes) : Nat := if ip.isIPv4 then 12 * 8 else 0

namespace CSubNet

/-- `CSubNet(strSubnet, fAllowLookup)`. -/
def ofString (getaddrinfo : List UInt8 → Bool → List IpBytes) (fAllowLookup : Bool) (strSubnet : List UInt8) : CSubNet :=
  let (strAddress, strNetmask) := splitSlash strSubnet
  match lookupHost getaddrinfo strAddress fAllowLookup with
  | none => ⟨fun _ => 0, fun _ => 255, false⟩
  | some network =>
    match strNetmask with
    | none => ⟨network, fun _ => 255, true⟩
    | some strNetmask =>
      match parseInt32 strNetmask with
      | some n =>
        if 0 ≤ n ∧ n ≤ 128 - network.noffset then
          ⟨network, clearBits (128 - (n.toNat + network.noffset)) fun _ => 255, true⟩
        else ⟨network, fun _ => 255, false⟩
      | none =>
        match lookupHost getaddrinfo strNetmask false with
        | some mask => ⟨network, fun i => if network.isIPv4 && decide (i < 12) then 255 else mask i, true⟩
        | none => ⟨network, fun _ => 255, false⟩

/-- `Match`. -/
def isMatch (s : CSubNet) (addr : IpBytes) : Bool :=
  s.valid && addr.isValid && decide (∀ i, addr i &&& s.netmask i = s.network i)

def netmaskBits (x : UInt8) : Option Nat := [0x00, 0x80, 0xc0, 0xe0, 0xf0, 0xf8, 0xfc, 0xfe, 0xff].idxOf? x

/-- The prefix length that `ToString` makes of the mask. -/
def cidr (isIPv4 : Bool) (netmask : IpBytes) : Option Nat :=
  let bytes := (List.ofFn netmask).drop (if isIPv4 then 12 else 0)
  let full := 8 * (bytes.takeWhile (· == 0xff)).length
  match bytes.dropWhile (· == 0xff) with
  | [] => some full
  | x :: rest => (netmaskBits x).bind fun bits => if rest.all (· == 0) then some (full + bits) else none

/-- The text of a mask that is not the one of a prefix length. -/
def maskText (isIPv4 : Bool) (netmask : IpBytes) : List UInt8 :=
  if isIPv4 then dottedQuad netmask else hexGroups netmask

def toString (getnameinfo : IpBytes → Option (List UInt8)) (s : CSubNet) : List UInt8 :=
  s.network.toStringIP getnameinfo ++ 0x2f ::
    match cidr s.network.isIPv4 s.netmask with
    | some cidr => Decimal.ofNat cidr
    | none => maskText s.network.isIPv4 s.netmask

end CSubNet

namespace IpBytes

def bit (ip : IpBytes) (t : Nat) : Bool := (ip (Fin.ofNat 16 (t / 8))).toBitVec.getLsbD (7 - t % 8)

/-- Both are IPv4 addresses, or both are IPv6 addresses. -/
def sameKind (a b : IpBytes) : Bool := (a.isIPv4 && b.isIPv4) || (a.isIPv6 && b.isIPv6)

/-- Valid addresses of the kind of `a`. -/
def Usable (a b : IpBytes) : Prop := b.isValid = true ∧ a.sameKind b = true

def AgreesOn (n : Nat) (a b : IpBytes) : Prop := ∀ t < n, a.bit t = b.bit t

/-- No bit is set behind the first `n`. -/
def NoHostBits (n : Nat) (a : IpBytes) : Prop := ∀ t < 128, n ≤ t → a.bit t = false

/-- No valid address of its kind has the first `n` bits of `a`. -/
def Alone (n : Nat) (a : IpBytes) : Prop := ∀ b, a.Usable b → ¬a.AgreesOn n b

end IpBytes

/-- The subnet matches the valid addresses of the kind of `a` that agree with it on the first `n` bits. -/
def CSubNet.Follows (s : CSubNet) (n : Nat) (a : IpBytes) : Prop :=
  ∀ b, a.Usable b → (s.isMatch b = true ↔ a.AgreesOn n b)

section Bits

variable {a b x y : IpBytes} {k n t u : Nat}

/-- The place of a bit of the mask in the order in which the loop clears them. -/
def clearPlace (t : Nat) : Nat := 8 * (t / 8) + (7 - t % 8)

theorem bit_and (a b : IpBytes) (t : Nat) : IpBytes.bit (fun i => a i &&& b i) t = (a.bit t && b.bit t) :=
  BitVec.getLsbD_and

theorem ip_ext (h : ∀ t < 128, x.bit t = y.bit t) : x = y := by
  funext i
  refine UInt8.toBitVec_inj.mp (BitVec.eq_of_getLsbD_eq fun j hj => ?_)
  have hbit := h (8 * i.val + (7 - j)) (by omega)
  unfold IpBytes.bit at hbit
  rw [show (8 * i.val + (7 - j)) / 8 = i.val by omega, show 7 - (8 * i.val + (7 - j)) % 8 = j by omega,
    Fin.ofNat_val_eq_self] at hbit
  exact hbit

theorem ofNat_div_eq_iff (ht : t < 128) (hu : u < 128) : Fin.ofNat 16 (t / 8) = Fin.ofNat 16 (u / 8) ↔ t / 8 = u / 8 := by
  rw [Fin.ext_iff, Fin.val_ofNat, Fin.val_ofNat]
  omega

theorem bit_update (ip : IpBytes) (value : UInt8) (ht : t < 128) (hu : u < 128) :
    IpBytes.bit (Function.update ip (Fin.ofNat 16 (u / 8)) value) t =
      if t / 8 = u / 8 then value.toBitVec.getLsbD (7 - t % 8) else ip.bit t := by
  unfold IpBytes.bit
  split_ifs with hplace
  · rw [(ofNat_div_eq_iff ht hu).mpr hplace, Function.update_self]
  · rw [Function.update_of_ne fun heq => hplace ((ofNat_div_eq_iff ht hu).mp heq)]

theorem getLsbD_oneBit : ∀ m j : Fin 8, (1 <<< UInt8.ofNat m : UInt8).toBitVec.getLsbD j = decide (j = m) ∧
    (~~~(1 <<< UInt8.ofNat m) : UInt8).toBitVec.getLsbD j = !decide (j = m) := by
  decide

/-- By induction on the bits that are left to clear. -/
theorem bit_clearBits (netmask : IpBytes) (hk : k ≤ 128) (ht : t < 128) :
    (clearBits k netmask).bit t = (netmask.bit t && decide (clearPlace t < 128 - k)) := by
  induction k generalizing netmask with
  | zero =>
    have hplace : clearPlace t < 128 - 0 := by unfold clearPlace; omega
    rw [clearBits, decide_eq_true hplace, Bool.and_true]
  | succ k ih =>
    have hn : 128 - (k + 1) < 128 := by omega
    have hclear := (getLsbD_oneBit ⟨(128 - (k + 1)) % 8, by omega⟩ ⟨7 - t % 8, by omega⟩).2
    rw [clearBits]
    dsimp only at hclear ⊢
    rw [ih _ (by omega), bit_update _ _ ht hn]
    split_ifs with hplace
    · rw [UInt8.toBitVec_and, BitVec.getLsbD_and, hclear, ← hplace, Bool.and_assoc]
      unfold IpBytes.bit clearPlace
      congr 1
      rw [← decide_not, ← Bool.decide_and, decide_eq_decide, Fin.mk.injEq]
      omega
    · unfold clearPlace
      congr 1
      rw [decide_eq_decide]
      omega

def prefixMask (n : Nat) : IpBytes := clearBits (128 - n) fun _ => 255

theorem bit_prefixMask (hn : n ≤ 128) (ht : t < 128) : (prefixMask n).bit t = decide (clearPlace t < n) := by
  have hfull : ∀ j : Fin 8, (255 : UInt8).toBitVec.getLsbD j = true := by decide
  have hone : IpBytes.bit (fun _ => 255) t = true := hfull ⟨7 - t % 8, by omega⟩
  rw [prefixMask, bit_clearBits _ (by omega) ht, hone, Bool.true_and, Nat.sub_sub_self hn]

theorem prefixMask_eq (hn : n ≤ 128) : prefixMask n = fun i =>
    if 8 * i.val + 8 ≤ n then 255 else if n ≤ 8 * i.val then 0 else UInt8.ofNat (2 ^ (n % 8) - 1) := by
  have hbits : ∀ r j : Fin 8, (255 : UInt8).toBitVec.getLsbD j = true ∧ (0 : UInt8).toBitVec.getLsbD j = false ∧
      (UInt8.ofNat (2 ^ r.val - 1)).toBitVec.getLsbD j = decide (j < r) := by decide
  refine ip_ext fun t ht => ?_
  obtain ⟨hone, hzero, hsome⟩ := hbits ⟨n % 8, by omega⟩ ⟨7 - t % 8, by omega⟩
  rw [bit_prefixMask hn ht]
  unfold IpBytes.bit clearPlace
  dsimp only at hone hzero hsome ⊢
  rw [Fin.val_ofNat]
  split_ifs with hfull hnone
  · rw [hone, decide_eq_true_iff]
    omega
  · rw [hzero, decide_eq_false_iff_not]
    omega
  · rw [hsome, decide_eq_decide, Fin.mk_lt_mk]
    omega

def flipBit (t : Nat) (ip : IpBytes) : IpBytes :=
  Function.update ip (Fin.ofNat 16 (t / 8)) (ip (Fin.ofNat 16 (t / 8)) ^^^ (1 <<< UInt8.ofNat (7 - t % 8)))

theorem bit_flipBit (ip : IpBytes) (ht : t < 128) (hu : u < 128) :
    (flipBit t ip).bit u = (ip.bit u ^^ decide (u = t)) := by
  rw [flipBit, bit_update _ _ hu ht]
  split_ifs with hplace
  · have hbit := (getLsbD_oneBit ⟨7 - t % 8, by omega⟩ ⟨7 - u % 8, by omega⟩).1
    dsimp only at hbit
    rw [UInt8.toBitVec_xor, BitVec.getLsbD_xor, hbit, ← hplace]
    unfold IpBytes.bit
    congr 1
    rw [decide_eq_decide, Fin.mk.injEq]
    omega
  · rw [decide_eq_false fun heq => hplace (congrArg (· / 8) heq), Bool.xor_false]

theorem bit_flipBit_ne (ip : IpBytes) (ht : t < 128) : (flipBit t ip).bit t ≠ ip.bit t := by
  rw [bit_flipBit ip ht ht, decide_eq_true rfl]
  cases ip.bit t <;> decide

theorem ne_of_bit_ne {i : Fin 16} (hi : Fin.ofNat 16 (t / 8) = i) (h : x.bit t ≠ y.bit t) : x i ≠ y i := by
  intro heq
  refine h ?_
  unfold IpBytes.bit
  rw [hi, heq]

theorem flipBit_of_ne (ip : IpBytes) {i : Fin 16} (hi : i ≠ Fin.ofNat 16 (t / 8)) : flipBit t ip i = ip i :=
  Function.update_of_ne hi _ _

end Bits

section Usable

variable {a b x y : IpBytes} {p q : List UInt8}

/-- The first bytes of addresses that are not valid or not of the kind. -/
def unusable (isIPv4 : Bool) : List (List UInt8) :=
  [pchIPv4.drop 3, List.replicate 16 0, [0x20, 0x01, 0x0d, 0xb8]] ++
    if isIPv4 then [pchIPv4 ++ List.replicate 4 0xff, pchIPv4 ++ List.replicate 4 0] else [pchIPv4, pchOnionCat, pchGarliCat]

theorem unusable_apart : ∀ isIPv4 : Bool, ∀ p ∈ unusable isIPv4, ∀ q ∈ unusable isIPv4, p = q ∨
    ∃ i j : Fin 16, i ≠ j ∧ (i.val < p.length ∧ i.val < q.length ∧ p.getD i 0 ≠ q.getD i 0) ∧
      j.val < p.length ∧ j.val < q.length ∧ p.getD j 0 ≠ q.getD j 0 := by
  decide +kernel

theorem startsWith_iff : b.startsWith p = true ↔ ∀ i : Fin 16, i.val < p.length → p.getD i 0 = b i := by
  rw [IpBytes.startsWith, decide_eq_true_iff]
  refine forall_congr' fun i => ⟨fun h hi => ?_, fun h => ?_⟩
  · rwa [List.getD_eq_getElem _ _ hi] at h ⊢
  · by_cases hi : i.val < p.length
    · rw [List.getD_eq_getElem _ _ hi, ← List.getD_eq_getElem _ 0 hi, h hi]
    · exact List.getD_eq_default _ _ (Nat.not_lt.mp hi)

theorem usable_iff : a.Usable b ↔ (a.isIPv4 || a.isIPv6) = true ∧ b.isIPv4 = a.isIPv4 ∧
    ∀ p ∈ unusable a.isIPv4, b.startsWith p = false := by
  unfold IpBytes.Usable IpBytes.isValid IpBytes.sameKind IpBytes.isIPv6 unusable
  cases a.isIPv4 with
  | false =>
    simp only [Bool.false_and, Bool.false_or, Bool.not_false, Bool.true_and, IpBytes.isIPv4, IpBytes.isTor, IpBytes.isI2P]
    cases hb : b.startsWith pchIPv4 with
    | false =>
      simp [hb]
      tauto
    | true => simp [hb]
  | true =>
    simp only [Bool.true_and, Bool.not_true, Bool.false_and, Bool.or_false]
    cases b.isIPv4 with
    | false => simp
    | true =>
      simp
      tauto

theorem usable_or {k : Fin 16} (hb : a.Usable b) (hk : a.isIPv4 = true → 12 ≤ k.val) (hx : ∀ i ≠ k, x i = b i)
    (hy : ∀ i ≠ k, y i = b i) (hne : x k ≠ y k) : a.Usable x ∨ a.Usable y := by
  obtain ⟨hkind, hsame, hfree⟩ := usable_iff.1 hb
  -- the kind stays, for the bytes of the prefix of IPv4 do
  have hIPv4 (z : IpBytes) (hz : ∀ i ≠ k, z i = b i) (hbad : a.isIPv4 = false → z.isIPv4 = false) : z.isIPv4 = a.isIPv4 := by
    cases ha : a.isIPv4 with
    | false => exact hbad ha
    | true =>
      refine startsWith_iff.2 fun i hi => ?_
      rw [hz i fun h => absurd (hk ha) (by rw [← h]; exact Nat.not_le.mpr hi)]
      exact startsWith_iff.1 (hsame.trans ha) i hi
  have hstarts (z : IpBytes) (hz : ∀ i ≠ k, z i = b i) (hnot : ¬a.Usable z) : ∃ p ∈ unusable a.isIPv4, z.startsWith p = true := by
    by_contra hnone
    have hall : ∀ p ∈ unusable a.isIPv4, z.startsWith p = false := fun p hp =>
      Bool.eq_false_iff.mpr fun h => hnone ⟨p, hp, h⟩
    refine hnot (usable_iff.2 ⟨hkind, hIPv4 z hz fun ha => ?_, hall⟩)
    exact hall pchIPv4 (by rw [ha]; decide)
  by_contra hneither
  obtain ⟨p, hp, hxp⟩ := hstarts x hx fun h => hneither (.inl h)
  obtain ⟨q, hq, hyq⟩ := hstarts y hy fun h => hneither (.inr h)
  rw [startsWith_iff] at hxp hyq
  rcases unusable_apart _ p hp q hq with rfl | ⟨i, j, hij, hi, hj⟩
  · -- the byte is behind the pattern, so that the usable address has it
    have hbehind : ¬k.val < p.length := fun hlt => hne ((hxp k hlt).symm.trans (hyq k hlt))
    have hbp : b.startsWith p = true := startsWith_iff.2 fun i hi => by
      rw [← hx i fun h => hbehind (h ▸ hi)]
      exact hxp i hi
    rw [hfree p hp] at hbp
    cases hbp
  · have hdiffer (l : Fin 16) (hl : l ≠ k) (hp : l.val < p.length) (hq : l.val < q.length) : p.getD l 0 = q.getD l 0 := by
      rw [hxp l hp, hyq l hq, hx l hl, hy l hl]
    by_cases hik : i = k
    · exact hj.2.2 (hdiffer j (fun h => hij (hik.trans h.symm)) hj.1 hj.2.1)
    · exact hi.2.2 (hdiffer i hik hi.1 hi.2.1)

end Usable

section Match

variable {a b m : IpBytes} {n : Nat}

theorem isMatch_iff {s : CSubNet} (hs : s.valid = true) (hb : b.isValid = true) :
    s.isMatch b = true ↔ ∀ t < 128, (b.bit t && s.netmask.bit t) = s.network.bit t := by
  rw [CSubNet.isMatch, hs, hb, Bool.true_and, Bool.true_and, decide_eq_true_iff]
  refine ⟨fun h t _ => ?_, fun h => ?_⟩
  · rw [← bit_and, show (fun i => b i &&& s.netmask i) = s.network from funext h]
  · exact congrFun (ip_ext fun t ht => (bit_and b s.netmask t).trans (h t ht))

theorem follows_netmask_iff (hn : n ≤ 128) (hm : ∀ t < 128, m.bit t = decide (t < n)) :
    (CSubNet.mk a m true).Follows n a ↔ a.NoHostBits n ∨ a.Alone n := by
  have hmatch (b : IpBytes) (hb : a.Usable b) : (CSubNet.mk a m true).isMatch b = true ↔ a.AgreesOn n b ∧ a.NoHostBits n := by
    rw [isMatch_iff rfl hb.1]
    constructor
    · refine fun h => ⟨fun t ht => ?_, fun t ht hge => ?_⟩
      · rw [← h t (by omega), hm t (by omega), decide_eq_true ht, Bool.and_true]
      · rw [← h t ht, hm t ht, decide_eq_false (Nat.not_lt.mpr hge), Bool.and_false]
    · rintro ⟨hagree, hfree⟩ t ht
      rw [hm t ht]
      by_cases hlt : t < n
      · rw [decide_eq_true hlt, Bool.and_true, hagree t hlt]
      · rw [decide_eq_false hlt, Bool.and_false]
        exact (hfree t ht (Nat.not_lt.mp hlt)).symm
  constructor
  · intro h
    by_cases halone : a.Alone n
    · exact .inr halone
    · obtain ⟨b, hb, hagree⟩ := not_forall₂.mp halone
      exact .inl ((hmatch b hb).mp ((h b hb).mpr (not_not.mp hagree))).2
  · rintro (hfree | halone) b hb
    · exact (hmatch b hb).trans ⟨fun h => h.1, fun h => ⟨h, hfree⟩⟩
    · exact (hmatch b hb).trans (iff_of_false (fun h => halone b hb h.1) (halone b hb))

theorem follows_prefix_iff_of_uneven (hn : n ≤ 128) (hoffset : a.noffset ≤ n) (hwhole : n % 8 ≠ 0) :
    (CSubNet.mk a (prefixMask n) true).Follows n a ↔ a.Alone n := by
  have hkind : a.isIPv4 = true → 12 ≤ (Fin.ofNat 16 (n / 8)).val := by
    intro ha
    rw [IpBytes.noffset, if_pos ha] at hoffset
    rw [Fin.val_ofNat]
    omega
  have hmatch (b : IpBytes) (hb : a.Usable b) := (isMatch_iff (s := ⟨a, prefixMask n, true⟩) rfl hb.1).trans
    (forall₂_congr fun t ht => by rw [bit_prefixMask hn ht])
  -- the lowest and the highest bit of the byte
  have hlow : 8 * (n / 8) + 7 < 128 := by omega
  have hhigh : 8 * (n / 8) < 128 := by omega
  have hplace (t : Nat) (ht : t = 8 * (n / 8) + 7 ∨ t = 8 * (n / 8)) : Fin.ofNat 16 (t / 8) = Fin.ofNat 16 (n / 8) :=
    (ofNat_div_eq_iff (by omega) (by omega)).mpr (by omega)
  constructor
  · intro h b hb hagree
    have hmatched := (hmatch b hb).mp ((h b hb).mpr hagree)
    have hother := usable_or (x := flipBit (8 * (n / 8) + 7) b) (y := flipBit (8 * (n / 8)) b) hb hkind
      (fun i hi => flipBit_of_ne b (by rwa [hplace _ (.inl rfl)])) (fun i hi => flipBit_of_ne b (by rwa [hplace _ (.inr rfl)]))
      (ne_of_bit_ne (hplace _ (.inr rfl)) (by
        rw [bit_flipBit b hlow hhigh, decide_eq_false (by omega), Bool.xor_false]
        exact (bit_flipBit_ne b hhigh).symm))
    rcases hother with hx | hy
    · have hxmatch := (hmatch _ hx).mp ((h _ hx).mpr fun t ht => by
        rw [bit_flipBit b hlow (by omega), decide_eq_false (by omega), Bool.xor_false, hagree t ht])
      have hbit := (hxmatch _ hlow).trans (hmatched _ hlow).symm
      have hkept : clearPlace (8 * (n / 8) + 7) < n := by unfold clearPlace; omega
      rw [decide_eq_true hkept, Bool.and_true, Bool.and_true] at hbit
      exact bit_flipBit_ne b hlow hbit
    · have hyagree := (h _ hy).mp ((hmatch _ hy).mpr fun t ht => by
        rw [← hmatched t ht, bit_flipBit b hhigh ht]
        by_cases heq : t = 8 * (n / 8)
        · have hcleared : ¬clearPlace t < n := by unfold clearPlace; omega
          rw [decide_eq_false hcleared, Bool.and_false, Bool.and_false]
        · rw [decide_eq_false heq, Bool.xor_false])
      exact bit_flipBit_ne b hhigh ((hyagree (8 * (n / 8)) (by omega)).symm.trans (hagree _ (by omega)))
  · intro halone b hb
    refine iff_of_false (fun hmatched => ?_) (halone b hb)
    rw [hmatch b hb] at hmatched
    -- the byte of the network in the address, and the same with another lowest bit
    let x : IpBytes := Function.update b (Fin.ofNat 16 (n / 8)) (a (Fin.ofNat 16 (n / 8)))
    have hx (t : Nat) (ht : t < n) : a.bit t = x.bit t := by
      rw [bit_update _ _ (by omega) (by omega)]
      split_ifs with hsame
      · unfold IpBytes.bit
        rw [(ofNat_div_eq_iff (by omega) (by omega)).mpr hsame]
      · have hkept : clearPlace t < n := by unfold clearPlace; omega
        rw [← hmatched t (by omega), decide_eq_true hkept, Bool.and_true]
    have hxoff (i : Fin 16) (hi : i ≠ Fin.ofNat 16 (n / 8)) : x i = b i := Function.update_of_ne hi _ _
    have hother := usable_or (x := x) (y := flipBit (8 * (n / 8) + 7) x) hb hkind hxoff
      (fun i hi => (flipBit_of_ne x (by rwa [hplace _ (.inl rfl)])).trans (hxoff i hi))
      (ne_of_bit_ne (hplace _ (.inl rfl)) (bit_flipBit_ne x hlow).symm)
    rcases hother with husable | husable
    · exact halone _ husable hx
    · refine halone _ husable fun t ht => ?_
      rw [bit_flipBit x hlow (by omega), decide_eq_false (by omega), Bool.xor_false, hx t ht]

theorem follows_prefix_iff (hn : n ≤ 128) (hoffset : a.noffset ≤ n) :
    (CSubNet.mk a (prefixMask n) true).Follows n a ↔ n % 8 = 0 ∧ a.NoHostBits n ∨ a.Alone n := by
  by_cases hwhole : n % 8 = 0
  · rw [follows_netmask_iff hn fun t ht => ?_]
    · exact or_congr_left (and_iff_right hwhole).symm
    · rw [bit_prefixMask hn ht, decide_eq_decide]
      unfold clearPlace
      omega
  · rw [follows_prefix_iff_of_uneven hn hoffset hwhole]
    exact ⟨.inr, fun h => h.resolve_left fun hboth => hwhole hboth.1⟩

end Match

section Strings

variable {getaddrinfo : List UInt8 → Bool → List IpBytes} {getnameinfo : IpBytes → Option (List UInt8)}
  {fAllowLookup : Bool} {a m : IpBytes} {text mask front back : List UInt8} {c : UInt8} {n : Nat}

theorem bne_of_notMem (h : c ∉ front) : ∀ d ∈ front, (d != c) = true := by
  intro d hd
  rw [bne_iff_ne]
  rintro rfl
  exact h hd

theorem splitSlash_append (hback : 0x2f ∉ back) : splitSlash (front ++ 0x2f :: back) = (front, some back) := by
  have htake : (front ++ 0x2f :: back).reverse.takeWhile (· != 0x2f) = back.reverse := by
    rw [List.reverse_append, List.reverse_cons, List.append_assoc, List.takeWhile_append_of_pos
      (bne_of_notMem fun h => hback (List.mem_reverse.mp h))]
    exact (congrArg (back.reverse ++ ·) (List.takeWhile_cons_of_neg (by decide))).trans (List.append_nil _)
  have hlength : (front ++ 0x2f :: back).length - back.reverse.length - 1 = front.length := by
    rw [List.length_append, List.length_cons, List.length_reverse]
    omega
  unfold splitSlash
  rw [if_pos (List.mem_append_right _ List.mem_cons_self)]
  dsimp only
  rw [htake, hlength, List.take_left, List.reverse_reverse]

theorem isDigit_of_mem_ofNat (hc : c ∈ Decimal.ofNat n) : isDigit c = true := by
  obtain ⟨d, ds, heq, hdigits, -⟩ := ofNat_eq n
  exact hdigits c (heq ▸ hc)

theorem digit_ne (hc : isDigit c = true) : c ≠ 0 ∧ c ≠ 0x2f := by
  constructor <;> rintro rfl <;> cases hc

theorem mem_hexOf (hc : c ∈ hexOf n) : c ≠ 0 ∧ c ≠ 0x2f := by
  obtain ⟨d, -, rfl⟩ := List.mem_map.mp hc
  by_cases hd : d < 16
  · have hall : ∀ c ∈ ([0x30, 0x31, 0x32, 0x33, 0x34, 0x35, 0x36, 0x37, 0x38, 0x39, 0x61, 0x62, 0x63, 0x64, 0x65, 0x66] :
        List UInt8), c ≠ 0 ∧ c ≠ 0x2f := by decide +kernel
    rw [List.getD_eq_getElem _ _ hd]
    exact hall _ (List.getElem_mem hd)
  · rw [List.getD_eq_default _ _ (Nat.not_lt.mp hd)]
    decide

theorem parseInt32_ofNat (hn : n < 2 ^ 31) : parseInt32 (Decimal.ofNat n) = some (n : Int) := by
  have hpsz : cString (Decimal.ofNat n) = Decimal.ofNat n :=
    List.takeWhile_eq_self_iff.mpr fun c hc => bne_iff_ne.mpr (digit_ne (isDigit_of_mem_ofNat hc)).1
  obtain ⟨c, ds, heq, hdigits, -⟩ := ofNat_eq n
  obtain ⟨hspace, hminus, hplus⟩ := of_isDigit (hdigits c List.mem_cons_self)
  have hbehind : behindSign (Decimal.ofNat n) = c :: ds := by
    rw [behindSign, heq, List.dropWhile_cons_of_neg (by rw [hspace]; decide)]
    exact if_neg fun h => h.elim hminus hplus
  have hall : ¬(c :: ds).any (!isDigit ·) = true := by
    rw [List.any_eq_true]
    rintro ⟨d, hd, hnot⟩
    rw [hdigits d hd] at hnot
    cases hnot
  unfold parseInt32
  rw [hpsz]
  dsimp only
  rw [hbehind, if_neg fun h => h.2.elim (List.cons_ne_nil _ _) hall, strtoll_ofNat (by omega), if_pos (by omega)]

theorem parseInt32_of_mem (hfront : 0 ∉ front) (hc : c ≠ 0 ∧ isSpace c = false ∧ c ≠ 0x2d ∧ c ≠ 0x2b ∧ isDigit c = false) :
    parseInt32 (front ++ c :: back) = none := by
  obtain ⟨hnull, hspace, hminus, hplus, hdigit⟩ := hc
  have hpsz : c ∈ cString (front ++ c :: back) := by
    rw [cString, List.takeWhile_append_of_pos (bne_of_notMem hfront),
      List.takeWhile_cons_of_pos (p := (· != 0)) (bne_iff_ne.mpr hnull)]
    exact List.mem_append_right _ List.mem_cons_self
  have hdrop : c ∈ (cString (front ++ c :: back)).dropWhile isSpace := by
    rw [← List.takeWhile_append_dropWhile (p := isSpace) (l := cString (front ++ c :: back)), List.mem_append] at hpsz
    refine hpsz.resolve_left fun h => ?_
    rw [List.mem_takeWhile_imp h] at hspace
    cases hspace
  have hbehind : c ∈ behindSign (cString (front ++ c :: back)) := by
    unfold behindSign
    cases hrest : (cString (front ++ c :: back)).dropWhile isSpace with
    | nil => rw [hrest] at hdrop; exact absurd hdrop List.not_mem_nil
    | cons d rest =>
      rw [hrest] at hdrop
      dsimp only
      split_ifs with hsign
      · refine (List.mem_cons.mp hdrop).resolve_left fun h => ?_
        rcases hsign with rfl | rfl
        · exact hminus h
        · exact hplus h
      · exact hdrop
  unfold parseInt32
  refine if_pos ⟨List.ne_nil_of_mem hpsz, .inr (List.any_eq_true.mpr ⟨c, hbehind, ?_⟩)⟩
  rw [hdigit]
  rfl

theorem maskText_spec (isIPv4 : Bool) (netmask : IpBytes) :
    0x2f ∉ CSubNet.maskText isIPv4 netmask ∧ parseInt32 (CSubNet.maskText isIPv4 netmask) = none := by
  have hdecimal (n : Nat) : 0x2f ∉ Decimal.ofNat n ∧ 0 ∉ Decimal.ofNat n :=
    ⟨fun h => (digit_ne (isDigit_of_mem_ofNat h)).2 rfl, fun h => (digit_ne (isDigit_of_mem_ofNat h)).1 rfl⟩
  have hhex (n : Nat) : 0x2f ∉ hexOf n ∧ 0 ∉ hexOf n := ⟨fun h => (mem_hexOf h).2 rfl, fun h => (mem_hexOf h).1 rfl⟩
  cases isIPv4 with
  | true => exact ⟨by simp [CSubNet.maskText, dottedQuad, hdecimal], parseInt32_of_mem (hdecimal _).2 (by decide)⟩
  | false => exact ⟨by simp [CSubNet.maskText, hexGroups, hhex], parseInt32_of_mem (hhex _).2 (by decide)⟩

theorem ofString_length (hlookup : lookupHost getaddrinfo text fAllowLookup = some a) (hn : a.noffset + n ≤ 128) :
    CSubNet.ofString getaddrinfo fAllowLookup (text ++ 0x2f :: Decimal.ofNat n)
      = ⟨a, prefixMask (a.noffset + n), true⟩ := by
  unfold CSubNet.ofString
  rw [splitSlash_append fun h => (digit_ne (isDigit_of_mem_ofNat h)).2 rfl]
  dsimp only
  rw [hlookup]
  dsimp only
  rw [parseInt32_ofNat (by omega)]
  dsimp only
  rw [if_pos (by omega), Int.toNat_natCast, Nat.add_comm n]
  rfl

theorem ofString_netmask (hlookup : lookupHost getaddrinfo text fAllowLookup = some a) (hslash : 0x2f ∉ mask)
    (hparse : parseInt32 mask = none) (hmask : lookupHost getaddrinfo mask false = some m) :
    CSubNet.ofString getaddrinfo fAllowLookup (text ++ 0x2f :: mask)
      = ⟨a, fun i => if a.isIPv4 && decide (i < 12) then 255 else m i, true⟩ := by
  unfold CSubNet.ofString
  rw [splitSlash_append hslash]
  dsimp only
  rw [hlookup]
  dsimp only
  rw [hparse, hmask]

theorem noffset_cases (a : IpBytes) : a.isIPv4 = true ∧ a.noffset = 96 ∨ a.isIPv4 = false ∧ a.noffset = 0 := by
  unfold IpBytes.noffset
  cases a.isIPv4
  · exact .inr ⟨rfl, rfl⟩
  · exact .inl ⟨rfl, rfl⟩

theorem netmask_apply (a m : IpBytes) (i : Fin 16) :
    (if (a.isIPv4 && decide (i < 12)) = true then 255 else m i) = if 8 * i.val < a.noffset then 255 else m i := by
  have hi : i < 12 ↔ i.val < 12 := Iff.rfl
  rcases noffset_cases a with ⟨ha, hoffset⟩ | ⟨ha, hoffset⟩ <;> rw [ha, hoffset]
  · refine if_congr ?_ rfl rfl
    rw [Bool.true_and, decide_eq_true_iff, hi]
    omega
  · rw [Bool.false_and, if_neg Bool.false_ne_true, if_neg (Nat.not_lt_zero _)]

theorem cidr_prefixMask {isIPv4 : Bool} (hn : n ≤ 128) (hoffset : isIPv4 = true → 96 ≤ n) :
    CSubNet.cidr isIPv4 (prefixMask n) = if n % 8 = 0 then some (n - if isIPv4 then 96 else 0) else none := by
  have hall : ∀ n : Fin 129, ∀ isIPv4 : Bool, (isIPv4 = true → 96 ≤ n.val) →
      CSubNet.cidr isIPv4 (fun i => if 8 * i.val + 8 ≤ n.val then 255 else if n.val ≤ 8 * i.val then 0
        else UInt8.ofNat (2 ^ (n.val % 8) - 1)) =
      if n.val % 8 = 0 then some (n.val - if isIPv4 then 96 else 0) else none := by
    decide +kernel
  rw [prefixMask_eq hn]
  exact hall ⟨n, by omega⟩ isIPv4 hoffset

theorem toString_length (hn : a.noffset + n ≤ 128) :
    CSubNet.toString getnameinfo ⟨a, prefixMask (a.noffset + n), true⟩ = a.toStringIP getnameinfo ++ 0x2f ::
      if n % 8 = 0 then Decimal.ofNat n else CSubNet.maskText a.isIPv4 (prefixMask (a.noffset + n)) := by
  unfold CSubNet.toString
  rcases noffset_cases a with ⟨ha, hoffset⟩ | ⟨ha, hoffset⟩ <;> rw [hoffset] at hn ⊢ <;> dsimp only <;>
    rw [cidr_prefixMask hn (by simp [ha]), ha]
  all_goals
    by_cases hwhole : n % 8 = 0
    · rw [if_pos (by omega), if_pos hwhole]
      simp
    · rw [if_neg (by omega), if_neg hwhole]

/-- `LookupHost` reads the numeric texts of an address and of the mask of a prefix length as these. -/
structure ReadsNumbers (getaddrinfo : List UInt8 → Bool → List IpBytes) (getnameinfo : IpBytes → Option (List UInt8))
    (fAllowLookup : Bool) (a : IpBytes) (n : Nat) : Prop where
  address : a.isTor = false → a.isI2P = false →
    lookupHost getaddrinfo (a.toStringIP getnameinfo) fAllowLookup = some a
  mask : ∃ ip, lookupHost getaddrinfo (CSubNet.maskText a.isIPv4 (prefixMask n)) false = some ip ∧
    ∀ i : Fin 16, (a.isIPv4 = true → 12 ≤ i) → ip i = prefixMask n i

theorem lookupHost_hidden (h : (a.isTor || a.isI2P) = true) :
    lookupHost getaddrinfo (a.toStringIP getnameinfo) fAllowLookup = some (prefixedIp pchOnionCat a.host) := by
  have hspecial := setSpecial_toStringIP getnameinfo h
  have hchars : ∀ c ∈ a.toStringIP getnameinfo, c ≠ 0 ∧ c ≠ 0x5b := by
    have hall : ∀ c ∈ 0x3d :: pbase32 ++ onionSuffix ++ i2pSuffix, c ≠ 0 ∧ c ≠ 0x5b := by decide +kernel
    intro c hc
    refine hall c ?_
    rw [List.mem_append, List.mem_append]
    rcases (Bool.or_eq_true _ _).mp h with htor | hi2p
    · rw [toStringIP_of_isTor getnameinfo htor] at hc
      exact .inl ((List.mem_append.mp hc).imp_left mem_encode32)
    · rw [toStringIP_of_isI2P getnameinfo hi2p] at hc
      exact (List.mem_append.mp hc).imp (fun h => .inl (mem_encode32 h)) id
  have hpsz : cString (a.toStringIP getnameinfo) = a.toStringIP getnameinfo :=
    List.takeWhile_eq_self_iff.mpr fun c hc => bne_iff_ne.mpr (hchars c hc).1
  have hne : a.toStringIP getnameinfo ≠ [] := fun hnil => by rw [hnil] at hspecial; cases hspecial
  unfold lookupHost
  rw [hpsz, if_neg hne, if_neg fun hif => (hchars _ (List.mem_of_head? hif.1)).2 rfl]
  dsimp only
  rw [hspecial]

theorem network_ofString {ip : IpBytes} (hlookup : lookupHost getaddrinfo front fAllowLookup = some ip)
    (hback : 0x2f ∉ back) : (CSubNet.ofString getaddrinfo fAllowLookup (front ++ 0x2f :: back)).network = ip := by
  unfold CSubNet.ofString
  rw [splitSlash_append hback]
  dsimp only
  rw [hlookup]
  dsimp only
  cases parseInt32 back with
  | none => cases lookupHost getaddrinfo back false <;> rfl
  | some n =>
    dsimp only
    split_ifs <;> rfl

theorem toString_roundTrip_iff (hn : a.noffset + n ≤ 128)
    (hreads : ReadsNumbers getaddrinfo getnameinfo fAllowLookup a (a.noffset + n)) :
    CSubNet.ofString getaddrinfo fAllowLookup (CSubNet.toString getnameinfo ⟨a, prefixMask (a.noffset + n), true⟩)
      = ⟨a, prefixMask (a.noffset + n), true⟩ ↔ a.isI2P = false := by
  obtain ⟨hslash, hparse⟩ := maskText_spec a.isIPv4 (prefixMask (a.noffset + n))
  rw [toString_length hn]
  constructor
  · intro h
    by_contra hi2p
    have hlookup := @lookupHost_hidden getaddrinfo getnameinfo fAllowLookup a
      (by rw [Bool.eq_true_of_not_eq_false hi2p, Bool.or_true])
    have hback : 0x2f ∉ if n % 8 = 0 then Decimal.ofNat n else CSubNet.maskText a.isIPv4 (prefixMask (a.noffset + n)) := by
      split_ifs
      · exact fun h => (digit_ne (isDigit_of_mem_ofNat h)).2 rfl
      · exact hslash
    have hnetwork := network_ofString hlookup hback
    rw [h] at hnetwork
    have htor : (prefixedIp pchOnionCat a.host).isTor = true := startsWith_prefixedIp pchOnionCat a.host
    rw [← hnetwork] at htor
    exact hi2p (not_isI2P_of_isTor htor)
  · intro hi2p
    have hlookup : lookupHost getaddrinfo (a.toStringIP getnameinfo) fAllowLookup = some a := by
      cases htor : a.isTor with
      | false => exact hreads.address htor hi2p
      | true => rw [lookupHost_hidden (by rw [htor]; rfl), ← eq_prefixedIp rfl htor]
    split_ifs with hwhole
    · exact ofString_length hlookup hn
    · obtain ⟨m, hm, hsame⟩ := hreads.mask
      rw [ofString_netmask hlookup hslash hparse hm, CSubNet.mk.injEq]
      refine ⟨rfl, funext fun i => ?_, rfl⟩
      rw [netmask_apply]
      have hoffset := (noffset_cases a).imp And.right And.right
      split_ifs with hi
      · rw [prefixMask_eq hn]
        exact (if_pos (by omega)).symm
      · refine hsame i fun ha => ?_
        have h96 : a.noffset = 96 := if_pos ha
        show 12 ≤ i.val
        omega

/-- For a network and a prefix length the subnet follows the mask exactly if the length is a multiple of eight and the
network has no bit behind it, or if there is nothing to match; with the mask written out, the length may be any. What
is printed is read back exactly if the network is not one of I2P. -/
theorem subnet_iff (hlookup : lookupHost getaddrinfo text fAllowLookup = some a) (hn : a.noffset + n ≤ 128)
    (getnameinfo : IpBytes → Option (List UInt8)) :
    ((CSubNet.ofString getaddrinfo fAllowLookup (text ++ 0x2f :: Decimal.ofNat n)).Follows (a.noffset + n) a ↔
      n % 8 = 0 ∧ a.NoHostBits (a.noffset + n) ∨ a.Alone (a.noffset + n)) ∧
    (∀ mask m, 0x2f ∉ mask → parseInt32 mask = none → lookupHost getaddrinfo mask false = some m →
      (∀ t < 128, a.noffset ≤ t → m.bit t = decide (t < a.noffset + n)) →
      ((CSubNet.ofString getaddrinfo fAllowLookup (text ++ 0x2f :: mask)).Follows (a.noffset + n) a ↔
        a.NoHostBits (a.noffset + n) ∨ a.Alone (a.noffset + n))) ∧
    (ReadsNumbers getaddrinfo getnameinfo fAllowLookup a (a.noffset + n) →
      (CSubNet.ofString getaddrinfo fAllowLookup (CSubNet.toString getnameinfo
          (CSubNet.ofString getaddrinfo fAllowLookup (text ++ 0x2f :: Decimal.ofNat n))) =
        CSubNet.ofString getaddrinfo fAllowLookup (text ++ 0x2f :: Decimal.ofNat n) ↔ a.isI2P = false)) := by
  rw [ofString_length hlookup hn]
  refine ⟨?_, fun mask m hslash hparse hmask hbits => ?_, toString_roundTrip_iff hn⟩
  · rw [follows_prefix_iff hn (Nat.le_add_right _ _)]
    have hoffset : (a.noffset + n) % 8 = n % 8 := by
      rcases noffset_cases a with ⟨-, h⟩ | ⟨-, h⟩ <;> omega
    rw [hoffset]
  · rw [ofString_netmask hlookup hslash hparse hmask]
    refine follows_netmask_iff hn fun t ht => ?_
    have hfull : ∀ j : Fin 8, (255 : UInt8).toBitVec.getLsbD j = true := by decide
    have hoffset := (noffset_cases a).imp And.right And.right
    unfold IpBytes.bit
    beta_reduce
    rw [netmask_apply, Fin.val_ofNat]
    split_ifs with hfirst
    · rw [decide_eq_true (by omega)]
      exact hfull ⟨7 - t % 8, by omega⟩
    · exact hbits t ht (by omega)

end Strings

namespace Sample

def privateIp (x y : UInt8) : IpBytes := prefixedIp pchIPv4 [10, 0, x, y]

def maskIp : IpBytes := prefixedIp pchIPv4 [255, 255, 255, 0]

def knownHost (name : List UInt8) (_ : Bool) : List IpBytes :=
  [privateIp 2 0, maskIp].filter fun ip => dottedQuad ip = name

/-- `10.0.2.0/24`, also with the mask written out, and as it is printed. -/
theorem subnet_private :
    (CSubNet.ofString knownHost false (dottedQuad (privateIp 2 0) ++ 0x2f :: Decimal.ofNat 24)).Follows 120
      (privateIp 2 0) ∧
    (CSubNet.ofString knownHost false (dottedQuad (privateIp 2 0) ++ 0x2f :: dottedQuad maskIp)).Follows 120
      (privateIp 2 0) ∧
    CSubNet.ofString knownHost false (CSubNet.toString (fun _ => none)
        (CSubNet.ofString knownHost false (dottedQuad (privateIp 2 0) ++ 0x2f :: Decimal.ofNat 24))) =
      CSubNet.ofString knownHost false (dottedQuad (privateIp 2 0) ++ 0x2f :: Decimal.ofNat 24) := by
  obtain ⟨hnetwork, hmask, htext⟩ := subnet_iff
    (show lookupHost knownHost (dottedQuad (privateIp 2 0)) false = some (privateIp 2 0) by decide +kernel)
    (show (privateIp 2 0).noffset + 24 ≤ 128 by decide) fun _ => none
  rw [show (privateIp 2 0).noffset = 96 from rfl] at hnetwork hmask htext
  have hhost : (privateIp 2 0).NoHostBits 120 := by unfold IpBytes.NoHostBits; decide +kernel
  refine ⟨hnetwork.mpr (.inl ⟨rfl, hhost⟩), ?_, ?_⟩
  · exact (hmask _ maskIp (by decide) (by decide +kernel) (by decide +kernel) (by decide +kernel)).mpr (.inl hhost)
  · refine (htext ⟨fun _ _ => by decide +kernel, maskIp, by decide +kernel, ?_⟩).mpr (by decide)
    decide +kernel

/-- `10.0.3.1` agrees with `10.0.2.0` on 23 bits, and is not matched by `10.0.2.0/23`. -/
theorem subnet_misses : lookupHost knownHost (dottedQuad (privateIp 2 0)) false = some (privateIp 2 0) ∧
    (privateIp 2 0).isIPv4 = true ∧ (privateIp 3 1).isIPv4 = true ∧ (privateIp 3 1).isValid = true ∧
    (privateIp 2 0).AgreesOn (96 + 23) (privateIp 3 1) ∧
    (CSubNet.ofString knownHost false (dottedQuad (privateIp 2 0) ++ 0x2f :: Decimal.ofNat 23)).isMatch
      (privateIp 3 1) = false :=
  ⟨by decide +kernel, by decide, by decide, by decide, by unfold IpBytes.AgreesOn; decide +kernel, by decide +kernel⟩

end Sample

end PupaCoin
