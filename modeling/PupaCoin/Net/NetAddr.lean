import PupaCoin.Lib.Decimal
import PupaCoin.Util.Encodings

/-!
# Addresses and the names of hidden hosts (`netbase.cpp`)

An address is its 16 bytes in network order. A host of Tor or of I2P is ten bytes behind the prefix of its network, and
its name is these bytes in base 32 with the suffix of the network. Strings are bytes.
-/

namespace PupaCoin

open Regroup

/-- `CNetAddr::ip`. -/
abbrev IpBytes := Fin 16 → UInt8

instance neZero_sixteen : NeZero 16 := inferInstance

/-- The bytes up to the null byte, as `c_str()` is read. -/
def cString (s : List UInt8) : List UInt8 := s.takeWhile (· != 0)

def pchIPv4 : List UInt8 := [0, 0, 0, 0, 0, 0, 0, 0, 0, 0, 0xff, 0xff]
def pchOnionCat : List UInt8 := [0xfd, 0x87, 0xd8, 0x7e, 0xeb, 0x43]
def pchGarliCat : List UInt8 := [0xfd, 0x60, 0xdb, 0x4d, 0xdd, 0xb5]

/-- `.onion` -/
def onionSuffix : List UInt8 := [0x2e, 0x6f, 0x6e, 0x69, 0x6f, 0x6e]

/-- `.oc.b32.i2p` -/
def i2pSuffix : List UInt8 := [0x2e, 0x6f, 0x63, 0x2e, 0x62, 0x33, 0x32, 0x2e, 0x69, 0x32, 0x70]

/-- `%x` of a number below 2^16. -/
def hexOf (n : Nat) : List UInt8 :=
  ([n / 4096, n / 256 % 16, n / 16 % 16].dropWhile (· == 0) ++ [n % 16]).map fun d =>
    [0x30, 0x31, 0x32, 0x33, 0x34, 0x35, 0x36, 0x37, 0x38, 0x39, 0x61, 0x62, 0x63, 0x64, 0x65, 0x66].getD d 0x30

/-- `%u.%u.%u.%u` of the last four bytes. -/
def dottedQuad (ip : IpBytes) : List UInt8 :=
  Decimal.ofNat (ip 12).toNat ++ 0x2e :: (Decimal.ofNat (ip 13).toNat ++ 0x2e :: (Decimal.ofNat (ip 14).toNat ++
    0x2e :: Decimal.ofNat (ip 15).toNat))

/-- `%x:%x:%x:%x:%x:%x:%x:%x`. -/
def hexGroups (ip : IpBytes) : List UInt8 :=
  let group (i : Fin 16) := hexOf ((ip i).toNat <<< 8 ||| (ip (i + 1)).toNat)
  group 0 ++ 0x3a :: (group 2 ++ 0x3a :: (group 4 ++ 0x3a :: (group 6 ++ 0x3a :: (group 8 ++ 0x3a :: (group 10 ++
    0x3a :: (group 12 ++ 0x3a :: group 14))))))

namespace IpBytes

/-- Whether `memcmp` of the first bytes with others finds no difference. -/
def startsWith (pch : List UInt8) (ip : IpBytes) : Bool := decide (∀ i : Fin 16, pch.getD i (ip i) = ip i)

def isIPv4 (ip : IpBytes) : Bool := ip.startsWith pchIPv4
def isTor (ip : IpBytes) : Bool := ip.startsWith pchOnionCat
def isI2P (ip : IpBytes) : Bool := ip.startsWith pchGarliCat
def isIPv6 (ip : IpBytes) : Bool := !ip.isIPv4 && !ip.isTor && !ip.isI2P

/-- `&ip[6]`. -/
def host (ip : IpBytes) : List UInt8 := (List.ofFn ip).drop 6

/-- `ToStringIP`; the parameter is `getnameinfo` for the numeric form, where it succeeds. -/
def toStringIP (getnameinfo : IpBytes → Option (List UInt8)) (ip : IpBytes) : List UInt8 :=
  if ip.isTor then StrEncodings.encodeBase32 ip.host ++ onionSuffix
  else if ip.isI2P then StrEncodings.encodeBase32 ip.host ++ i2pSuffix
  else
    match getnameinfo ip with
    | some name => name
    | none => if ip.isIPv4 then dottedQuad ip else hexGroups ip

end IpBytes

def prefixedIp (pch rest : List UInt8) : IpBytes := fun i => (pch ++ rest).getD i 0

/-- What is left of a name without its suffix, as an address behind a prefix. -/
def specialIp (pch strStem : List UInt8) : Option IpBytes :=
  let vchAddr := base32.vchRet (cString strStem)
  if vchAddr.length ≠ 16 - pch.length then none else some (prefixedIp pch vchAddr)

/-- `SetSpecial`; both names get the prefix of Tor. -/
def setSpecial (strName : List UInt8) : Option IpBytes :=
  if strName.length > 6 ∧ strName.drop (strName.length - 6) = onionSuffix then
    specialIp pchOnionCat (strName.take (strName.length - 6))
  else if strName.length > 11 ∧ strName.drop (strName.length - 11) = i2pSuffix then
    specialIp pchOnionCat (strName.take (strName.length - 11))
  else none

inductive HiddenNet where
  | tor
  | i2p
deriving DecidableEq

namespace HiddenNet

def suffix : HiddenNet → List UInt8
  | tor => onionSuffix
  | i2p => i2pSuffix

def has : HiddenNet → IpBytes → Bool
  | tor => IpBytes.isTor
  | i2p => IpBytes.isI2P

end HiddenNet

/-- The ten bytes that identify a host. -/
abbrev HostId := Vector UInt8 10

/-- A name of a host without the suffix, in any case. -/
def HostId.Spells (host : HostId) (name : List UInt8) : Prop :=
  name.map lower32 = StrEncodings.encodeBase32 host.toList

/-- A name of the host becomes an address of the network, which gives the name in lower case back. -/
def HiddenNet.Names (net : HiddenNet) (getnameinfo : IpBytes → Option (List UInt8)) (host : HostId) : Prop :=
  ∀ name, host.Spells name → ∃ ip, setSpecial (name ++ net.suffix) = some ip ∧ net.has ip = true ∧
    ip.toStringIP getnameinfo = StrEncodings.encodeBase32 host.toList ++ net.suffix

section Names

variable {host : HostId} {name : List UInt8} {ip : IpBytes}

theorem table_lower32 (c : UInt8) : decode32Table (lower32 c) = decode32Table c :=
  forall_byte (P := fun c => decode32Table (lower32 c) = decode32Table c) (by decide +kernel) c

theorem scan_map_lower32 (p : List UInt8) : (base32.scan (p.map lower32)).1 = (base32.scan p).1 := by
  induction p with
  | nil => rfl
  | cons c p ih =>
    have htable : base32.table (lower32 c) = base32.table c := table_lower32 c
    rw [List.map_cons, BaseCodec.scan, BaseCodec.scan, htable]
    cases base32.table c with
    | none => rfl
    | some dec => exact congrArg (dec :: ·) ih

theorem scan_cString (p : List UInt8) : (base32.scan (cString p)).1 = (base32.scan p).1 := by
  induction p with
  | nil => rfl
  | cons c p ih =>
    by_cases hc : c = 0
    · rw [hc]
      rfl
    · rw [cString, List.takeWhile_cons_of_pos (by simpa using hc), BaseCodec.scan, BaseCodec.scan]
      cases base32.table c with
      | none => rfl
      | some dec => exact congrArg (dec :: ·) ih

theorem vchRet_encode (v : List UInt8) : base32.vchRet (base32.encode v) = v := by
  obtain ⟨invalid, -, heq⟩ := Option.map_eq_some_iff.mp (BaseCodec.decode_encode base32_exact v)
  exact (Prod.mk.inj heq).1

theorem vchRet_spelled (h : host.Spells name) : base32.vchRet (cString name) = host.toList := by
  have hdigits : (base32.scan (cString name)).1 = (base32.scan (base32.encode host.toList)).1 := by
    rw [scan_cString, ← scan_map_lower32, h]
    rfl
  rw [BaseCodec.vchRet, hdigits]
  exact vchRet_encode host.toList

theorem specialIp_spelled (h : host.Spells name) : specialIp pchOnionCat name = some (prefixedIp pchOnionCat host.toList) := by
  rw [specialIp, vchRet_spelled h]
  exact if_neg (not_not.mpr host.length_toList)

theorem name_ne_nil (h : host.Spells name) : name ≠ [] := by
  rintro rfl
  have hlength := congrArg List.length (vchRet_spelled h)
  rw [host.length_toList] at hlength
  exact absurd hlength (by decide)

theorem setSpecial_spelled (h : host.Spells name) (net : HiddenNet) :
    setSpecial (name ++ net.suffix) = some (prefixedIp pchOnionCat host.toList) := by
  have hpos : 0 < name.length := List.length_pos_of_ne_nil (name_ne_nil h)
  cases net with
  | tor =>
    have hlength : (name ++ onionSuffix).length = name.length + 6 := List.length_append
    show setSpecial (name ++ onionSuffix) = _
    unfold setSpecial
    rw [hlength, Nat.add_sub_cancel, List.drop_left, List.take_left, if_pos ⟨by omega, rfl⟩]
    exact specialIp_spelled h
  | i2p =>
    have hlength : (name ++ i2pSuffix).length = name.length + 11 := List.length_append
    have hend : (name ++ i2pSuffix).drop (name.length + 11 - 6) = i2pSuffix.drop 5 := List.drop_length_add_append 5
    show setSpecial (name ++ i2pSuffix) = _
    unfold setSpecial
    rw [hlength, hend, if_neg fun hif => absurd hif.2 (by decide), Nat.add_sub_cancel, List.drop_left, List.take_left,
      if_pos ⟨by omega, rfl⟩]
    exact specialIp_spelled h

theorem startsWith_prefixedIp (pch rest : List UInt8) : (prefixedIp pch rest).startsWith pch = true := by
  refine decide_eq_true fun i => ?_
  unfold prefixedIp
  by_cases hi : i.val < pch.length
  · rw [List.getD_append _ _ _ _ hi, List.getD_eq_getElem _ _ hi, List.getD_eq_getElem _ _ hi]
  · exact List.getD_eq_default _ _ (Nat.not_lt.mp hi)

theorem host_prefixedIp {pch rest : List UInt8} (hpch : pch.length = 6) (hrest : rest.length = 10) :
    (prefixedIp pch rest).host = rest := by
  have hall : List.ofFn (prefixedIp pch rest) = pch ++ rest := by
    refine List.ext_getElem (by simp [hpch, hrest]) fun i _ hi => ?_
    rw [List.getElem_ofFn]
    exact List.getD_eq_getElem _ _ hi
  rw [IpBytes.host, hall, ← hpch, List.drop_left]

theorem eq_prefixedIp {pch : List UInt8} (hpch : pch.length = 6) (h : ip.startsWith pch = true) :
    ip = prefixedIp pch ip.host := by
  funext i
  have hi := of_decide_eq_true h i
  unfold prefixedIp IpBytes.host
  by_cases hlt : i.val < pch.length
  · rw [List.getD_append _ _ _ _ hlt, ← hi, List.getD_eq_getElem _ _ hlt, List.getD_eq_getElem _ _ hlt]
  · rw [List.getD_append_right _ _ _ _ (Nat.not_lt.mp hlt), List.getD_eq_getElem?_getD, List.getElem?_drop, hpch,
      List.getElem?_ofFn, dif_pos (by omega)]
    exact congrArg ip (Fin.ext (by show i.val = 6 + (i.val - 6); omega))

theorem not_isI2P_of_isTor (h : ip.isTor = true) : ip.isI2P = false := by
  refine Bool.eq_false_iff.mpr fun hi2p => ?_
  have htor : (0x87 : UInt8) = ip 1 := of_decide_eq_true h 1
  have hgarlic : (0x60 : UInt8) = ip 1 := of_decide_eq_true hi2p 1
  exact absurd (htor.trans hgarlic.symm) (by decide)

theorem length_host (ip : IpBytes) : ip.host.length = 10 := by
  rw [IpBytes.host, List.length_drop, List.length_ofFn]

def hostIdOf (ip : IpBytes) : HostId := ⟨ip.host.toArray, length_host ip⟩

theorem mem_encode32 {v : List UInt8} {c : UInt8} (hc : c ∈ base32.encode v) : c ∈ 0x3d :: pbase32 := by
  rw [BaseCodec.encode_eq] at hc
  rcases List.mem_append.mp hc with hc | hc
  · obtain ⟨d, hd, rfl⟩ := List.mem_map.mp hc
    have hlt := (padded_spec regroups_encode32 (fun mode hmode _ => Nat.add_sub_cancel' (base32_exact.rest_lt mode hmode).le)
      _ (BaseCodec.bytes_lt v)).1 d hd
    have hall : ∀ d : Fin 32, base32.char d ∈ 0x3d :: pbase32 := by decide
    exact hall ⟨d, hlt⟩
  · rw [List.eq_of_mem_replicate hc]
    decide

theorem map_lower32_encode (host : HostId) : host.Spells (StrEncodings.encodeBase32 host.toList) := by
  have hall : ∀ c ∈ 0x3d :: pbase32, lower32 c = c := by decide +kernel
  exact (List.map_congr_left fun c hc => hall c (mem_encode32 hc)).trans (List.map_id _)

theorem toStringIP_of_isTor (getnameinfo : IpBytes → Option (List UInt8)) (h : ip.isTor = true) :
    ip.toStringIP getnameinfo = StrEncodings.encodeBase32 ip.host ++ onionSuffix := if_pos h

theorem toStringIP_of_isI2P (getnameinfo : IpBytes → Option (List UInt8)) (h : ip.isI2P = true) :
    ip.toStringIP getnameinfo = StrEncodings.encodeBase32 ip.host ++ i2pSuffix := by
  have htor : ¬ip.isTor = true := fun htor => by rw [not_isI2P_of_isTor htor] at h; cases h
  rw [IpBytes.toStringIP, if_neg htor, if_pos h]

theorem setSpecial_toStringIP (getnameinfo : IpBytes → Option (List UInt8)) (h : (ip.isTor || ip.isI2P) = true) :
    setSpecial (ip.toStringIP getnameinfo) = some (prefixedIp pchOnionCat ip.host) := by
  have hspells : (hostIdOf ip).Spells (StrEncodings.encodeBase32 ip.host) := map_lower32_encode (hostIdOf ip)
  rcases (Bool.or_eq_true _ _).mp h with htor | hi2p
  · rw [toStringIP_of_isTor getnameinfo htor]
    exact setSpecial_spelled hspells .tor
  · rw [toStringIP_of_isI2P getnameinfo hi2p]
    exact setSpecial_spelled hspells .i2p

/-- A name of Tor becomes the address of its host and comes back from it. A name of I2P becomes the address of Tor with
the same host, so that the two compare equal; so only an address of Tor is made again from its own name. -/
theorem hiddenNames_iff (getnameinfo : IpBytes → Option (List UInt8)) :
    (∀ (net : HiddenNet) (host : HostId), net.Names getnameinfo host ↔ net = .tor) ∧
    (∀ (host : HostId) (name name' : List UInt8), host.Spells name → host.Spells name' →
      setSpecial (name ++ onionSuffix) = setSpecial (name' ++ i2pSuffix)) ∧
    ∀ ip : IpBytes, (ip.isTor || ip.isI2P) = true →
      (setSpecial (ip.toStringIP getnameinfo) = some ip ↔ ip.isTor = true) := by
  have htor (rest : List UInt8) : (prefixedIp pchOnionCat rest).isTor = true := startsWith_prefixedIp _ _
  refine ⟨fun net host => ⟨fun h => ?_, fun h name hname => ?_⟩, fun host name name' hname hname' => ?_,
    fun ip hip => ⟨fun h => ?_, fun h => ?_⟩⟩
  · obtain ⟨ip, hip, hhas, -⟩ := h _ (map_lower32_encode host)
    rw [setSpecial_spelled (map_lower32_encode host), Option.some.injEq] at hip
    cases net with
    | tor => rfl
    | i2p =>
      rw [HiddenNet.has, ← hip, not_isI2P_of_isTor (htor _)] at hhas
      cases hhas
  · rw [h]
    refine ⟨_, setSpecial_spelled hname .tor, htor _, ?_⟩
    rw [toStringIP_of_isTor getnameinfo (htor _), host_prefixedIp rfl host.length_toList]
    rfl
  · exact (setSpecial_spelled hname .tor).trans (setSpecial_spelled hname' .i2p).symm
  · rw [setSpecial_toStringIP getnameinfo hip, Option.some.injEq] at h
    exact h ▸ htor _
  · rw [setSpecial_toStringIP getnameinfo hip, ← eq_prefixedIp rfl h]

end Names

namespace Sample

/-- The name of a host of I2P is taken for the host of Tor with the same bytes. -/
theorem i2pName_isTor : ∃ ip : IpBytes, setSpecial (List.replicate 16 0x61 ++ i2pSuffix) = some ip ∧
    ip.isI2P = false ∧ ip.isTor = true ∧ setSpecial (List.replicate 16 0x61 ++ onionSuffix) = some ip ∧
    HostId.Spells (Vector.replicate 10 0) (List.replicate 16 0x61) :=
  ⟨prefixedIp pchOnionCat (List.replicate 10 0), by decide +kernel, by decide, by decide, by decide +kernel,
    by unfold HostId.Spells; decide +kernel⟩

end Sample

end PupaCoin
