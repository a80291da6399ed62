import PupaCoin.Lib.Regroup
import PupaCoin.Script.Proofs.ScriptNumProofs

/-!
# Base 64 and base 32 (`utilstrencodings.cpp`, `util.cpp`)

The four automata carry the bits that are left over from one character or byte to the next. What a decoder has taken
is followed by padding, which is looked at only for the flag. A C string is the list of its bytes before the null byte.
-/

namespace PupaCoin

open Regroup

variable {p : List UInt8} {ds : List Nat} {i s d w : Nat}

/-- What is read at a place of a C string, whose last byte is null; `none` behind it. -/
def cStringAt (p : List UInt8) (i : Nat) : Option UInt8 := (p ++ [0])[i]?

/-- The switch of `EncodeBase64`. -/
def encodeStep64 (mode left enc : Nat) : List Nat × Nat × Nat :=
  match mode with
  | 0 => ([enc >>> 2], 1, (enc &&& 3) <<< 4)
  | 1 => ([left ||| (enc >>> 4)], 2, (enc &&& 15) <<< 2)
  | _ => ([left ||| (enc >>> 6), enc &&& 63], 0, left)

/-- The switch of `DecodeBase64`. -/
def decodeStep64 (mode left dec : Nat) : List Nat × Nat × Nat :=
  match mode with
  | 0 => ([], 1, dec)
  | 1 => ([(left <<< 2) ||| (dec >>> 4)], 2, dec &&& 15)
  | 2 => ([(left <<< 4) ||| (dec >>> 2)], 3, dec &&& 3)
  | _ => ([(left <<< 6) ||| dec], 0, left)

/-- The switch of `EncodeBase32`. -/
def encodeStep32 (mode left enc : Nat) : List Nat × Nat × Nat :=
  match mode with
  | 0 => ([enc >>> 3], 1, (enc &&& 7) <<< 2)
  | 1 => ([left ||| (enc >>> 6), (enc >>> 1) &&& 31], 2, (enc &&& 1) <<< 4)
  | 2 => ([left ||| (enc >>> 4)], 3, (enc &&& 15) <<< 1)
  | 3 => ([left ||| (enc >>> 7), (enc >>> 2) &&& 31], 4, (enc &&& 3) <<< 3)
  | _ => ([left ||| (enc >>> 5), enc &&& 31], 0, left)

/-- The switch of `DecodeBase32`. -/
def decodeStep32 (mode left dec : Nat) : List Nat × Nat × Nat :=
  match mode with
  | 0 => ([], 1, dec)
  | 1 => ([(left <<< 3) ||| (dec >>> 2)], 2, dec &&& 3)
  | 2 => ([], 3, left <<< 5 ||| dec)
  | 3 => ([(left <<< 1) ||| (dec >>> 4)], 4, dec &&& 15)
  | 4 => ([(left <<< 4) ||| (dec >>> 1)], 5, dec &&& 1)
  | 5 => ([], 6, left <<< 5 ||| dec)
  | 6 => ([(left <<< 2) ||| (dec >>> 3)], 7, dec &&& 7)
  | _ => ([(left <<< 5) ||| dec], 0, left)

/-! ## The codecs -/

/-- What the codecs differ in. -/
structure BaseCodec where
  /-- The characters of the digits. -/
  alphabet : List UInt8
  /-- The table of the decoder. -/
  table : UInt8 → Option Nat
  encodeStep : Automaton
  decodeStep : Automaton
  /-- How many `=` the encoder puts behind its last character in a mode. -/
  nPadding : Nat → Nat
  /-- How many `=` the decoder requires in a mode; `none` where the flag is set. -/
  required : Nat → Option Nat

namespace BaseCodec

variable (codec : BaseCodec)

def char (digit : Nat) : UInt8 := codec.alphabet.getD digit 0

/-- `EncodeBase64`, `EncodeBase32`. -/
def encode (v : List UInt8) : List UInt8 :=
  let out := run codec.encodeStep 0 0 (v.map UInt8.toNat)
  let strRet := out.1.map codec.char
  if out.2.1 ≠ 0 then strRet ++ codec.char out.2.2 :: List.replicate (codec.nPadding out.2.1) 0x3d else strRet

/-- The loop of the decoders: the digits up to the first character without one, and where that is. -/
def scan : List UInt8 → List Nat × List UInt8
  | [] => ([], [])
  | c :: p =>
    match codec.table c with
    | some dec => (dec :: (scan p).1, (scan p).2)
    | none => ([], c :: p)

def vchRet (p : List UInt8) : List UInt8 := (run codec.decodeStep 0 0 (codec.scan p).1).1.map UInt8.ofNat

/-- Whether the characters are not so many `=` and then one without a digit; each is read only if those before fit. -/
def badPadding (p : List UInt8) : Nat → Nat → Option Bool
  | i, 0 => do
    let c ← cStringAt p i
    return (codec.table c).isSome
  | i, n + 1 => do
    let c ← cStringAt p i
    if c ≠ 0x3d then return true else badPadding p (i + 1) n

/-- `*pfInvalid`; `none` where a character behind the null byte is read. -/
def pfInvalid (p : List UInt8) : Option Bool :=
  let out := run codec.decodeStep 0 0 (codec.scan p).1
  match codec.required out.2.1 with
  | none => some true
  | some 0 => some false
  | some n => if out.2.2 ≠ 0 then some true else codec.badPadding (codec.scan p).2 0 n

/-- `DecodeBase64`, `DecodeBase32`. -/
def decode (p : List UInt8) : Option (List UInt8 × Bool) :=
  (codec.pfInvalid p).map fun invalid => (codec.vchRet p, invalid)

end BaseCodec

def decode64Table (c : UInt8) : Option Nat :=
  let n := c.toNat
  if n = 43 then some 62
  else if n = 47 then some 63
  else if 48 ≤ n ∧ n ≤ 57 then some (n + 4)
  else if 65 ≤ n ∧ n ≤ 90 then some (n - 65)
  else if 97 ≤ n ∧ n ≤ 122 then some (n - 71)
  else none

def decode32Table (c : UInt8) : Option Nat :=
  let n := c.toNat
  if 50 ≤ n ∧ n ≤ 55 then some (n - 24)
  else if 65 ≤ n ∧ n ≤ 90 then some (n - 65)
  else if 97 ≤ n ∧ n ≤ 122 then some (n - 97)
  else none

/-- `pbase64`: the letters, the digits, `+` and `/`. -/
def pbase64 : List UInt8 :=
  (List.range' 65 26).map UInt8.ofNat ++ (List.range' 97 26).map UInt8.ofNat ++ (List.range' 48 10).map UInt8.ofNat ++
    [43, 47]

/-- `pbase32`: the small letters and the digits from 2 to 7. -/
def pbase32 : List UInt8 := (List.range' 97 26).map UInt8.ofNat ++ (List.range' 50 6).map UInt8.ofNat

def base64 : BaseCodec where
  alphabet := pbase64
  table := decode64Table
  encodeStep := encodeStep64
  decodeStep := decodeStep64
  nPadding mode := if mode = 1 then 2 else 1
  required mode :=
    match mode with
    | 0 => some 0
    | 1 => none
    | 2 => some 2
    | _ => some 1

def base32 : BaseCodec where
  alphabet := pbase32
  table := decode32Table
  encodeStep := encodeStep32
  decodeStep := decodeStep32
  nPadding mode := [0, 6, 4, 3, 1].getD mode 0
  required mode :=
    match mode with
    | 0 => some 0
    | 1 => none
    | 2 => some 6
    | 3 => none
    | 4 => some 4
    | 5 => some 3
    | 6 => none
    | _ => some 1

namespace StrEncodings

def encodeBase64 : List UInt8 → List UInt8 := base64.encode
def decodeBase64 : List UInt8 → Option (List UInt8 × Bool) := base64.decode
def encodeBase32 : List UInt8 → List UInt8 := base32.encode
def decodeBase32 : List UInt8 → Option (List UInt8 × Bool) := base32.decode

end StrEncodings

namespace Util

def encodeBase64 : List UInt8 → List UInt8 := base64.encode
def decodeBase64 : List UInt8 → Option (List UInt8 × Bool) := base64.decode
def encodeBase32 : List UInt8 → List UInt8 := base32.encode
def decodeBase32 : List UInt8 → Option (List UInt8 × Bool) := base32.decode

end Util

section Bits

variable {w r a d : Nat}

theorem or_shift {x y : Nat} (hy : y < 2 ^ s) : x * 2 ^ s ||| y = x * 2 ^ s + y :=
  or_eq_add (Nat.dvd_mul_left _ _) hy

theorem moves_value {win wout a a' r r' : Nat} {es : List Nat} (hdigits : ∀ e ∈ es, e < 2 ^ wout)
    (hvalue : a * 2 ^ win + d = value wout es * 2 ^ r' + a') (hcount : r + win = wout * es.length + r')
    (hrest : a' < 2 ^ r') : Moves win wout r a [d] es r' a' where
  digits := hdigits
  value := by rw [value_singleton, List.length_singleton, Nat.mul_one, hvalue]
  count := by rw [List.length_singleton, Nat.mul_one, hcount]
  rest := hrest

theorem moves_one {win : Nat} (ha : a < 2 ^ r) (hd : d < 2 ^ win) (hs : r + s = w) (hle : s ≤ win) :
    Moves win w r a [d] [a * 2 ^ s ||| d >>> (win - s)] (win - s) (d &&& (2 ^ (win - s) - 1)) := by
  have hsplit : 2 ^ win = 2 ^ s * 2 ^ (win - s) := by rw [← Nat.pow_add, Nat.add_sub_cancel' hle]
  have hhigh : d / 2 ^ (win - s) < 2 ^ s := Nat.div_lt_of_lt_mul (by rwa [Nat.mul_comm, ← hsplit])
  have hwide : 2 ^ w = 2 ^ r * 2 ^ s := by rw [← Nat.pow_add, hs]
  have hor : a * 2 ^ s ||| d >>> (win - s) = a * 2 ^ s + d / 2 ^ (win - s) := by
    rw [Nat.shiftRight_eq_div_pow, or_shift hhigh]
  rw [hor, Nat.and_two_pow_sub_one_eq_mod]
  refine moves_value (fun e he => ?_) ?_ ?_ (Nat.mod_lt _ (Nat.two_pow_pos _))
  · rw [List.mem_singleton.mp he, hwide]
    calc a * 2 ^ s + d / 2 ^ (win - s) < a * 2 ^ s + 2 ^ s := Nat.add_lt_add_left hhigh _
      _ = (a + 1) * 2 ^ s := by ring
      _ ≤ 2 ^ r * 2 ^ s := Nat.mul_le_mul_right _ ha
  · rw [value_singleton, hsplit]
    conv_lhs => rw [← Nat.div_add_mod d (2 ^ (win - s))]
    ring
  · rw [List.length_singleton]
    omega

theorem moves_two {win : Nat} (ha : a < 2 ^ r) (hd : d < 2 ^ win) (hs : r + s = w) (hle : s + w ≤ win) :
    Moves win w r a [d] [a * 2 ^ s ||| d >>> (win - s), d >>> (win - s - w) &&& (2 ^ w - 1)] (win - s - w)
      (d &&& (2 ^ (win - s - w) - 1)) := by
  obtain ⟨hdigits, hvalue, -, -⟩ := moves_one ha hd hs (show s ≤ win by omega)
  rw [value_singleton, List.length_singleton, Nat.mul_one, value_singleton, Nat.and_two_pow_sub_one_eq_mod] at hvalue
  rw [Nat.and_two_pow_sub_one_eq_mod, Nat.and_two_pow_sub_one_eq_mod]
  have hsplit : 2 ^ (win - s) = 2 ^ (win - s - w) * 2 ^ w := by rw [← Nat.pow_add, Nat.sub_add_cancel (by omega)]
  refine moves_value (fun e he => ?_) ?_ ?_ (Nat.mod_lt _ (Nat.two_pow_pos _))
  · rcases List.mem_cons.mp he with rfl | he
    · exact hdigits _ (List.mem_singleton_self _)
    · rw [List.mem_singleton.mp he]
      exact Nat.mod_lt _ (Nat.two_pow_pos _)
  · rw [hvalue, ← List.singleton_append, value_append, value_singleton, value_singleton, List.length_singleton,
      Nat.mul_one, hsplit, Nat.mod_mul, Nat.shiftRight_eq_div_pow d (win - s - w)]
    ring
  · simp only [List.length_cons, List.length_nil]
    omega

theorem moves_none {win wout : Nat} (ha : a < 2 ^ r) (hd : d < 2 ^ win) :
    Moves win wout r a [d] [] (r + win) (a <<< win ||| d) := by
  rw [Nat.shiftLeft_eq, or_shift hd]
  refine moves_value nofun ?_ ?_ ?_
  · rw [value_nil, Nat.zero_mul, Nat.zero_add]
  · rw [List.length_nil, Nat.mul_zero, Nat.zero_add]
  · rw [Nat.pow_add]
    calc a * 2 ^ win + d < a * 2 ^ win + 2 ^ win := Nat.add_lt_add_left hd _
      _ = (a + 1) * 2 ^ win := by ring
      _ ≤ 2 ^ r * 2 ^ win := Nat.mul_le_mul_right _ ha

end Bits

section Automata

/-- The bits left over from the bytes, by the mode of `EncodeBase64`. -/
def encodeRest64 (mode : Nat) : Nat := [0, 2, 4].getD mode 0

/-- The bits left over from the characters, by the mode of `DecodeBase64`. -/
def decodeRest64 (mode : Nat) : Nat := [0, 6, 4, 2].getD mode 0

def encodeRest32 (mode : Nat) : Nat := [0, 3, 1, 4, 2].getD mode 0

def decodeRest32 (mode : Nat) : Nat := [0, 5, 2, 7, 4, 1, 6, 3].getD mode 0

theorem moves_first {win : Nat} (hd : d < 2 ^ win) (hle : w ≤ win) :
    Moves win w 0 0 [d] [d >>> (win - w)] (win - w) (d &&& (2 ^ (win - w) - 1)) := by
  have h := moves_one (r := 0) (a := 0) (Nat.two_pow_pos 0) hd (Nat.zero_add w) hle
  rwa [Nat.zero_mul, Nat.zero_or] at h

theorem regroups_encode64 : Regroups encodeStep64 8 6 3 encodeRest64 (fun mode => 6 - encodeRest64 mode) where
  start := by norm_num
  none := rfl
  step mode hmode left a d ha hd hleft := by
    rcases show mode = 0 ∨ mode = 1 ∨ mode = 2 by omega with rfl | rfl | rfl
    · obtain rfl : a = 0 := Nat.lt_one_iff.mp ha
      exact ⟨_, by simp [encodeStep64], moves_first hd (by norm_num), fun _ => Nat.shiftLeft_eq _ _⟩
    · obtain rfl := hleft one_ne_zero
      exact ⟨_, by simp [encodeStep64], moves_one (s := 4) ha hd rfl (by norm_num), fun _ => Nat.shiftLeft_eq _ _⟩
    · obtain rfl := hleft two_ne_zero
      exact ⟨_, by simp [encodeStep64], moves_two (s := 2) ha hd rfl (by norm_num), fun h => absurd rfl h⟩

theorem regroups_encode32 : Regroups encodeStep32 8 5 5 encodeRest32 (fun mode => 5 - encodeRest32 mode) where
  start := by norm_num
  none := rfl
  step mode hmode left a d ha hd hleft := by
    rcases show mode = 0 ∨ mode = 1 ∨ mode = 2 ∨ mode = 3 ∨ mode = 4 by omega with rfl | rfl | rfl | rfl | rfl
    · obtain rfl : a = 0 := Nat.lt_one_iff.mp ha
      exact ⟨_, by simp [encodeStep32], moves_first hd (by norm_num), fun _ => Nat.shiftLeft_eq _ _⟩
    · obtain rfl := hleft (by norm_num)
      exact ⟨_, by simp [encodeStep32], moves_two (s := 2) ha hd rfl (by norm_num), fun _ => Nat.shiftLeft_eq _ _⟩
    · obtain rfl := hleft (by norm_num)
      exact ⟨_, by simp [encodeStep32], moves_one (s := 4) ha hd rfl (by norm_num), fun _ => Nat.shiftLeft_eq _ _⟩
    · obtain rfl := hleft (by norm_num)
      exact ⟨_, by simp [encodeStep32], moves_two (s := 1) ha hd rfl (by norm_num), fun _ => Nat.shiftLeft_eq _ _⟩
    · obtain rfl := hleft (by norm_num)
      exact ⟨_, by simp [encodeStep32], moves_two (s := 3) ha hd rfl (by norm_num), fun h => absurd rfl h⟩

theorem moves_shift {win r a : Nat} (ha : a < 2 ^ r) (hd : d < 2 ^ win) (hs : r + s = w) (hle : s ≤ win) :
    Moves win w r a [d] [a <<< s ||| d >>> (win - s)] (win - s) (d &&& (2 ^ (win - s) - 1)) := by
  rw [Nat.shiftLeft_eq]
  exact moves_one ha hd hs hle

theorem moves_held {win : Nat} (hd : d < 2 ^ win) : Moves win w 0 0 [d] [] win d := by
  have h := @moves_none 0 0 d win w (Nat.two_pow_pos 0) hd
  rwa [Nat.zero_shiftLeft, Nat.zero_or, Nat.zero_add] at h

theorem regroups_decode64 : Regroups decodeStep64 6 8 4 decodeRest64 (fun _ => 0) where
  start := by norm_num
  none := rfl
  step mode hmode left a d ha hd hleft := by
    rcases show mode = 0 ∨ mode = 1 ∨ mode = 2 ∨ mode = 3 by omega with rfl | rfl | rfl | rfl
    · obtain rfl : a = 0 := Nat.lt_one_iff.mp ha
      exact ⟨_, by simp [decodeStep64], moves_held hd, fun _ => (Nat.mul_one _).symm⟩
    all_goals
      obtain rfl : left = a := (hleft (by norm_num)).trans (Nat.mul_one a)
    · exact ⟨_, by simp [decodeStep64], moves_shift (s := 2) ha hd rfl (by norm_num), fun _ => (Nat.mul_one _).symm⟩
    · exact ⟨_, by simp [decodeStep64], moves_shift (s := 4) ha hd rfl (by norm_num), fun _ => (Nat.mul_one _).symm⟩
    · exact ⟨_, by simp [decodeStep64], moves_shift (s := 6) ha hd rfl le_rfl, fun h => absurd rfl h⟩

theorem regroups_decode32 : Regroups decodeStep32 5 8 8 decodeRest32 (fun _ => 0) where
  start := by norm_num
  none := rfl
  step mode hmode left a d ha hd hleft := by
    rcases show mode = 0 ∨ mode = 1 ∨ mode = 2 ∨ mode = 3 ∨ mode = 4 ∨ mode = 5 ∨ mode = 6 ∨ mode = 7 by omega
      with rfl | rfl | rfl | rfl | rfl | rfl | rfl | rfl
    · obtain rfl : a = 0 := Nat.lt_one_iff.mp ha
      exact ⟨_, by simp [decodeStep32], moves_held hd, fun _ => (Nat.mul_one _).symm⟩
    all_goals
      obtain rfl : left = a := (hleft (by norm_num)).trans (Nat.mul_one a)
    · exact ⟨_, by simp [decodeStep32], moves_shift (s := 3) ha hd rfl (by norm_num), fun _ => (Nat.mul_one _).symm⟩
    · exact ⟨_, by simp [decodeStep32], moves_none ha hd, fun _ => (Nat.mul_one _).symm⟩
    · exact ⟨_, by simp [decodeStep32], moves_shift (s := 1) ha hd rfl (by norm_num), fun _ => (Nat.mul_one _).symm⟩
    · exact ⟨_, by simp [decodeStep32], moves_shift (s := 4) ha hd rfl (by norm_num), fun _ => (Nat.mul_one _).symm⟩
    · exact ⟨_, by simp [decodeStep32], moves_none ha hd, fun _ => (Nat.mul_one _).symm⟩
    · exact ⟨_, by simp [decodeStep32], moves_shift (s := 2) ha hd rfl (by norm_num), fun _ => (Nat.mul_one _).symm⟩
    · exact ⟨_, by simp [decodeStep32], moves_shift (s := 5) ha hd rfl le_rfl, fun h => absurd rfl h⟩

end Automata

/-- What makes a codec exact; `fold` takes the letters that a decoder does not tell apart to those of the encoder. -/
structure BaseCodec.Exact (codec : BaseCodec) (w modes backModes : Nat) (rest backRest : Nat → Nat)
    (fold : UInt8 → UInt8) : Prop where
  width : 0 < w
  encodeBits : Regroups codec.encodeStep 8 w modes rest (fun mode => w - rest mode)
  decodeBits : Regroups codec.decodeStep w 8 backModes backRest (fun _ => 0)
  rest_lt : ∀ mode < modes, rest mode < w
  padding_lt : ∀ mode < modes, padding w rest mode < w ∧ padding w rest mode < 8
  backRest_lt : ∀ mode < backModes, backRest mode < 8 ∧ (backRest mode = 0 → mode = 0)
  table_char : ∀ d < 2 ^ w, codec.table (codec.char d) = some d
  char_table : ∀ c d, codec.table c = some d → d < 2 ^ w ∧ codec.char d = fold c
  table_pad : codec.table 0x3d = none
  table_null : codec.table 0 = none
  required_zero : ∀ mode < backModes, codec.required mode = some 0 ↔ mode = 0
  required_none : ∀ mode < backModes, codec.required mode ≠ none → backRest mode < w
  required_pad : ∀ mode < modes, ∀ back < backModes, back ≠ 0 → backRest back = padding w rest mode →
    mode ≠ 0 ∧ codec.required back = some (codec.nPadding mode) ∧ codec.nPadding mode ≠ 0

namespace BaseCodec

section Codec

variable {codec : BaseCodec} {w modes backModes : Nat} {rest backRest : Nat → Nat} {fold : UInt8 → UInt8}

theorem scan_spec (h : codec.Exact w modes backModes rest backRest fold) (p : List UInt8) :
    ∃ taken, p = taken ++ (codec.scan p).2 ∧ (∀ c ∈ taken, (codec.table c).isSome = true) ∧
      (∀ c, (codec.scan p).2.head? = some c → codec.table c = none) ∧ (∀ d ∈ (codec.scan p).1, d < 2 ^ w) ∧
      (codec.scan p).1.map codec.char = taken.map fold := by
  induction p with
  | nil => exact ⟨[], rfl, nofun, nofun, nofun, rfl⟩
  | cons c p ih =>
    rw [scan]
    cases htable : codec.table c with
    | none =>
      refine ⟨[], rfl, nofun, fun c' hc' => ?_, nofun, rfl⟩
      rw [List.head?_cons, Option.some.injEq] at hc'
      exact hc' ▸ htable
    | some dec =>
      obtain ⟨taken, hp, hall, hend, hdigits, hchars⟩ := ih
      obtain ⟨hlt, hchar⟩ := h.char_table c dec htable
      refine ⟨c :: taken, ?_, List.forall_mem_cons.mpr ⟨by rw [htable]; rfl, hall⟩, hend,
        List.forall_mem_cons.mpr ⟨hlt, hdigits⟩, ?_⟩
      · rw [List.cons_append, ← hp]
      · rw [List.map_cons, List.map_cons, hchar, hchars]

theorem scan_chars (h : codec.Exact w modes backModes rest backRest fold) (hds : ∀ d ∈ ds, d < 2 ^ w) (hp : ∀ c, p.head? = some c → codec.table c = none) :
    codec.scan (ds.map codec.char ++ p) = (ds, p) := by
  induction ds with
  | nil =>
    cases p with
    | nil => rfl
    | cons c p =>
      rw [List.map_nil, List.nil_append, scan, hp c rfl]
  | cons d ds ih =>
    rw [List.map_cons, List.cons_append, scan, h.table_char d (hds d List.mem_cons_self),
      ih fun e he => hds e (List.mem_cons_of_mem d he)]

theorem cStringAt_le (p : List UInt8) (hi : i ≤ p.length) :
    ∃ c, cStringAt p i = some c ∧ (i = p.length → c = 0) := by
  unfold cStringAt
  rcases Nat.lt_or_eq_of_le hi with hlt | rfl
  · exact ⟨p[i], by rw [List.getElem?_append_left hlt, List.getElem?_eq_getElem hlt], fun h => absurd h hlt.ne⟩
  · exact ⟨0, by rw [List.getElem?_append_right le_rfl, Nat.sub_self]; rfl, fun _ => rfl⟩

/-- Only the null byte is read at the end of the string, and nothing behind it. By induction on the padding. -/
theorem badPadding_isSome (codec : BaseCodec) (p : List UInt8) (hi : i ≤ p.length) (n : Nat) :
    (codec.badPadding p i n).isSome = true := by
  induction n generalizing i with
  | zero =>
    obtain ⟨c, hc, -⟩ := cStringAt_le p hi
    rw [badPadding, hc]
    rfl
  | succ n ih =>
    obtain ⟨c, hc, hnull⟩ := cStringAt_le p hi
    rw [badPadding, hc, Option.bind_eq_bind, Option.bind_some]
    split_ifs with hpad
    · rfl
    · refine ih (Nat.succ_le_of_lt (lt_of_le_of_ne hi fun heq => hpad ?_))
      rw [hnull heq]
      decide

theorem badPadding_spec {n : Nat} (h : codec.badPadding p i n = some false) :
    ∃ back, p.drop i = List.replicate n 0x3d ++ back := by
  induction n generalizing i with
  | zero => exact ⟨p.drop i, rfl⟩
  | succ n ih =>
    rw [badPadding] at h
    obtain ⟨c, hc, hrest⟩ := Option.bind_eq_some_iff.mp h
    split_ifs at hrest with hpad
    · exact absurd hrest (by simp)
    · obtain ⟨back, hback⟩ := ih hrest
      have hpad' : c = 0x3d := not_not.mp hpad
      have hlt : i < p.length := by
        by_contra hge
        rw [cStringAt, List.getElem?_append_right (Nat.le_of_not_lt hge)] at hc
        cases hplace : i - p.length with
        | zero =>
          rw [hplace, hpad'] at hc
          exact absurd hc (by decide)
        | succ k =>
          rw [hplace] at hc
          exact absurd hc nofun
      rw [cStringAt, List.getElem?_append_left hlt, List.getElem?_eq_getElem hlt, Option.some.injEq] at hc
      refine ⟨back, ?_⟩
      rw [List.drop_eq_getElem_cons hlt, hc, hpad', hback]
      rfl

theorem badPadding_replicate (h : codec.Exact w modes backModes rest backRest fold) (i n : Nat) :
    codec.badPadding (List.replicate (i + n) 0x3d) i n = some false := by
  induction n generalizing i with
  | zero =>
    have hnull : cStringAt (List.replicate (i + 0) 0x3d) i = some 0 := by
      rw [cStringAt, List.getElem?_append_right (by simp), List.length_replicate, Nat.add_zero, Nat.sub_self]
      rfl
    rw [badPadding, hnull, Option.bind_eq_bind, Option.bind_some, h.table_null]
    rfl
  | succ n ih =>
    have hpad : cStringAt (List.replicate (i + (n + 1)) 0x3d) i = some 0x3d := by
      rw [cStringAt, List.getElem?_append_left (by simp), List.getElem?_replicate, if_pos (by omega)]
    rw [badPadding, hpad, Option.bind_eq_bind, Option.bind_some, if_neg (by decide), show i + (n + 1) = i + 1 + n by omega]
    exact ih (i + 1)

theorem encode_eq (codec : BaseCodec) (v : List UInt8) :
    codec.encode v = (padded codec.encodeStep (v.map UInt8.toNat)).map codec.char ++
      List.replicate (if (run codec.encodeStep 0 0 (v.map UInt8.toNat)).2.1 ≠ 0
        then codec.nPadding (run codec.encodeStep 0 0 (v.map UInt8.toNat)).2.1 else 0) 0x3d := by
  unfold encode padded
  dsimp only
  split_ifs with hmode
  · rw [List.map_append, List.append_assoc]
    rfl
  · exact (List.append_nil _).symm

theorem bytes_lt (v : List UInt8) : ∀ d ∈ v.map UInt8.toNat, d < 2 ^ 8 := by
  intro d hd
  obtain ⟨b, -, rfl⟩ := List.mem_map.mp hd
  exact b.toNat_lt

theorem map_ofNat_toNat (v : List UInt8) : (v.map UInt8.toNat).map UInt8.ofNat = v := by
  rw [List.map_map]
  exact (List.map_congr_left fun b _ => UInt8.ofNat_toNat).trans (List.map_id v)

theorem map_toNat_ofNat (hds : ∀ d ∈ ds, d < 2 ^ 8) : (ds.map UInt8.ofNat).map UInt8.toNat = ds := by
  rw [List.map_map]
  refine (List.map_congr_left fun d hd => ?_).trans (List.map_id ds)
  show (UInt8.ofNat d).toNat = d
  rw [UInt8.toNat_ofNat']
  exact Nat.mod_eq_of_lt (hds d hd)

theorem decode_encode (h : codec.Exact w modes backModes rest backRest fold) (v : List UInt8) :
    codec.decode (codec.encode v) = some (v, false) := by
  have hsum : ∀ mode < modes, mode ≠ 0 → rest mode + (w - rest mode) = w := fun mode hmode _ =>
    Nat.add_sub_cancel' (h.rest_lt mode hmode).le
  have hbytes := bytes_lt v
  obtain ⟨hout, hbackMode, hbackRest, hleft⟩ := run_back_padded h.encodeBits h.decodeBits (by norm_num) hsum
    (fun mode hmode => (h.padding_lt mode hmode).2) (fun mode hmode => (h.backRest_lt mode hmode).1) _ hbytes
  obtain ⟨-, hmode, -⟩ := h.encodeBits.run_start _ hbytes 0
  obtain ⟨hdigits, -, -⟩ := padded_spec h.encodeBits hsum _ hbytes
  have hscan : codec.scan (codec.encode v) = (padded codec.encodeStep (v.map UInt8.toNat),
      List.replicate (if (run codec.encodeStep 0 0 (v.map UInt8.toNat)).2.1 ≠ 0
        then codec.nPadding (run codec.encodeStep 0 0 (v.map UInt8.toNat)).2.1 else 0) 0x3d) := by
    rw [encode_eq]
    refine scan_chars h hdigits fun c hc => ?_
    rw [List.eq_of_mem_replicate (List.mem_of_head? hc)]
    exact h.table_pad
  have hvch : codec.vchRet (codec.encode v) = v := by
    rw [vchRet, hscan, hout, map_ofNat_toNat]
  have hvalid : codec.pfInvalid (codec.encode v) = some false := by
    unfold pfInvalid
    rw [hscan]
    dsimp only
    by_cases hzero : (run codec.decodeStep 0 0 (padded codec.encodeStep (v.map UInt8.toNat))).2.1 = 0
    · rw [hzero, (h.required_zero 0 (hzero ▸ hbackMode)).mpr rfl]
      rfl
    · obtain ⟨hmode0, hrequired, hpad⟩ := h.required_pad _ hmode _ hbackMode hzero hbackRest
      obtain ⟨n, hn⟩ := Nat.exists_eq_succ_of_ne_zero hpad
      rw [hrequired, if_pos hmode0, hn, hleft hzero]
      show (if 0 ≠ 0 then some true else _) = some false
      rw [if_neg (not_not.mpr rfl)]
      have hall := badPadding_replicate h 0 (n + 1)
      rwa [Nat.zero_add] at hall
  rw [decode, hvalid, hvch]
  rfl

theorem encode_decode (h : codec.Exact w modes backModes rest backRest fold) {v : List UInt8}
    (hdecode : codec.decode p = some (v, false)) :
    ∃ taken n back, p = taken ++ List.replicate n 0x3d ++ back ∧ (∀ c ∈ taken, (codec.table c).isSome = true) ∧
      (∀ c, (List.replicate n 0x3d ++ back).head? = some c → codec.table c = none) ∧
      codec.encode v = taken.map fold ++ List.replicate n 0x3d := by
  obtain ⟨invalid, hvalid, heq⟩ := Option.map_eq_some_iff.mp hdecode
  obtain ⟨rfl, rfl⟩ := Prod.mk.inj heq
  obtain ⟨taken, hp, hall, hend, hdigits, hchars⟩ := scan_spec h p
  obtain ⟨a', hbackMode, hmoves, -⟩ := h.decodeBits.run_start _ hdigits 0
  -- the decoder is in a mode with fewer bits than a character has, and these are zeros
  unfold pfInvalid at hvalid
  dsimp only at hvalid
  generalize hout : run codec.decodeStep 0 0 (codec.scan p).1 = out at hvalid hbackMode hmoves
  have hfew : backRest out.2.1 < w := by
    refine h.required_none _ hbackMode fun hnone => ?_
    rw [hnone] at hvalid
    exact absurd hvalid (by simp)
  have hzero : out.2.1 ≠ 0 → out.2.2 = 0 ∧ ∃ n, codec.required out.2.1 = some n ∧
      codec.badPadding (codec.scan p).2 0 n = some false := by
    intro hmode
    cases hrequired : codec.required out.2.1 with
    | none =>
      rw [hrequired] at hvalid
      exact absurd hvalid (by simp)
    | some n =>
      rw [hrequired] at hvalid
      cases n with
      | zero => exact absurd ((h.required_zero _ hbackMode).mp hrequired) hmode
      | succ n =>
        replace hvalid : (if out.2.2 ≠ 0 then some true else codec.badPadding (codec.scan p).2 0 (n + 1)) = some false :=
          hvalid
        split_ifs at hvalid with hleft
        · exact absurd hvalid (by simp)
        · exact ⟨not_not.mp hleft, n + 1, rfl, hvalid⟩
  obtain ⟨hpadded, hpadding⟩ := padded_run_back h.encodeBits h.decodeBits h.width
    (fun mode hmode _ => Nat.add_sub_cancel' (h.rest_lt mode hmode).le) (fun mode hmode => (h.padding_lt mode hmode).1)
    _ hdigits (by rw [hout]; exact hfew) (by rw [hout]; exact fun hmode => (hzero hmode).1)
  rw [hout] at hpadded hpadding
  obtain ⟨-, hmode, -⟩ := h.encodeBits.run_start out.1 hmoves.digits 0
  have hencode := encode_eq codec (codec.vchRet p)
  rw [vchRet, hout, map_toNat_ofNat hmoves.digits, hpadded, hchars] at hencode
  rw [vchRet, hout]
  generalize hmodeOut : (run codec.encodeStep 0 0 out.1).2.1 = mode at hencode hpadding hmode
  by_cases hback : out.2.1 = 0
  · have hmode0 : mode = 0 := by
      by_contra hne
      rw [hback, h.decodeBits.none] at hpadding
      have hlt := h.rest_lt mode hmode
      rw [padding, if_pos hne] at hpadding
      omega
    rw [hmode0, if_neg (not_not.mpr rfl)] at hencode
    exact ⟨taken, 0, (codec.scan p).2, by rw [List.replicate_zero, List.append_nil]; exact hp, hall, hend, hencode⟩
  · obtain ⟨-, n, hrequired, hpad⟩ := hzero hback
    obtain ⟨hmode0, hrequired', -⟩ := h.required_pad mode hmode _ hbackMode hback hpadding.symm
    rw [hrequired, Option.some.injEq] at hrequired'
    rw [if_pos hmode0, ← hrequired'] at hencode
    obtain ⟨back, hsplit⟩ := badPadding_spec hpad
    rw [List.drop_zero] at hsplit
    rw [hsplit] at hend
    exact ⟨taken, n, back, by rw [List.append_assoc, ← hsplit]; exact hp, hall, hend, hencode⟩

theorem decode_isSome (codec : BaseCodec) (p : List UInt8) : (codec.decode p).isSome = true := by
  rw [decode, Option.isSome_map]
  unfold pfInvalid
  dsimp only
  split
  · rfl
  · rfl
  · split_ifs
    · rfl
    · exact badPadding_isSome codec _ (Nat.zero_le _) _

end Codec

end BaseCodec

def lower32 (c : UInt8) : UInt8 := if 65 ≤ c ∧ c ≤ 90 then c + 32 else c

theorem base64_exact : base64.Exact 6 3 4 encodeRest64 decodeRest64 id where
  width := by norm_num
  encodeBits := regroups_encode64
  decodeBits := regroups_decode64
  rest_lt := by decide
  padding_lt := by decide
  backRest_lt := by decide
  table_char := by decide +kernel
  char_table := forall_byte (P := fun c => ∀ d, decode64Table c = some d → d < 2 ^ 6 ∧ base64.char d = id c) fun c d hd => by
    have hall : ∀ c : Fin 256, ∀ d ∈ decode64Table (UInt8.ofNat c), d < 2 ^ 6 ∧ base64.char d = UInt8.ofNat c := by
      decide +kernel
    exact hall c d hd
  table_pad := by decide
  table_null := by decide
  required_zero := by decide
  required_none := by decide
  required_pad mode hmode := by interval_cases mode <;> decide

theorem base32_exact : base32.Exact 5 5 8 encodeRest32 decodeRest32 lower32 where
  width := by norm_num
  encodeBits := regroups_encode32
  decodeBits := regroups_decode32
  rest_lt := by decide
  padding_lt := by decide
  backRest_lt := by decide
  table_char := by decide +kernel
  char_table := forall_byte (P := fun c => ∀ d, decode32Table c = some d → d < 2 ^ 5 ∧ base32.char d = lower32 c) fun c d hd => by
    have hall : ∀ c : Fin 256, ∀ d ∈ decode32Table (UInt8.ofNat c), d < 2 ^ 5 ∧ base32.char d = lower32 (UInt8.ofNat c) := by
      decide +kernel
    exact hall c d hd
  table_pad := by decide
  table_null := by decide
  required_zero := by decide
  required_none := by decide
  required_pad mode hmode := by interval_cases mode <;> decide

/-- A decoder and an encoder of bytes are exact up to `fold`: what is encoded is read back without complaint, what is
decoded without complaint is the encoding of the characters taken and their padding, and nothing is read behind the
string. -/
structure ExactCodec (table : UInt8 → Option Nat) (fold : UInt8 → UInt8) (encode : List UInt8 → List UInt8)
    (decode : List UInt8 → Option (List UInt8 × Bool)) : Prop where
  decode_encode : ∀ v, decode (encode v) = some (v, false)
  encode_decode : ∀ p v, decode p = some (v, false) →
    ∃ taken n back, p = taken ++ List.replicate n 0x3d ++ back ∧ (∀ c ∈ taken, (table c).isSome = true) ∧
      (∀ c, (List.replicate n 0x3d ++ back).head? = some c → table c = none) ∧
      encode v = taken.map fold ++ List.replicate n 0x3d
  reads_inside : ∀ p, (decode p).isSome = true

theorem BaseCodec.Exact.exactCodec {codec : BaseCodec} {modes backModes : Nat} {rest backRest : Nat → Nat}
    {fold : UInt8 → UInt8} (h : codec.Exact w modes backModes rest backRest fold) :
    ExactCodec codec.table fold codec.encode codec.decode where
  decode_encode := codec.decode_encode h
  encode_decode _ _ hdecode := codec.encode_decode h hdecode
  reads_inside := codec.decode_isSome

/-- Base 64 and base 32 are exact codecs, the letters of base 32 up to case, and both copies are the same. -/
theorem baseCodecs_exact : ExactCodec decode64Table id StrEncodings.encodeBase64 StrEncodings.decodeBase64 ∧
    ExactCodec decode32Table lower32 StrEncodings.encodeBase32 StrEncodings.decodeBase32 ∧
    (∀ v, Util.encodeBase64 v = StrEncodings.encodeBase64 v ∧ Util.encodeBase32 v = StrEncodings.encodeBase32 v) ∧
    ∀ p, Util.decodeBase64 p = StrEncodings.decodeBase64 p ∧ Util.decodeBase32 p = StrEncodings.decodeBase32 p :=
  ⟨base64_exact.exactCodec, base32_exact.exactCodec, fun _ => ⟨rfl, rfl⟩, fun _ => ⟨rfl, rfl⟩⟩

end PupaCoin
