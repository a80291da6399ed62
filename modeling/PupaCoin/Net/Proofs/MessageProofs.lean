import PupaCoin.Chain.Proofs.SerializeProofs
import PupaCoin.Net.Message

/-!
# Messages do not depend on how they are cut

The messages that are held, with the part of one that has arrived, stand for the bytes received so far: a pass of
the loop moves some bytes of the chunk over to what is held, whatever the state of the reader.
-/

namespace PupaCoin

variable {hdr : CMessageHeader} {t bytes data : List UInt8}

open Codec

theorem CMessageHeader.faithful :
    Faithful CMessageHeader.Fits CMessageHeader.serialize CMessageHeader.unserialize := by
  intro bytes hdr rest
  simp only [CMessageHeader.unserialize, (faithful_readData _).bind_iff, faithful_uint32.bind_iff, pure_iff]
  constructor
  · rintro ⟨pchMessageStart, -, hstart, rfl, pchCommand, -, hcommand, rfl, nMessageSize, -, -, rfl, nChecksum, -, -,
      rfl, rfl, rfl⟩
    exact ⟨⟨hstart, hcommand⟩, by simp only [CMessageHeader.serialize, List.append_assoc, id]⟩
  · rintro ⟨hfits, rfl⟩
    refine ⟨hdr.pchMessageStart, _, hfits.pchMessageStart, ?_, hdr.pchCommand, _, hfits.pchCommand, rfl,
      hdr.nMessageSize, _, trivial, rfl, hdr.nChecksum, rest, trivial, rfl, rfl, rfl⟩
    simp only [CMessageHeader.serialize, List.append_assoc, id]

theorem CMessageHeader.Fits.length_serialize (h : hdr.Fits) : hdr.serialize.length = 24 := by
  rw [CMessageHeader.serialize, List.length_append, List.length_append, List.length_append, h.pchMessageStart,
    h.pchCommand, writeUInt32, writeUInt32, LittleEndian.length_ofNat, LittleEndian.length_ofNat]
  rfl

theorem CMessageHeader.Fits.unique {hdr' : CMessageHeader} {t' : List UInt8} (h : hdr.Fits) (h' : hdr'.Fits)
    (heq : hdr.serialize ++ t = hdr'.serialize ++ t') : hdr = hdr' ∧ t = t' := by
  have hread := CMessageHeader.faithful.reads h t
  rw [heq, CMessageHeader.faithful.reads h'] at hread
  obtain ⟨hhdr, ht⟩ := Prod.mk.inj hread
  exact ⟨(Except.ok.inj hhdr).symm, ht.symm⟩

theorem CMessageHeader.exists_of_length (h : bytes.length = 24) :
    ∃ hdr : CMessageHeader, hdr.Fits ∧ hdr.serialize = bytes ∧ CMessageHeader.unserialize bytes = (.ok hdr, []) := by
  obtain ⟨nMessageSize, hsize⟩ : ∃ x, writeUInt32 x = (bytes.drop 16).take 4 := ⟨_, writeUInt32_ofNat (by simp [h])⟩
  obtain ⟨nChecksum, hchecksum⟩ : ∃ x, writeUInt32 x = bytes.drop 20 := ⟨_, writeUInt32_ofNat (by simp [h])⟩
  have hfits : CMessageHeader.Fits ⟨bytes.take 4, (bytes.drop 4).take 12, nMessageSize, nChecksum⟩ :=
    ⟨by simp [h, messageStartSize], by simp [h, commandSize]⟩
  have hbytes : CMessageHeader.serialize ⟨bytes.take 4, (bytes.drop 4).take 12, nMessageSize, nChecksum⟩
      = bytes := by
    rw [CMessageHeader.serialize, hsize, hchecksum, List.append_assoc, List.append_assoc]
    have h20 : (bytes.drop 16).take 4 ++ bytes.drop 20 = bytes.drop 16 := by
      have := List.take_append_drop 4 (bytes.drop 16)
      rwa [List.drop_drop] at this
    have h16 : (bytes.drop 4).take 12 ++ bytes.drop 16 = bytes.drop 4 := by
      have := List.take_append_drop 12 (bytes.drop 4)
      rwa [List.drop_drop] at this
    rw [h20, h16, List.take_append_drop]
  have hread := CMessageHeader.faithful.reads hfits []
  rw [List.append_nil, hbytes] at hread
  exact ⟨_, hfits, hbytes, hread⟩

/-- A header that does not announce too much. -/
def CMessageHeader.unserializeChecked : ReadM CMessageHeader := do
  let hdr ← CMessageHeader.unserialize
  if hdr.nMessageSize.toNat > maxSize then Exec.stop "message too large"
  return hdr

def NetMessage.unserialize : ReadM NetMessage := do
  let hdr ← CMessageHeader.unserializeChecked
  let payload ← readData hdr.nMessageSize.toNat
  return { hdr, payload }

theorem NetMessage.faithful : Faithful NetMessage.Valid NetMessage.serialize NetMessage.unserialize := by
  intro bytes m rest
  have hchecked : Faithful _ _ CMessageHeader.unserializeChecked := CMessageHeader.faithful.check _ _
  rw [NetMessage.unserialize, hchecked.bind_iff]
  simp only [(faithful_readData _).bind_iff, pure_iff]
  constructor
  · rintro ⟨hdr, -, ⟨hfits, hsize⟩, rfl, payload, -, hpayload, rfl, rfl, rfl⟩
    exact ⟨⟨hfits, hpayload, hpayload ▸ Nat.le_of_not_lt hsize⟩, (List.append_assoc _ _ _).symm⟩
  · rintro ⟨hvalid, rfl⟩
    have hsize : ¬m.hdr.nMessageSize.toNat > maxSize := Nat.not_lt.mpr (hvalid.size ▸ hvalid.payload)
    exact ⟨m.hdr, _, ⟨hvalid.hdr, hsize⟩, List.append_assoc _ _ _, m.payload, rest, hvalid.size, rfl, rfl, rfl⟩

def Unfinished (rest : List UInt8) : Prop := ∀ m u, NetMessage.unserialize rest ≠ (.ok m, u)

theorem unfinished_of_short {rest : List UInt8} (h : rest.length < 24) : Unfinished rest := by
  intro m u hread
  obtain ⟨hvalid, rfl⟩ := (NetMessage.faithful _ _ _).mp hread
  rw [NetMessage.serialize, List.length_append, List.length_append, hvalid.hdr.length_serialize] at h
  omega

theorem unfinished_of_header (hfits : hdr.Fits)
    (h : data.length < hdr.nMessageSize.toNat ∨ maxSize < hdr.nMessageSize.toNat) :
    Unfinished (hdr.serialize ++ data) := by
  intro m u hread
  obtain ⟨hvalid, heq⟩ := (NetMessage.faithful _ _ _).mp hread
  rw [NetMessage.serialize, List.append_assoc] at heq
  obtain ⟨hsame, hdata⟩ := hfits.unique hvalid.hdr heq
  have hsize := hvalid.size
  have hmax := hvalid.payload
  rw [← hsame] at hsize
  rw [hdata, List.length_append] at h
  omega

theorem length_resize (vch : List UInt8) (n : Nat) : (resize vch n).length = n := by
  rw [resize, List.length_append, List.length_take, List.length_replicate]
  omega

theorem take_resize {vch : List UInt8} {n k : Nat} (hk : k ≤ vch.length) (hn : k ≤ n) :
    (resize vch n).take k = vch.take k := by
  rw [resize, List.take_append_of_le_length (by rw [List.length_take]; omega), List.take_take, Nat.min_eq_left hn]

theorem memcpy_spec {dst got : List UInt8} {pos : UInt32} (pch : List UInt8) (n : UInt32)
    (hpos : pos.toNat = got.length) (hgot : dst.take got.length = got) (hdst : got.length + n.toNat ≤ dst.length) (hpch : n.toNat ≤ pch.length) :
    ∃ dst', memcpy dst pos pch n = .ok dst' ∧ dst'.length = dst.length ∧
      dst'.take (got.length + n.toNat) = got ++ pch.take n.toNat := by
  have hlength : (got ++ pch.take n.toNat).length = got.length + n.toNat := by
    rw [List.length_append, List.length_take_of_le hpch]
  refine ⟨got ++ pch.take n.toNat ++ dst.drop (got.length + n.toNat), ?_, ?_, ?_⟩
  · rw [memcpy, hpos, if_pos ⟨hdst, hpch⟩, hgot]
  · rw [List.length_append, hlength, List.length_drop]
    omega
  · rw [← hlength, List.take_left]

theorem asInt_eq {n : UInt32} (h : n.toNat < 2 ^ 31) : asInt n = n.toNat := by
  have hbits : n.toInt32.toBitVec.toNat = n.toNat := rfl
  rw [asInt, Int32.toInt, BitVec.toInt_eq_toNat_of_lt (by rw [hbits]; omega), hbits]

theorem toNat_min (a b : UInt32) : (min a b).toNat = min a.toNat b.toNat := by
  show (if a ≤ b then a else b).toNat = _
  split_ifs with h
  · rw [Nat.min_eq_left (UInt32.le_iff_toNat_le.mp h)]
  · rw [Nat.min_eq_right (Nat.le_of_not_le fun hle => h (UInt32.le_iff_toNat_le.mpr hle))]

theorem toNat_add_of_lt {a b : UInt32} (h : a.toNat + b.toNat < 2 ^ 32) : (a + b).toNat = a.toNat + b.toNat := by
  rw [UInt32.toNat_add, Nat.mod_eq_of_lt h]

namespace CNetMessage

/-- The first bytes of a header, fewer than 24, are in `hdrbuf`. -/
structure HeaderState (msg : CNetMessage) (got : List UInt8) : Prop where
  inData : msg.inData = false
  hdrbuf : msg.hdrbuf.length = 24
  nHdrPos : msg.nHdrPos.toNat = got.length
  short : got.length < 24
  buffered : msg.hdrbuf.take got.length = got
  nDataPos : msg.nDataPos = 0
  vRecv : msg.vRecv = []

/-- The header is read, and the first bytes of the data are in `vRecv`. -/
structure DataState (msg : CNetMessage) (hdr : CMessageHeader) (got : List UInt8) : Prop where
  inData : msg.inData = true
  header : msg.hdr = hdr
  fits : hdr.Fits
  size : hdr.nMessageSize.toNat ≤ maxSize
  nDataPos : msg.nDataPos.toNat = got.length
  buffered : msg.vRecv.take got.length = got
  room : got.length ≤ msg.vRecv.length
  ahead : msg.vRecv.length ≤ hdr.nMessageSize.toNat

theorem headerState_initial (messageStart : List UInt8) : HeaderState (.initial messageStart) [] :=
  ⟨rfl, rfl, rfl, by decide, rfl, rfl, rfl⟩

section Phases

variable {msg : CNetMessage} {hdr : CMessageHeader} {got pch : List UInt8} {nBytes : UInt32}

theorem DataState.complete_iff (h : DataState msg hdr got) :
    msg.complete = true ↔ got.length = hdr.nMessageSize.toNat := by
  rw [complete, h.inData, h.header, Bool.not_true, if_neg Bool.false_ne_true, beq_iff_eq, ← UInt32.toNat_inj,
    h.nDataPos]
  exact eq_comm

theorem HeaderState.complete_eq (h : HeaderState msg got) : msg.complete = false := by
  rw [complete, h.inData, Bool.not_false, if_pos rfl]

theorem DataState.vRecv_eq (h : DataState msg hdr got) (hall : got.length = hdr.nMessageSize.toNat) :
    msg.vRecv = got := by
  have hlength : msg.vRecv.length = got.length := Nat.le_antisymm (hall ▸ h.ahead) h.room
  have hgot := h.buffered
  rwa [← hlength, List.take_length] at hgot

theorem HeaderState.readHeader_spec (h : HeaderState msg got) (hpch : nBytes.toNat = pch.length) :
    ∃ k, k = min (24 - got.length) pch.length ∧ ∃ msg',
      (msg.readHeader pch nBytes = .ok ((k : Int), msg') ∧ HeaderState msg' (got ++ pch.take k)) ∨
      ∃ hdr : CMessageHeader, hdr.Fits ∧ hdr.serialize = got ++ pch.take k ∧
        ((msg.readHeader pch nBytes = .ok ((k : Int), msg') ∧ DataState msg' hdr []) ∨
          (maxSize < hdr.nMessageSize.toNat ∧ msg.readHeader pch nBytes = .ok (-1, msg') ∧ msg'.inData = false)) := by
  have hshort := h.short
  have hremaining : (24 - msg.nHdrPos).toNat = 24 - got.length := by
    rw [UInt32.toNat_sub_of_le _ _ (UInt32.le_iff_toNat_le.mpr (by rw [h.nHdrPos]; exact hshort.le)), h.nHdrPos]
    rfl
  have hcopy : (min (24 - msg.nHdrPos) nBytes).toNat = min (24 - got.length) pch.length := by
    rw [toNat_min, hremaining, hpch]
  have hint : asInt (min (24 - msg.nHdrPos) nBytes) = (min (24 - got.length) pch.length : Nat) := by
    rw [asInt_eq (by omega), hcopy]
  obtain ⟨hdrbuf, hmemcpy, hlength, htake⟩ :=
    memcpy_spec pch (min (24 - msg.nHdrPos) nBytes) h.nHdrPos h.buffered (by rw [hcopy, h.hdrbuf]; omega)
      (by rw [hcopy]; omega)
  rw [hcopy] at htake
  rw [h.hdrbuf] at hlength
  have hpos : (msg.nHdrPos + min (24 - msg.nHdrPos) nBytes).toNat
      = got.length + min (24 - got.length) pch.length := by
    rw [toNat_add_of_lt (by rw [hcopy, h.nHdrPos]; omega), hcopy, h.nHdrPos]
  refine ⟨_, rfl, ?_⟩
  set k := min (24 - got.length) pch.length with hk
  have hgot : (got ++ pch.take k).length = got.length + k := by
    rw [List.length_append, List.length_take_of_le (by omega)]
  rw [readHeader, hmemcpy]
  by_cases hpartial : got.length + k < 24
  · have hlt : msg.nHdrPos + min (24 - msg.nHdrPos) nBytes < 24 :=
      UInt32.lt_iff_toNat_lt.mpr (by rw [hpos]; exact hpartial)
    refine ⟨{ msg with hdrbuf, nHdrPos := msg.nHdrPos + min (24 - msg.nHdrPos) nBytes }, Or.inl ⟨?_, ?_⟩⟩
    · show (if _ then _ else _) = _
      rw [if_pos hlt, hint]
      rfl
    · exact ⟨h.inData, hlength, by rw [hgot, ← hpos], by rw [hgot]; exact hpartial, by rw [hgot]; exact htake,
        h.nDataPos, h.vRecv⟩
  · have hnot : ¬msg.nHdrPos + min (24 - msg.nHdrPos) nBytes < 24 := fun hlt =>
      hpartial (by rw [← hpos]; exact UInt32.lt_iff_toNat_lt.mp hlt)
    have hall : got.length + k = 24 := by omega
    have hbuf : hdrbuf = got ++ pch.take k := by
      rw [← htake, hall, ← hlength, List.take_length]
    obtain ⟨hdr, hfits, hserialize, hread⟩ := CMessageHeader.exists_of_length hlength
    by_cases hlarge : hdr.nMessageSize.toNat > maxSize
    · refine ⟨{ msg with hdrbuf := [], nHdrPos := msg.nHdrPos + min (24 - msg.nHdrPos) nBytes, hdr },
        Or.inr ⟨hdr, hfits, hserialize.trans hbuf, Or.inr ⟨hlarge, ?_, h.inData⟩⟩⟩
      show (if _ then _ else _) = _
      rw [if_neg hnot, hread]
      show (if _ then _ else _) = _
      rw [if_pos hlarge]
      rfl
    · refine ⟨{ msg with
          hdrbuf := [], nHdrPos := msg.nHdrPos + min (24 - msg.nHdrPos) nBytes, hdr, inData := true },
        Or.inr ⟨hdr, hfits, hserialize.trans hbuf, Or.inl ⟨?_, ?_⟩⟩⟩
      · show (if _ then _ else _) = _
        rw [if_neg hnot, hread]
        show (if _ then _ else _) = _
        rw [if_neg hlarge, hint]
        rfl
      · exact ⟨rfl, rfl, hfits, Nat.le_of_not_lt hlarge, by rw [h.nDataPos]; rfl, rfl, Nat.zero_le _,
          by rw [h.vRecv]; exact Nat.zero_le _⟩

theorem DataState.readData_spec (h : DataState msg hdr got) (hpch : nBytes.toNat = pch.length)
    (hmore : got.length < hdr.nMessageSize.toNat) :
    ∃ k, k = min (hdr.nMessageSize.toNat - got.length) pch.length ∧ ∃ msg',
      msg.readData pch nBytes = .ok ((k : Int), msg') ∧ DataState msg' hdr (got ++ pch.take k) := by
  have hmax : maxSize = 2 ^ 25 := rfl
  have hsize := h.size
  have hremaining : (msg.hdr.nMessageSize - msg.nDataPos).toNat = hdr.nMessageSize.toNat - got.length := by
    rw [UInt32.toNat_sub_of_le _ _ (UInt32.le_iff_toNat_le.mpr (by rw [h.nDataPos, h.header]; exact hmore.le)),
      h.nDataPos, h.header]
  have hcopy : (min (msg.hdr.nMessageSize - msg.nDataPos) nBytes).toNat
      = min (hdr.nMessageSize.toNat - got.length) pch.length := by
    rw [toNat_min, hremaining, hpch]
  have hint : asInt (min (msg.hdr.nMessageSize - msg.nDataPos) nBytes)
      = (min (hdr.nMessageSize.toNat - got.length) pch.length : Nat) := by
    rw [asInt_eq (by omega), hcopy]
  refine ⟨_, rfl, ?_⟩
  set nCopy := min (msg.hdr.nMessageSize - msg.nDataPos) nBytes with hnCopy
  set k := min (hdr.nMessageSize.toNat - got.length) pch.length with hk
  have hpos : (msg.nDataPos + nCopy).toNat = got.length + k := by
    rw [toNat_add_of_lt (by rw [hcopy, h.nDataPos]; omega), hcopy, h.nDataPos]
  have hroom : (min msg.hdr.nMessageSize (msg.nDataPos + nCopy + 256 * 1024)).toNat
      = min hdr.nMessageSize.toNat (got.length + k + 256 * 1024) := by
    have hahead : (256 * 1024 : UInt32).toNat = 256 * 1024 := rfl
    rw [toNat_min, toNat_add_of_lt (by rw [hpos, hahead]; omega), hpos, hahead, h.header]
  -- The buffer holds what has arrived and has room for what is copied.
  obtain ⟨vRecv, hvRecv, hgot, hlow, hhigh⟩ : ∃ vRecv, vRecv = (if msg.vRecv.length < (msg.nDataPos + nCopy).toNat
        then resize msg.vRecv (min msg.hdr.nMessageSize (msg.nDataPos + nCopy + 256 * 1024)).toNat
        else msg.vRecv) ∧ vRecv.take got.length = got ∧ got.length + k ≤ vRecv.length ∧
      vRecv.length ≤ hdr.nMessageSize.toNat := by
    refine ⟨_, rfl, ?_⟩
    rw [hpos, hroom]
    split_ifs with hsmall
    · refine ⟨(take_resize h.room (by omega)).trans h.buffered, ?_, ?_⟩
      · rw [length_resize]
        omega
      · rw [length_resize]
        omega
    · exact ⟨h.buffered, Nat.le_of_not_lt hsmall, h.ahead⟩
  obtain ⟨vRecv', hmemcpy, hlength, htake⟩ :=
    memcpy_spec pch nCopy h.nDataPos hgot (by rw [hcopy]; exact hlow) (by rw [hcopy]; omega)
  rw [hcopy] at htake
  have hall : (got ++ pch.take k).length = got.length + k := by
    rw [List.length_append, List.length_take_of_le (by omega)]
  refine ⟨{ msg with vRecv := vRecv', nDataPos := msg.nDataPos + nCopy }, ?_, ?_⟩
  · show (do
      let vRecv ← memcpy _ msg.nDataPos pch nCopy
      return (asInt nCopy, { msg with vRecv, nDataPos := msg.nDataPos + nCopy })) = _
    rw [← hvRecv, hmemcpy, hint]
    rfl
  · exact ⟨h.inData, h.header, h.fits, h.size, by rw [hall, ← hpos], by rw [hall]; exact htake,
      by rw [hall, hlength]; exact hlow, by rw [hlength]; exact hhigh⟩

end Phases

end CNetMessage

/-- All that the header of the message announces has been received. -/
def CNetMessage.Done (msg : CNetMessage) : Prop :=
  msg.DataState msg.hdr msg.vRecv ∧ msg.vRecv.length = msg.hdr.nMessageSize.toNat

def CNetMessage.message (msg : CNetMessage) : NetMessage := ⟨msg.hdr, msg.vRecv⟩

/-- The message has received the bytes `rest` and waits for more. -/
def PendingAs (msg : CNetMessage) (rest : List UInt8) : Prop :=
  msg.HeaderState rest ∨ ∃ hdr data, msg.DataState hdr data ∧ data.length < hdr.nMessageSize.toNat ∧
    rest = hdr.serialize ++ data

/-- Behind the complete messages `front`, the connection holds the bytes `rest` of the next one. -/
def HoldsBehind (vRecvMsg front : List CNetMessage) (rest : List UInt8) : Prop :=
  (∀ msg ∈ front, msg.Done) ∧ ((vRecvMsg = front ∧ rest = []) ∨ ∃ msg, vRecvMsg = front ++ [msg] ∧ PendingAs msg rest)

section HoldsBehind

variable {msg : CNetMessage} {rest : List UInt8} {front vRecvMsg : List CNetMessage}

theorem CNetMessage.Done.valid (h : msg.Done) : msg.message.Valid := ⟨h.1.fits, h.2, h.2.trans_le h.1.size⟩

theorem CNetMessage.Done.complete (h : msg.Done) : msg.complete = true := h.1.complete_iff.mpr h.2

theorem CNetMessage.DataState.done (h : msg.DataState hdr data) (hall : data.length = hdr.nMessageSize.toNat)
    : msg.Done ∧ msg.message = ⟨hdr, data⟩ := by
  have hvRecv := h.vRecv_eq hall
  have hhdr := h.header
  rw [CNetMessage.Done, CNetMessage.message, hvRecv, hhdr]
  exact ⟨⟨h, hall⟩, rfl⟩

theorem PendingAs.complete_eq (h : PendingAs msg rest) : msg.complete = false := by
  rcases h with h | ⟨hdr, data, h, hmore, -⟩
  · exact h.complete_eq
  · cases hcomplete : msg.complete with
    | false => rfl
    | true => exact absurd (h.complete_iff.mp hcomplete) hmore.ne

theorem PendingAs.unfinished (h : PendingAs msg rest) : Unfinished rest := by
  rcases h with h | ⟨hdr, data, h, hmore, rfl⟩
  · exact unfinished_of_short h.short
  · exact unfinished_of_header h.fits (Or.inl hmore)

theorem PendingAs.not_oversized (h : PendingAs msg rest) (hfits : hdr.Fits)
    (hlarge : maxSize < hdr.nMessageSize.toNat) : rest ≠ hdr.serialize ++ t := by
  intro heq
  rcases h with h | ⟨hdr', data, h, hmore, hrest⟩
  · have hshort := h.short
    rw [heq, List.length_append, hfits.length_serialize] at hshort
    omega
  · obtain ⟨hsame, -⟩ := h.fits.unique hfits (hrest.symm.trans heq)
    have hsize := h.size
    rw [hsame] at hsize
    exact absurd hlarge (Nat.not_lt.mpr hsize)

theorem receivedMessages_concat (hfront : ∀ msg ∈ front, msg.Done) (hmsg : msg.complete = false) :
    receivedMessages (front ++ [msg]) = front.map CNetMessage.message := by
  have hall : front.filter CNetMessage.complete = front :=
    List.filter_eq_self.mpr fun msg hmem => (hfront msg hmem).complete
  have hnone : [msg].filter CNetMessage.complete = [] :=
    List.filter_cons_of_neg (by rw [hmsg]; exact Bool.false_ne_true)
  rw [receivedMessages, List.filter_append, hall, hnone, List.append_nil]
  rfl

theorem HoldsBehind.receivedMessages_eq (h : HoldsBehind vRecvMsg front rest) :
    receivedMessages vRecvMsg = front.map CNetMessage.message := by
  obtain ⟨hfront, ⟨rfl, -⟩ | ⟨msg, rfl, hmsg⟩⟩ := h
  · rw [receivedMessages, List.filter_eq_self.mpr fun msg hmem => (hfront msg hmem).complete]
    rfl
  · exact receivedMessages_concat hfront hmsg.complete_eq

theorem HoldsBehind.unfinished (h : HoldsBehind vRecvMsg front rest) : Unfinished rest := by
  obtain ⟨-, ⟨-, rfl⟩ | ⟨msg, -, hmsg⟩⟩ := h
  · exact unfinished_of_short (Nat.zero_lt_succ 23)
  · exact hmsg.unfinished

theorem HoldsBehind.not_oversized (h : HoldsBehind vRecvMsg front rest) (hfits : hdr.Fits)
    (hlarge : maxSize < hdr.nMessageSize.toNat) : rest ≠ hdr.serialize ++ t := by
  obtain ⟨-, ⟨-, rfl⟩ | ⟨msg, -, hmsg⟩⟩ := h
  · intro heq
    have hlength := congrArg List.length heq
    rw [List.length_nil, List.length_append, hfits.length_serialize] at hlength
    omega
  · exact hmsg.not_oversized hfits hlarge

theorem HoldsBehind.currentMessage_spec (h : HoldsBehind vRecvMsg front rest) (messageStart : List UInt8) :
    ∃ msg, currentMessage messageStart vRecvMsg = (front, msg) ∧ PendingAs msg rest := by
  have hnew : PendingAs (.initial messageStart) [] := Or.inl (CNetMessage.headerState_initial messageStart)
  obtain ⟨hfront, ⟨rfl, rfl⟩ | ⟨msg, rfl, hmsg⟩⟩ := h
  · refine ⟨.initial messageStart, ?_, hnew⟩
    rw [currentMessage]
    cases hlast : vRecvMsg.getLast? with
    | none => rfl
    | some msg => exact if_pos (hfront msg (List.mem_of_getLast? hlast)).complete
  · refine ⟨msg, ?_, hmsg⟩
    rw [currentMessage, List.getLast?_concat, List.dropLast_concat]
    exact if_neg (by rw [hmsg.complete_eq]; exact Bool.false_ne_true)

end HoldsBehind

/-- The bytes are messages and a part of the next one, and the connection holds just these. -/
def Received (vRecvMsg : List CNetMessage) (bytes : List UInt8) : Prop :=
  ∃ front rest, HoldsBehind vRecvMsg front rest ∧ bytes = messageStream (front.map CNetMessage.message) ++ rest

/-- The bytes are messages and a header that announces too much, and the connection holds the messages. -/
def Refused (vRecvMsg : List CNetMessage) (bytes : List UInt8) : Prop :=
  ∃ ms hdr t, (∀ m ∈ ms, NetMessage.Valid m) ∧ receivedMessages vRecvMsg = ms ∧ CMessageHeader.Fits hdr ∧
    maxSize < hdr.nMessageSize.toNat ∧ bytes = messageStream ms ++ (hdr.serialize ++ t)

/-- What a call that returns its result has made of the bytes. -/
def Outcome (r : Bool × List CNetMessage) (bytes : List UInt8) : Prop :=
  if r.1 then Received r.2 bytes else Refused r.2 bytes

theorem Refused.append {vRecvMsg : List CNetMessage} (h : Refused vRecvMsg bytes) (more : List UInt8)
    : Refused vRecvMsg (bytes ++ more) := by
  obtain ⟨ms, hdr, t, hms, hreceived, hfits, hlarge, rfl⟩ := h
  exact ⟨ms, hdr, t ++ more, hms, hreceived, hfits, hlarge, by simp only [List.append_assoc]⟩

theorem received_nil : Received [] [] := ⟨[], [], ⟨fun _ hmem => (nomatch hmem), Or.inl ⟨rfl, rfl⟩⟩, rfl⟩

section Receive

variable (messageStart : List UInt8) {vRecvMsg : List CNetMessage} {bytes pch : List UInt8} {nBytes : UInt32}

theorem received_concat {front : List CNetMessage} {msg : CNetMessage} (hfront : ∀ msg ∈ front, msg.Done)
    (h : msg.DataState hdr data) (hle : data.length ≤ hdr.nMessageSize.toNat) :
    Received (front ++ [msg]) (messageStream (front.map CNetMessage.message) ++ (hdr.serialize ++ data)) := by
  rcases hle.lt_or_eq with hmore | hall
  · exact ⟨front, _, ⟨hfront, Or.inr ⟨msg, rfl, Or.inr ⟨hdr, data, h, hmore, rfl⟩⟩⟩, rfl⟩
  · obtain ⟨hdone, hmessage⟩ := h.done hall
    refine ⟨front ++ [msg], [], ⟨fun msg' hmem => ?_, Or.inl ⟨rfl, rfl⟩⟩, ?_⟩
    · rcases List.mem_append.mp hmem with hmem | hmem
      · exact hfront msg' hmem
      · rw [List.mem_singleton.mp hmem]
        exact hdone
    · rw [messageStream, messageStream, List.map_append, List.map_singleton, hmessage, List.flatMap_append,
        List.append_nil]
      exact congrArg _ (List.flatMap_singleton _ _).symm

theorem Received.absorb_spec (h : Received vRecvMsg bytes) (hpch : nBytes.toNat = pch.length) (hpos : 0 < pch.length)
    : ∃ k v', 0 < k ∧ k ≤ pch.length ∧
      ((absorb messageStart vRecvMsg pch nBytes = .ok ((k : Int), v') ∧ Received v' (bytes ++ pch.take k)) ∨
        (absorb messageStart vRecvMsg pch nBytes = .ok (-1, v') ∧ Refused v' (bytes ++ pch.take k))) := by
  obtain ⟨front, rest, hholds, rfl⟩ := h
  obtain ⟨msg, hcurrent, hpending⟩ := hholds.currentMessage_spec messageStart
  have hfront := hholds.1
  have habsorb : absorb messageStart vRecvMsg pch nBytes = (do
      let r ← if !msg.inData then msg.readHeader pch nBytes else msg.readData pch nBytes
      return (r.1, front ++ [r.2])) := by
    rw [absorb, hcurrent]
  rcases hpending with hheader | ⟨hdr, data, hdata, hmore, rfl⟩
  · obtain ⟨k, hk, msg', hread⟩ := hheader.readHeader_spec hpch
    have hshort := hheader.short
    rw [hheader.inData, Bool.not_false, if_pos rfl] at habsorb
    refine ⟨k, front ++ [msg'], by omega, by omega, ?_⟩
    rw [habsorb, List.append_assoc]
    rcases hread with ⟨hread, hstate⟩ | ⟨hdr, hfits, hserialize, ⟨hread, hstate⟩ | ⟨hlarge, hread, hinData⟩⟩
    · rw [hread]
      exact Or.inl ⟨rfl, front, _, ⟨hfront, Or.inr ⟨msg', rfl, Or.inl hstate⟩⟩, rfl⟩
    · rw [hread, ← hserialize]
      have := received_concat hfront hstate (Nat.zero_le _)
      rw [List.append_nil] at this
      exact Or.inl ⟨rfl, this⟩
    · rw [hread, ← hserialize]
      refine Or.inr ⟨rfl, front.map CNetMessage.message, hdr, [], fun m hm => ?_, ?_, hfits, hlarge, ?_⟩
      · obtain ⟨msg, hmem, rfl⟩ := List.mem_map.mp hm
        exact (hfront msg hmem).valid
      · exact receivedMessages_concat hfront (by rw [CNetMessage.complete, hinData, Bool.not_false, if_pos rfl])
      · rw [List.append_nil]
  · obtain ⟨k, hk, msg', hread, hstate⟩ := hdata.readData_spec hpch hmore
    have hle : (data ++ pch.take k).length ≤ hdr.nMessageSize.toNat := by
      rw [List.length_append, List.length_take]
      omega
    rw [hdata.inData, Bool.not_true, if_neg Bool.false_ne_true, hread] at habsorb
    refine ⟨k, front ++ [msg'], by omega, by omega, Or.inl ⟨habsorb, ?_⟩⟩
    rw [List.append_assoc, List.append_assoc]
    exact received_concat hfront hstate hle

theorem Received.receiveLoop_spec (h : Received vRecvMsg bytes) (hpch : nBytes.toNat = pch.length) {fuel : Nat}
    (hfuel : pch.length ≤ fuel) :
    ∃ r, receiveLoop messageStart fuel vRecvMsg pch nBytes = .ok r ∧ Outcome r (bytes ++ pch) := by
  induction fuel generalizing vRecvMsg bytes pch nBytes with
  | zero =>
    have hnil : pch = [] := List.eq_nil_of_length_eq_zero (Nat.le_zero.mp hfuel)
    have hzero : ¬nBytes > 0 := fun hpos => by
      have : 0 < nBytes.toNat := UInt32.lt_iff_toNat_lt.mp hpos
      omega
    rw [receiveLoop, if_neg hzero, hnil, List.append_nil]
    exact ⟨_, rfl, h⟩
  | succ fuel ih =>
    by_cases hpos : 0 < pch.length
    · have hnBytes : nBytes > 0 := UInt32.lt_iff_toNat_lt.mpr (by rw [hpch]; exact hpos)
      obtain ⟨k, v', hk, hle, ⟨habsorb, hreceived⟩ | ⟨habsorb, hrefused⟩⟩ :=
        h.absorb_spec messageStart hpch hpos
      · have hrest : (nBytes - UInt32.ofNat k).toNat = (pch.drop k).length := by
          have hk32 : (UInt32.ofNat k).toNat = k := by
            rw [UInt32.toNat_ofNat', Nat.mod_eq_of_lt (by have := nBytes.toNat_lt; omega)]
          rw [UInt32.toNat_sub_of_le _ _ (UInt32.le_iff_toNat_le.mpr (by rw [hk32]; omega)), hk32, hpch,
            List.length_drop]
        obtain ⟨r, hloop, houtcome⟩ := ih hreceived hrest (by rw [List.length_drop]; omega)
        refine ⟨r, ?_, ?_⟩
        · have hhandled : ¬(k : Int) < 0 := Int.not_lt.mpr (Int.natCast_nonneg k)
          rw [receiveLoop, if_pos hnBytes, habsorb]
          show (if (k : Int) < 0 then Except.ok (false, v') else
            receiveLoop messageStart fuel v' (pch.drop (k : Int).toNat) (nBytes - UInt32.ofNat (k : Int).toNat)) = _
          rw [if_neg hhandled, Int.toNat_natCast, hloop]
        · rwa [List.append_assoc, List.take_append_drop] at houtcome
      · refine ⟨(false, v'), ?_, ?_⟩
        · rw [receiveLoop, if_pos hnBytes, habsorb]
          rfl
        · have hall := hrefused.append (pch.drop k)
          rwa [List.append_assoc, List.take_append_drop] at hall
    · have hnil : pch = [] := List.eq_nil_of_length_eq_zero (Nat.le_zero.mp (Nat.le_of_not_lt hpos))
      have hzero : ¬nBytes > 0 := fun hpos' => by
        have : 0 < nBytes.toNat := UInt32.lt_iff_toNat_lt.mp hpos'
        omega
      rw [receiveLoop, if_neg hzero, hnil, List.append_nil]
      exact ⟨_, rfl, h⟩

theorem Received.receiveChunks_spec (h : Received vRecvMsg bytes) {chunks : List (List UInt8)}
    (hchunks : ∀ pchBuf ∈ chunks, pchBuf.length < 2 ^ 32) :
    ∃ r, receiveChunks messageStart vRecvMsg chunks = .ok r ∧ Outcome r (bytes ++ chunks.flatten) := by
  induction chunks generalizing vRecvMsg bytes with
  | nil =>
    rw [List.flatten_nil, List.append_nil]
    exact ⟨_, rfl, h⟩
  | cons pchBuf chunks ih =>
    have hlength : (UInt32.ofNat pchBuf.length).toNat = pchBuf.length := by
      rw [UInt32.toNat_ofNat', Nat.mod_eq_of_lt (hchunks pchBuf List.mem_cons_self)]
    obtain ⟨⟨accepted, v'⟩, hloop, houtcome⟩ :=
      h.receiveLoop_spec messageStart hlength hlength.ge
    rw [List.flatten_cons, ← List.append_assoc]
    cases accepted with
    | true =>
      obtain ⟨r, hrest, hr⟩ := ih houtcome fun c hc => hchunks c (List.mem_cons_of_mem pchBuf hc)
      refine ⟨r, ?_, hr⟩
      rw [receiveChunks, receiveMsgBytes, hloop]
      exact hrest
    | false =>
      refine ⟨(false, v'), ?_, Refused.append houtcome _⟩
      rw [receiveChunks, receiveMsgBytes, hloop]
      rfl

end Receive

/-- The messages that are received, and a refusal, depend on the bytes of the connection and not on how they are
cut; every call returns, and every copy stays within its buffers. -/
theorem messageFraming_independent (messageStart : List UInt8) (ms : List NetMessage) (hms : ∀ m ∈ ms, m.Valid) :
    (∀ chunks, Cut (messageStream ms) chunks →
      ∃ v, receiveChunks messageStart [] chunks = .ok (true, v) ∧ receivedMessages v = ms) ∧
    (∀ hdr t chunks, CMessageHeader.Fits hdr → maxSize < hdr.nMessageSize.toNat →
      Cut (messageStream ms ++ (hdr.serialize ++ t)) chunks →
      ∃ v, receiveChunks messageStart [] chunks = .ok (false, v) ∧ receivedMessages v = ms) ∧
    (∀ bytes chunks, Cut bytes chunks → ∃ r, receiveChunks messageStart [] chunks = .ok r) := by
  have hrun : ∀ bytes chunks, Cut bytes chunks →
      ∃ r, receiveChunks messageStart [] chunks = .ok r ∧ Outcome r bytes := by
    intro bytes chunks hcut
    obtain ⟨r, hr, houtcome⟩ := received_nil.receiveChunks_spec messageStart fun c hc => (hcut.2 c hc).2
    rw [List.nil_append, hcut.1] at houtcome
    exact ⟨r, hr, houtcome⟩
  have hvalid : ∀ front : List CNetMessage, (∀ msg ∈ front, msg.Done) →
      ∀ m ∈ front.map CNetMessage.message, m.Valid := by
    intro front hfront m hm
    obtain ⟨msg, hmem, rfl⟩ := List.mem_map.mp hm
    exact (hfront msg hmem).valid
  have hend : Unfinished [] := unfinished_of_short (Nat.zero_lt_succ 23)
  refine ⟨fun chunks hcut => ?_, fun hdr t chunks hfits hlarge hcut => ?_, fun bytes chunks hcut => ?_⟩
  · obtain ⟨⟨accepted, v⟩, hr, houtcome⟩ := hrun _ _ hcut
    have hstream : messageStream ms = messageStream ms ++ [] := (List.append_nil _).symm
    cases accepted with
    | true =>
      obtain ⟨front, rest, hholds, heq⟩ := houtcome
      obtain ⟨hfront, -⟩ := NetMessage.faithful.stream_unique hms (hvalid front hholds.1) hend hholds.unfinished
        (hstream.symm.trans heq)
      exact ⟨v, hr, hholds.receivedMessages_eq.trans hfront.symm⟩
    | false =>
      obtain ⟨ms', hdr, t, hms', -, hfits, hlarge, heq⟩ := houtcome
      obtain ⟨-, hrest⟩ := NetMessage.faithful.stream_unique hms hms' hend
        (unfinished_of_header hfits (Or.inr hlarge)) (hstream.symm.trans heq)
      -- A stream of messages does not end in a header that is refused.
      have hlength := congrArg List.length hrest
      rw [List.length_nil, List.length_append, hfits.length_serialize] at hlength
      omega
  · obtain ⟨⟨accepted, v⟩, hr, houtcome⟩ := hrun _ _ hcut
    have hover : Unfinished (hdr.serialize ++ t) := unfinished_of_header hfits (Or.inr hlarge)
    cases accepted with
    | true =>
      obtain ⟨front, rest, hholds, heq⟩ := houtcome
      obtain ⟨-, hrest⟩ := NetMessage.faithful.stream_unique hms (hvalid front hholds.1) hover hholds.unfinished heq
      exact absurd hrest.symm (hholds.not_oversized hfits hlarge)
    | false =>
      obtain ⟨ms', hdr', t', hms', hreceived, hfits', hlarge', heq⟩ := houtcome
      obtain ⟨hsame, -⟩ := NetMessage.faithful.stream_unique hms hms' hover
        (unfinished_of_header hfits' (Or.inr hlarge')) heq
      exact ⟨v, hr, hreceived.trans hsame.symm⟩
  · obtain ⟨r, hr, -⟩ := hrun _ _ hcut
    exact ⟨r, hr⟩

namespace Sample

def messages : List NetMessage :=
  [⟨⟨[1, 2, 3, 4], List.replicate 12 0, 0, 7⟩, []⟩, ⟨⟨[1, 2, 3, 4], List.replicate 12 1, 3, 9⟩, [10, 11, 12]⟩]

theorem messages_received : ∃ v, receiveChunks [1, 2, 3, 4] [] [(messageStream messages).take 25,
      ((messageStream messages).drop 25).take 24, (messageStream messages).drop 49] = .ok (true, v) ∧
    receivedMessages v = messages :=
  (messageFraming_independent [1, 2, 3, 4] messages (by
    intro m hm
    rcases List.mem_cons.mp hm with rfl | hm
    · exact ⟨⟨rfl, rfl⟩, rfl, Nat.zero_le _⟩
    · rw [List.mem_singleton.mp hm]
      exact ⟨⟨rfl, rfl⟩, rfl, by decide⟩)).1 _ ⟨rfl, by decide⟩

end Sample

end PupaCoin
