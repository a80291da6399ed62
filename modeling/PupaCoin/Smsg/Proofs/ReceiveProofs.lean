import PupaCoin.Lib.Ends
import PupaCoin.Smsg.Receive
import PupaCoin.Smsg.Proofs.StoreProofs

/-!
# What the handlers read, and what becomes of the buckets

For each command: where every read and copy lies inside its buffer (`IsReturn` of the ways to stop), and which buckets
there are afterwards.
-/

namespace PupaCoin.Smsg

variable {m : OrderedMap Int SecMsgBucket} {time : Int} {b : SecMsgBucket} {R : Stop → SmsgNode → Prop} {p pIn : Nat}
  {vchDataOut : Bytes}

open Exec

/-- The function returns. The other ways to stop are faults. -/
def Stop.IsReturn : Stop → Prop
  | .rv _ => True
  | .outOfBounds => False
  | .undefined _ => False

@[simp] theorem isReturn_rv (n : Int) : (Stop.rv n).IsReturn := trivial

section Memory

variable {buf bytes : Bytes} {pos len : Nat} {σ : Type} {P : σ → Prop} {Q : Bytes → σ → Prop} {R : Stop → σ → Prop}

theorem readAt_inside (h : pos + len ≤ buf.length) : readAt buf pos len = .ok ((buf.drop pos).take len) :=
  readAt_eq_ok.mpr ⟨h, rfl⟩

theorem readAt_outside (h : buf.length < pos + len) : readAt buf pos len = .error .outOfBounds :=
  if_neg (Nat.not_le.mpr h)

theorem length_of_readAt (h : readAt buf pos len = .ok bytes) : bytes.length = len := by
  obtain ⟨hin, rfl⟩ := readAt_eq_ok.mp h
  rw [List.length_take, List.length_drop]
  omega

theorem length_of_writeAt {buf' : Bytes} (h : writeAt buf pos bytes = .ok buf') : buf'.length = buf.length := by
  obtain ⟨hin, rfl⟩ := writeAt_eq_ok.mp h
  simp only [List.length_append, List.length_take, List.length_drop]
  omega

theorem ends_writeAt (h : pos + bytes.length ≤ buf.length)
    (hwrite : ∀ buf' s, buf'.length = buf.length → P s → Q buf' s) :
    Ends P (Exec.lift (writeAt buf pos bytes)) Q R := by
  refine Ends.lift (fun buf' s hbuf hs => hwrite buf' s (length_of_writeAt hbuf) hs) fun e s he _ => ?_
  unfold writeAt at he
  rw [if_pos h] at he
  cases he

theorem ends_returnIf {c : Bool} {n : Int} {Q : Unit → σ → Prop} (hok : c = false → ∀ s, P s → Q () s)
    (hstop : c = true → ∀ s, P s → R (.rv n) s) : Ends P (Exec.lift (returnIf c n)) Q R := by
  refine Ends.lift (fun _ s h hs => hok (returnIf_eq_ok.mp h) s hs) fun e s he hs => ?_
  obtain ⟨hc, rfl⟩ := Guards.stopIf_eq_error.mp he
  exact hstop hc s hs

theorem asInt_le (x : UInt32) : asInt x ≤ x.toNat := by
  have hbits : x.toInt32.toBitVec.toNat = x.toNat := rfl
  rw [asInt, Int32.toInt, BitVec.toInt_eq_toNat_cond, hbits]
  split_ifs <;> omega

theorem length_resize (vch : Bytes) (n : Nat) : (resize vch n).length = n := by
  simp [resize]
  omega

end Memory

section Effects

variable {m : OrderedMap Int SecMsgBucket} {R : Stop → SmsgNode → Prop}

/-- What a subscript makes of the buckets. -/
def subscripted (m : OrderedMap Int SecMsgBucket) (time : Int) : OrderedMap Int SecMsgBucket :=
  match m.find? time with
  | none => m.set time {}
  | some _ => m

theorem subscripted_of_some (h : m.find? time = some b) : subscripted m time = m := by
  unfold subscripted
  rw [h]

theorem find?_subscripted (m : OrderedMap Int SecMsgBucket) (time : Int) :
    (subscripted m time).find? time = some ((m.find? time).getD {}) := by
  unfold subscripted
  cases h : m.find? time with
  | none => exact OrderedMap.find?_set_self ..
  | some b => exact h

theorem find?_subscripted_of_ne {t : Int} (h : t ≠ time) : (subscripted m time).find? t = m.find? t := by
  unfold subscripted
  cases m.find? time with
  | none => exact OrderedMap.find?_set_of_ne _ _ h
  | some b => rfl

theorem subscript_eq (s : SmsgNode) (time : Int) : subscript time s
    = (.ok ((s.smsgBuckets.find? time).getD {}), { s with smsgBuckets := subscripted s.smsgBuckets time }) := by
  unfold subscript subscripted
  cases h : s.smsgBuckets.find? time with
  | none => rfl
  | some b => rfl

theorem subscript_ends {Q : SecMsgBucket → SmsgNode → Prop} (time : Int)
    (h : ∀ s : SmsgNode, s.smsgBuckets = m → Q ((m.find? time).getD {}) { s with smsgBuckets := subscripted m time }) :
    Ends (fun s => s.smsgBuckets = m) (subscript time) Q R := by
  refine Ends.of_returns fun s hs => ⟨_, _, subscript_eq s time, ?_⟩
  rw [hs]
  exact h s hs

theorem getTime_ends {clock : Nat → Int} : Ends (fun s => s.smsgBuckets = m ∧ s.clock = clock) getTime
    (fun now s => s.smsgBuckets = m ∧ now = clock 0) R :=
  Ends.of_returns fun s hs => ⟨s.clock 0, _, rfl, hs.1, congrFun hs.2 0⟩

theorem ends_getTime (s : SmsgNode) :
    Ends (fun s' => s' = s) getTime (fun now s' => s' = s.ticked ∧ now = s.clock 0) R :=
  Ends.of_returns fun s' hs' => ⟨s'.clock 0, s'.ticked, rfl, hs' ▸ ⟨rfl, rfl⟩⟩

theorem nextOutcome_ends (s : SmsgNode) : Ends (fun s' => s' = s) nextOutcome
    (fun outcome s' => (s'.smsgBuckets = s.smsgBuckets ∧ s'.clock = s.clock) ∧ outcome = s.disk 0) R :=
  Ends.of_returns fun s' hs' => ⟨s'.disk 0, _, rfl, hs' ▸ ⟨⟨rfl, rfl⟩, rfl⟩⟩

theorem ends_refuse {α : Type} {Q : α → SmsgNode → Prop} (pfrom : NodeId) :
    Ends (fun s => s.smsgBuckets = m) (misbehaving pfrom 1 >>= fun _ => Exec.stop (.rv 0)) Q
      (fun e s => e.IsReturn ∧ s.smsgBuckets = m) :=
  Ends.bind (Q := fun _ s => s.smsgBuckets = m) (Ends.update fun _ hs => hs) fun _ => Ends.stop fun _ hs =>
    ⟨trivial, hs⟩

end Effects

section Inv

variable {now : Int} {pfrom : NodeId} {vchData : Bytes} {s : SmsgNode} {m : OrderedMap Int SecMsgBucket}

theorem invBucket_ends {ncontent hash : UInt32} :
    Ends (fun s => s.smsgBuckets = m) (invBucket now pfrom time ncontent hash)
      (fun _ s => s.smsgBuckets = m ∨ InvAccepts now time ncontent ∧ s.smsgBuckets = subscripted m time) R := by
  unfold invBucket
  have hscore : Ends (fun s => s.smsgBuckets = m) (misbehaving pfrom 1) (fun _ s => s.smsgBuckets = m) R :=
    Ends.update fun s hs => hs
  refine Ends.ite (fun _ => ?_) fun hold => Ends.ite (fun _ => ?_) fun hnew => Ends.ite (fun _ => ?_) fun hcount => ?_
  · exact Ends.ite (fun _ => Ends.bind hscore fun _ => Ends.pure fun s hs => Or.inl hs) fun _ =>
      Ends.pure fun s hs => Or.inl hs
  · exact Ends.bind hscore fun _ => Ends.pure fun s hs => Or.inl hs
  · exact Ends.pure fun s hs => Or.inl hs
  · have haccepts : InvAccepts now time ncontent := ⟨not_lt.mp hold, not_lt.mp hnew, UInt32.not_lt.mp hcount⟩
    refine Ends.bind (Q := fun _ s => s.smsgBuckets = subscripted m time) (subscript_ends time fun _ _ => rfl)
      fun bucket => ?_
    exact Ends.ite (fun _ => Ends.pure fun s hs => Or.inr ⟨haccepts, hs⟩) fun _ =>
        Ends.ite (fun _ => Ends.pure fun s hs => Or.inr ⟨haccepts, hs⟩) fun _ =>
          Ends.pure fun s hs => Or.inr ⟨haccepts, hs⟩

/-- The buckets `m'` come from `m` by subscripts with accepted times among `count` buckets at `&vchData[p]`. -/
def InvSubscripts (now : Int) (vchData : Bytes) (count p : Nat) (m m' : OrderedMap Int SecMsgBucket) : Prop :=
  ∃ times : List Int, m' = times.foldl subscripted m ∧ ∀ time ∈ times, ∃ i < count,
    time = announcedTime vchData (p + 16 * i) ∧ InvAccepts now time (announcedCount vchData (p + 16 * i))

theorem InvSubscripts.refl (count p : Nat) : InvSubscripts now vchData count p m m :=
  ⟨[], rfl, nofun⟩

theorem InvSubscripts.cons {m₁ m' : OrderedMap Int SecMsgBucket} {count : Nat}
    (hfirst : m₁ = m ∨ InvAccepts now (announcedTime vchData p) (announcedCount vchData p)
      ∧ m₁ = subscripted m (announcedTime vchData p))
    (h : InvSubscripts now vchData count (p + 16) m₁ m') : InvSubscripts now vchData (count + 1) p m m' := by
  obtain ⟨times, hm', htimes⟩ := h
  have hlater : ∀ time ∈ times, ∃ i < count + 1, time = announcedTime vchData (p + 16 * i)
      ∧ InvAccepts now time (announcedCount vchData (p + 16 * i)) := by
    intro time htime
    obtain ⟨i, hi, heq, haccepts⟩ := htimes time htime
    have hplace : p + 16 + 16 * i = p + 16 * (i + 1) := by omega
    rw [hplace] at heq haccepts
    exact ⟨i + 1, by omega, heq, haccepts⟩
  rcases hfirst with rfl | ⟨haccepts, rfl⟩
  · exact ⟨times, hm', hlater⟩
  · refine ⟨announcedTime vchData p :: times, hm', fun time htime => ?_⟩
    rcases List.mem_cons.mp htime with rfl | htime
    · exact ⟨0, by omega, rfl, haccepts⟩
    · exact hlater time htime

/-- The loop of `smsgInv`: no read leaves the message, and the buckets are those that were heeded. -/
theorem invBuckets_ends (count : Nat) (hin : p + 16 * count ≤ vchData.length) {nLocked : Nat} {nShowBuckets : UInt32}
    (hout : 4 ≤ vchDataOut.length) :
    Ends (fun s => s.smsgBuckets = m) (invBuckets now pfrom vchData count p nLocked vchDataOut nShowBuckets)
      (fun r s => 4 ≤ r.2.1.length ∧ InvSubscripts now vchData count p m s.smsgBuckets) R := by
  induction count generalizing p m nLocked vchDataOut nShowBuckets with
  | zero =>
    refine Ends.pure fun s hs => ⟨hout, ?_⟩
    rw [hs]
    exact InvSubscripts.refl 0 p
  | succ count ih =>
    unfold invBuckets
    rw [readAt_inside (by omega), lift_ok_bind, readAt_inside (by omega), lift_ok_bind, readAt_inside (by omega),
      lift_ok_bind]
    refine Ends.bind invBucket_ends fun answer => Ends.of_start fun s hfirst => ?_
    have hnext : ∀ (nLocked : Nat) (vchDataOut : Bytes) (nShowBuckets : UInt32), 4 ≤ vchDataOut.length →
        Ends (fun s' => s' = s)
          (invBuckets now pfrom vchData count (p + 16) nLocked vchDataOut nShowBuckets)
          (fun r s => 4 ≤ r.2.1.length ∧ InvSubscripts now vchData (count + 1) p m s.smsgBuckets) R :=
      fun nLocked vchDataOut nShowBuckets hout =>
        ((ih (by omega) hout).pre fun s' hs' => hs' ▸ rfl).post fun r s' hr => ⟨hr.1, hr.2.cons hfirst⟩
    cases answer with
    | ignored => exact hnext _ _ _ hout
    | matched => exact hnext _ _ _ hout
    | locked => exact hnext _ _ _ hout
    | wanted =>
      have hroom : vchDataOut.length + ((vchData.drop p).take 8).length
          ≤ (resize vchDataOut (vchDataOut.length + 8)).length := by
        rw [length_resize, List.length_take]
        omega
      refine Ends.bind (Q := fun buf s' => s' = s ∧ 4 ≤ buf.length)
        (ends_writeAt hroom fun buf s' hbuf hs' => ⟨hs', ?_⟩) fun buf => Ends.of_fact fun hbuf => hnext _ _ _ hbuf
      rw [hbuf, length_resize]
      omega

/-- `smsgInv` of any bytes ends without a read or write outside of its buffers. -/
theorem smsgInv_ends (pfrom : NodeId) (vchData : Bytes) (s : SmsgNode) :
    Ends (fun s' => s' = s) (smsgInv pfrom vchData) (fun _ s' => InvHeeded pfrom vchData s
      ∧ InvSubscripts (s.clock 0) vchData (toUInt32 (vchData.take 4)).toNat 4 s.smsgBuckets s'.smsgBuckets)
    fun e s' => e.IsReturn ∧ s'.smsgBuckets = s.smsgBuckets := by
  unfold smsgInv
  refine Ends.ite (fun _ => (ends_refuse pfrom).pre fun s' hs' => hs' ▸ rfl) fun hsize => ?_
  refine Ends.bind (ends_getTime s) fun now => Ends.of_fact fun hnow => ?_
  subst hnow
  refine Ends.bind_read fun w hw => ?_
  subst hw
  refine Ends.bind (Q := fun _ s' => s'.smsgBuckets = s.smsgBuckets ∧ s.ignoreUntil pfrom ≤ s.clock 0)
    (ends_returnIf (fun hc s' hs' => ⟨hs' ▸ rfl, not_lt.mp (of_decide_eq_false hc)⟩) fun _ s' hs' =>
      ⟨trivial, hs' ▸ rfl⟩) fun _ => Ends.of_fact fun hheeded => ?_
  rw [readAt_inside (by omega), lift_ok_bind, List.drop_zero]
  refine Ends.ite (fun _ => ends_refuse pfrom) fun hcount => Ends.ite (fun _ => ends_refuse pfrom) fun hdata => ?_
  -- as many as can be announced, so that the product does not wrap
  have hfew : (toUInt32 (vchData.take 4)).toNat ≤ 289 := UInt32.le_iff_toNat_le.mp (UInt32.not_lt.mp hcount)
  have hinside : 4 + 16 * (toUInt32 (vchData.take 4)).toNat ≤ vchData.length := by
    rw [UInt32.toNat_add, UInt32.toNat_mul] at hdata
    simp only [UInt32.reduceToNat] at hdata
    omega
  have hpasses : InvHeeded pfrom vchData s := ⟨not_lt.mp hsize, hheeded, UInt32.not_lt.mp hcount, hinside⟩
  refine Ends.bind (invBuckets_ends _ hinside (by simp)) fun r => Ends.of_start fun t ht => ?_
  obtain ⟨nLocked, vchDataOut, nShowBuckets⟩ := r
  refine Ends.bind (Q := fun buf s' => s' = t ∧ buf.length = vchDataOut.length)
    (ends_writeAt (by simpa using ht.1) fun buf s' hbuf hs' => ⟨hs', hbuf⟩) fun buf => Ends.of_fact fun hbuf => ?_
  refine Ends.ite (fun _ => Ends.update fun s' hs' => hs' ▸ ⟨hpasses, ht.2⟩) fun _ => Ends.ite (fun _ => ?_) fun _ =>
    Ends.pure fun s' hs' => hs' ▸ ⟨hpasses, ht.2⟩
  refine Ends.bind (Q := fun _ s' => s' = t)
    (ends_writeAt (by rw [length_resize, LittleEndian.length_ofInt]) fun _ s' _ hs' => hs') fun _ =>
      Ends.update fun s' hs' => hs' ▸ ⟨hpasses, ht.2⟩

end Inv

section Show

variable {pfrom : NodeId} {vchData : Bytes} {s : SmsgNode} {m : OrderedMap Int SecMsgBucket}

theorem writeTokens_inside (tokens : List (TokenKey × Int)) (h : p + 16 * tokens.length ≤ vchDataOut.length)
    : ∃ buf, writeTokens vchDataOut p tokens = .ok buf := by
  induction tokens generalizing vchDataOut p with
  | nil => exact ⟨vchDataOut, rfl⟩
  | cons token tokens ih =>
    rw [List.length_cons] at h
    obtain ⟨buf₁, h₁⟩ : ∃ buf, writeAt vchDataOut p (LittleEndian.ofInt 8 (ofLex token.1).1) = .ok buf :=
      ⟨_, if_pos (by rw [LittleEndian.length_ofInt]; omega)⟩
    have hlength₁ := length_of_writeAt h₁
    obtain ⟨buf₂, h₂⟩ : ∃ buf, writeAt buf₁ (p + 8) (ofLex token.1).2.val = .ok buf :=
      ⟨_, if_pos (by rw [(ofLex token.1).2.property]; omega)⟩
    have hlength₂ := length_of_writeAt h₂
    unfold writeTokens
    rw [h₁, Guards.ok_bind, h₂, Guards.ok_bind]
    exact ih (by omega)

theorem showBucket_ends (pfrom : NodeId) (bucket : SecMsgBucket) {time : Bytes} (vchDataOut : Bytes) (htime : time.length = 8) :
    Ends (fun s => s.smsgBuckets = m) (showBucket pfrom time bucket vchDataOut) (fun _ s => s.smsgBuckets = m) R := by
  unfold showBucket
  refine Ends.bind (Q := fun buf s => s.smsgBuckets = m ∧ 8 + 16 * bucket.setTokens.entries.length ≤ buf.length)
    (ends_writeAt (by rw [length_resize, htime]; omega) fun buf s hbuf hs => ⟨hs, ?_⟩) fun buf =>
      Ends.of_fact fun hbuf => ?_
  · rw [hbuf, length_resize]
  · obtain ⟨vchDataOut', hwrite⟩ := writeTokens_inside _ hbuf
    rw [hwrite, lift_ok_bind]
    exact Ends.bind (Q := fun _ s => s.smsgBuckets = m) (Ends.update fun _ hs => hs) fun _ => Ends.pure fun _ hs => hs

theorem showBuckets_ends (count : Nat) (hin : pIn + 8 * count ≤ vchData.length) (vchDataOut : Bytes) :
    Ends (fun s => s.smsgBuckets = m) (showBuckets pfrom vchData count pIn vchDataOut)
      (fun _ s => s.smsgBuckets = m) R := by
  induction count generalizing pIn vchDataOut with
  | zero => exact Ends.pure fun _ hs => hs
  | succ count ih =>
    unfold showBuckets
    rw [readAt_inside (by omega), lift_ok_bind]
    refine Ends.bind_read fun w hw => Ends.pre ?_ fun s' hs' => hs' ▸ hw
    cases w.smsgBuckets.find? (LittleEndian.toInt ((vchData.drop pIn).take 8)) with
    | none => exact ih (by omega) _
    | some bucket =>
      have htime : ((vchData.drop pIn).take 8).length = 8 := by
        rw [List.length_take, List.length_drop]
        omega
      exact Ends.bind (showBucket_ends pfrom bucket _ htime) fun vchDataOut => ih (by omega) vchDataOut

theorem showBuckets_outside (count : Nat) (hin : pIn ≤ vchData.length) (hout : vchData.length < pIn + 8 * count)
    (vchDataOut : Bytes) (s : SmsgNode) :
    (showBuckets pfrom vchData count pIn vchDataOut s).1 = .error .outOfBounds := by
  induction count generalizing pIn vchDataOut s with
  | zero => omega
  | succ count ih =>
    unfold showBuckets
    by_cases hread : vchData.length < pIn + 8
    · rw [readAt_outside hread]
      rfl
    · rw [readAt_inside (by omega), lift_ok_bind, Exec.read_bind]
      cases s.smsgBuckets.find? (LittleEndian.toInt ((vchData.drop pIn).take 8)) with
      | none => exact ih (by omega) (by omega) _ _
      | some bucket =>
        have htime : ((vchData.drop pIn).take 8).length = 8 := by
          rw [List.length_take, List.length_drop]
          omega
        have hends := showBucket_ends pfrom bucket vchDataOut (R := fun _ _ => False) htime s rfl
        cases hrun : showBucket pfrom ((vchData.drop pIn).take 8) bucket vchDataOut s with
        | mk r t =>
          cases r with
          | error e => exact (hends.2 e t hrun).elim
          | ok buf =>
            change ((showBucket pfrom _ bucket vchDataOut >>= _) s).1 = _
            rw [Exec.bind_of_ok hrun]
            exact ih (by omega) (by omega) _ _

theorem smsgShow_ends (pfrom : NodeId) {vchData : Bytes} (s : SmsgNode)
    (hinside : 4 ≤ vchData.length → (4 + toUInt32 (vchData.take 4) * 8).toNat ≤ vchData.length →
      4 + 8 * (toUInt32 (vchData.take 4)).toNat ≤ vchData.length) :
    Ends (fun s' => s' = s) (smsgShow pfrom vchData) (fun _ s' => s'.smsgBuckets = s.smsgBuckets)
      fun e s' => e.IsReturn ∧ s'.smsgBuckets = s.smsgBuckets := by
  unfold smsgShow
  refine Ends.bind (Q := fun _ s' => s' = s ∧ 4 ≤ vchData.length)
    (ends_returnIf (fun hc s' hs' => ⟨hs', by simpa using hc⟩) fun _ s' hs' => ⟨trivial, hs' ▸ rfl⟩) fun _ =>
      Ends.of_fact fun hsize => ?_
  rw [readAt_inside (by omega), lift_ok_bind, List.drop_zero]
  refine Ends.bind (Q := fun _ s' => s' = s ∧ (4 + toUInt32 (vchData.take 4) * 8).toNat ≤ vchData.length)
    (ends_returnIf (fun hc s' hs' => ⟨hs', by simpa using hc⟩) fun _ s' hs' => ⟨trivial, hs' ▸ rfl⟩) fun _ =>
      Ends.of_fact fun hdata => ?_
  exact (showBuckets_ends _ (hinside hsize hdata) []).pre fun s' hs' => hs' ▸ rfl

/-- `smsgShow` reads behind the message exactly when the size of its buckets wraps in 32 bits. -/
theorem smsgShow_outOfBounds_iff (pfrom : NodeId) (vchData : Bytes) (s : SmsgNode) :
    (smsgShow pfrom vchData s).1 = .error .outOfBounds ↔ 4 ≤ vchData.length
      ∧ (4 + toUInt32 (vchData.take 4) * 8).toNat ≤ vchData.length
      ∧ vchData.length < 4 + 8 * (toUInt32 (vchData.take 4)).toNat := by
  constructor
  · intro hfault
    by_contra hnot
    have hinside : 4 ≤ vchData.length → (4 + toUInt32 (vchData.take 4) * 8).toNat ≤ vchData.length →
        4 + 8 * (toUInt32 (vchData.take 4)).toNat ≤ vchData.length := fun hsize hdata => by
      by_contra hout
      exact hnot ⟨hsize, hdata, by omega⟩
    exact ((smsgShow_ends pfrom s hinside s rfl).2 _ _ (Exec.eq_of_fst hfault)).1
  · rintro ⟨hsize, hdata, hout⟩
    unfold smsgShow
    have hchecked : ∀ {k n : Nat}, n ≤ k → returnIf (decide (k < n)) 0 = .ok () := fun h =>
      returnIf_eq_ok.mpr (by simpa using h)
    rw [hchecked hsize, lift_ok_bind, readAt_inside (by omega), lift_ok_bind, List.drop_zero]
    change ((Exec.lift (returnIf (decide (vchData.length < (4 + toUInt32 (vchData.take 4) * 8).toNat)) 0) >>= _) s).1
      = _
    rw [hchecked hdata, lift_ok_bind]
    exact showBuckets_outside _ hsize hout [] s

end Show

section Have

variable {pfrom : NodeId} {vchData : Bytes} {now : Int} {s : SmsgNode} {m m' : OrderedMap Int SecMsgBucket}

theorem siftTokens_inside (vchData : Bytes) (tokenSet : TokenSet) (n : Nat) (hin : p + 16 * n ≤ vchData.length)
    (vchDataOut : Bytes) : ∃ out, siftTokens tokenSet vchData n p vchDataOut = .ok out
      ∧ (tokenSet = OrderedMap.empty → out.length = vchDataOut.length + 16 * n) := by
  induction n generalizing p vchDataOut with
  | zero => exact ⟨vchDataOut, rfl, fun _ => rfl⟩
  | succ n ih =>
    unfold siftTokens
    rw [readAt_inside (by omega), Guards.ok_bind, readAt_inside (by omega), Guards.ok_bind]
    split_ifs with hknown
    · obtain ⟨out, hout, -⟩ := ih (p := p + 16) (by omega) vchDataOut
      refine ⟨out, hout, fun hempty => ?_⟩
      rw [hempty] at hknown
      cases hknown
    · have hlength : ((vchData.drop p).take 16).length = 16 := by
        rw [List.length_take, List.length_drop]
        omega
      obtain ⟨buf, hwrite⟩ : ∃ buf, writeAt (resize vchDataOut (vchDataOut.length + 16)) vchDataOut.length
          ((vchData.drop p).take 16) = .ok buf := ⟨_, if_pos (by rw [length_resize, hlength])⟩
      have hbuf := length_of_writeAt hwrite
      rw [length_resize] at hbuf
      obtain ⟨out, hout, hall⟩ := ih (p := p + 16) (by omega) buf
      rw [readAt_inside (by omega), Guards.ok_bind, hwrite, Guards.ok_bind]
      refine ⟨out, hout, fun hempty => ?_⟩
      rw [hall hempty, hbuf]
      omega

/-- What `smsgHave` makes of the buckets: nothing; a look at the bucket, which is locked or of which no token is
    missing; or a lock for the peer. -/
inductive HaveOutcome (pfrom : NodeId) (vchData : Bytes) (now : Int) (m m' : OrderedMap Int SecMsgBucket) : Prop
  | unchanged (h : m' = m)
  | looked (hin : 8 ≤ vchData.length) (hold : now - smsgRetention ≤ haveTime vchData)
      (hnew : haveTime vchData ≤ now + smsgTimeLeeway) (h : m' = subscripted m (haveTime vchData))
      (hwhy : 0 < ((m.find? (haveTime vchData)).getD {}).nLockCount ∨
        (((m.find? (haveTime vchData)).getD {}).setTokens = OrderedMap.empty → vchData.length < 24))
  | locked (hin : 8 ≤ vchData.length) (hold : now - smsgRetention ≤ haveTime vchData)
      (hnew : haveTime vchData ≤ now + smsgTimeLeeway)
      (h : m' = (subscripted m (haveTime vchData)).set (haveTime vchData)
        { (m.find? (haveTime vchData)).getD {} with nLockCount := 3, nLockPeerId := pfrom })

theorem updateBucket_of_some (h : s.smsgBuckets.find? time = some b) (f : SecMsgBucket → SecMsgBucket) :
    s.updateBucket time f = { s with smsgBuckets := s.smsgBuckets.set time (f b) } := by
  unfold SmsgNode.updateBucket
  rw [h]

/-- `smsgHave` of any bytes ends likewise. -/
theorem smsgHave_ends (pfrom : NodeId) (vchData : Bytes) (s : SmsgNode) :
    Ends (fun s' => s' = s) (smsgHave pfrom vchData)
      (fun _ s' => HaveOutcome pfrom vchData (s.clock 0) s.smsgBuckets s'.smsgBuckets)
    fun e s' => e.IsReturn ∧ HaveOutcome pfrom vchData (s.clock 0) s.smsgBuckets s'.smsgBuckets := by
  unfold smsgHave
  refine Ends.bind (Q := fun _ s' => s' = s ∧ 8 ≤ vchData.length)
    (ends_returnIf (fun hc s' hs' => ⟨hs', by simpa using hc⟩) fun _ s' hs' => ⟨trivial, .unchanged (hs' ▸ rfl)⟩)
    fun _ => Ends.of_fact fun hsize => ?_
  rw [readAt_inside (by omega), lift_ok_bind, List.drop_zero]
  refine Ends.bind (ends_getTime s) fun now => Ends.of_fact fun hnow => ?_
  subst hnow
  change Ends _ (Exec.lift (returnIf (decide (haveTime vchData < s.clock 0 - smsgRetention)) 0) >>= _) _ _
  refine Ends.bind (Q := fun _ s' => s'.smsgBuckets = s.smsgBuckets ∧ s.clock 0 - smsgRetention ≤ haveTime vchData)
    (ends_returnIf (fun hc s' hs' => ⟨hs' ▸ rfl, by simpa using hc⟩) fun _ s' hs' => ⟨trivial, .unchanged (hs' ▸ rfl)⟩)
    fun _ => Ends.of_fact fun hold => ?_
  refine Ends.ite (fun _ => (ends_refuse pfrom).mono (fun _ h => h) (fun _ _ h => h) fun e s' h =>
    ⟨h.1, .unchanged h.2⟩) fun hfuture => ?_
  have hnew : haveTime vchData ≤ s.clock 0 + smsgTimeLeeway := not_lt.mp hfuture
  refine Ends.bind (Q := fun b s' => s'.smsgBuckets = subscripted s.smsgBuckets (haveTime vchData)
    ∧ b = (s.smsgBuckets.find? (haveTime vchData)).getD {}) (subscript_ends _ fun _ _ => ⟨rfl, rfl⟩)
    fun bucket => Ends.of_fact fun hbucket => ?_
  refine Ends.bind (Q := fun _ s' => s'.smsgBuckets = subscripted s.smsgBuckets (haveTime vchData))
    (ends_returnIf (fun _ s' hs' => hs') fun hc s' hs' =>
      ⟨trivial, .looked hsize hold hnew hs' (Or.inl (hbucket ▸ by simpa using hc))⟩) fun _ => ?_
  rw [lift_ok_bind]
  refine Ends.bind (Q := fun buf s' => s'.smsgBuckets = subscripted s.smsgBuckets (haveTime vchData) ∧ buf.length = 8)
    (ends_writeAt (by simp [length_resize]) fun buf s' hbuf hs' => ⟨hs', by rw [hbuf, length_resize]⟩)
    fun buf => Ends.of_fact fun hbuf => ?_
  obtain ⟨out, hsift, hall⟩ := siftTokens_inside vchData bucket.setTokens ((vchData.length - 8) / 16)
    (p := 8) (by omega) buf
  rw [hsift, lift_ok_bind]
  refine Ends.ite (fun _ => ?_) fun hfew => Ends.pure fun s' hs' =>
    .looked hsize hold hnew hs' (Or.inr fun hempty => ?_)
  · refine Ends.bind (Q := fun _ s' => HaveOutcome pfrom vchData (s.clock 0) s.smsgBuckets s'.smsgBuckets)
      (Ends.update fun s' hs' => .locked hsize hold hnew ?_) fun _ => Ends.update fun _ hs' => hs'
    have hfound : s'.smsgBuckets.find? (haveTime vchData) = some bucket := by rw [hs', find?_subscripted, hbucket]
    change (s'.updateBucket (haveTime vchData) _).smsgBuckets = _
    rw [updateBucket_of_some hfound, hbucket, ← hs']
  · have := hall (hbucket ▸ hempty)
    omega

end Have

section Store

variable {env : StoreEnv} {buf : Bytes} {p : Nat} {nPayload : UInt32} {fUpdateBucket : Bool} {s : SmsgNode}
  {m : OrderedMap Int SecMsgBucket}

def bucketFor (m : OrderedMap Int SecMsgBucket) (key : TokenKey) : SecMsgBucket :=
  (m.find? (bucketOf (ofLex key).1)).getD {}

/-- What `SecureMsgStore` makes of the buckets: nothing; a look at the bucket, where the message is known or the file
    system fails; or a token more. -/
inductive StoreOutcome (env : StoreEnv) (key : TokenKey) (fUpdateBucket : Bool) (s : SmsgNode)
    (m : OrderedMap Int SecMsgBucket) : Prop
  | unchanged (h : m = s.smsgBuckets)
  | looked (hcomes : StoreComes s (ofLex key).1) (h : m = subscripted s.smsgBuckets (bucketOf (ofLex key).1))
      (hwhy : ((bucketFor s.smsgBuckets key).setTokens.find? key).isSome = true ∨ s.disk 0 ≠ .ok)
  | added (b : SecMsgBucket) (ofs : Int) (hcomes : StoreComes s (ofLex key).1) (hdisk : s.disk 0 = .ok)
      (hnew : (bucketFor s.smsgBuckets key).setTokens.find? key = none)
      (htokens : b.setTokens = (bucketFor s.smsgBuckets key).setTokens.insert key ofs)
      (hlock : b.nLockCount = (bucketFor s.smsgBuckets key).nLockCount)
      (hhash : fUpdateBucket = true → b.hash = env.xxh32 b.setTokens.samples)
      (h : ∀ t, m.find? t = if t = bucketOf (ofLex key).1 then some b else s.smsgBuckets.find? t)

theorem appendRecord_ends {outcome : DiskOutcome} {bucket : Int} {record : Bytes} :
    Ends (fun s => s.smsgBuckets = m) (appendRecord outcome bucket (.ok record))
      (fun _ s => s.smsgBuckets = m ∧ outcome = .ok) fun e s => (e.IsReturn ∧ outcome ≠ .ok) ∧ s.smsgBuckets = m := by
  unfold appendRecord
  refine Ends.bind_read fun w hw => Ends.pre ?_ fun s' hs' => hs' ▸ hw
  cases outcome with
  | ok =>
    change Ends _ (Exec.update _ >>= fun _ => pure _) _ _
    exact Ends.bind (Q := fun _ s => s.smsgBuckets = m) (Ends.update fun _ hs => hs) fun _ =>
      Ends.pure fun _ hs => ⟨hs, rfl⟩
  | noDirectory => exact Ends.stop fun s hs => ⟨⟨trivial, by simp⟩, hs⟩
  | noFile => exact Ends.stop fun s hs => ⟨⟨trivial, by simp⟩, hs⟩
  | noSeek =>
    exact Ends.bind (Q := fun _ s => s.smsgBuckets = m) (Ends.update fun _ hs => hs) fun _ =>
      Ends.stop fun s hs => ⟨⟨trivial, by simp⟩, hs⟩
  | torn k =>
    change Ends _ (Exec.update _ >>= fun _ => Exec.stop (Stop.rv 1)) _ _
    exact Ends.bind (Q := fun _ s => s.smsgBuckets = m) (Ends.update fun _ hs => hs) fun _ =>
      Ends.stop fun s hs => ⟨⟨trivial, by simp⟩, hs⟩

theorem tokenSample_inside (hin : p + smsgHdrLen + nPayload.toNat ≤ buf.length) :
    tokenSample buf (p + smsgHdrLen) (asInt nPayload) = .ok (ofLex (tokenAt buf p nPayload)).2 := by
  have hle := asInt_le nPayload
  unfold tokenSample
  change _ = Except.ok (Sample.ofBytes (if asInt nPayload < 8 then _ else _))
  by_cases hshort : asInt nPayload < 8
  · rw [if_pos hshort, if_pos hshort]
    rfl
  · rw [if_neg hshort, if_neg hshort, readAt_inside (by omega)]
    rfl

/-- `SecureMsgStore` of a message inside of the buffer stores its token in the bucket of its time. -/
theorem secureMsgStore_ends (hin : p + smsgHdrLen + nPayload.toNat ≤ buf.length) (env : StoreEnv)
    (fUpdateBucket : Bool) (s : SmsgNode) : Ends (fun s' => s' = s) (secureMsgStore env buf p nPayload fUpdateBucket)
      (fun _ s' => StoreOutcome env (tokenAt buf p nPayload) fUpdateBucket s s'.smsgBuckets)
      fun e s' => e.IsReturn ∧ StoreOutcome env (tokenAt buf p nPayload) fUpdateBucket s s'.smsgBuckets := by
  let key := tokenAt buf p nPayload
  let t₀ := bucketOf (timeAt buf p)
  let bucket := bucketFor s.smsgBuckets key
  unfold secureMsgStore
  rw [readAt_inside (by omega), lift_ok_bind]
  refine Ends.bind (nextOutcome_ends s) fun outcome => Ends.of_fact fun houtcome => ?_
  subst houtcome
  refine Ends.bind (Q := fun _ s' => (s'.smsgBuckets = s.smsgBuckets ∧ s'.clock = s.clock) ∧ s.disk 0 ≠ .noDirectory)
    (ends_returnIf (fun hc s' hs' => ⟨hs', by simpa using hc⟩) fun _ s' hs' => ⟨trivial, .unchanged hs'.1⟩)
    fun _ => Ends.of_fact fun hdirectory => ?_
  refine Ends.bind getTime_ends fun now => Ends.of_fact fun hnow => ?_
  subst hnow
  change Ends _ (Exec.lift (returnIf (decide (timeAt buf p > s.clock 0 + smsgTimeLeeway)) 1) >>= _) _ _
  refine Ends.bind (Q := fun _ s' => s'.smsgBuckets = s.smsgBuckets ∧ timeAt buf p ≤ s.clock 0 + smsgTimeLeeway)
    (ends_returnIf (fun hc s' hs' => ⟨hs', not_lt.mp (of_decide_eq_false hc)⟩) fun _ s' hs' =>
      ⟨trivial, .unchanged hs'⟩) fun _ => Ends.of_fact fun hnew => ?_
  refine Ends.bind (Q := fun _ s' => s'.smsgBuckets = s.smsgBuckets ∧ s.clock 0 - smsgRetention ≤ timeAt buf p)
    (ends_returnIf (fun hc s' hs' => ⟨hs', not_lt.mp (of_decide_eq_false hc)⟩) fun _ s' hs' =>
      ⟨trivial, .unchanged hs'⟩) fun _ => Ends.of_fact fun hold => ?_
  have hcomes : StoreComes s (ofLex key).1 := ⟨hdirectory, hnew, hold⟩
  rw [tokenSample_inside hin, lift_ok_bind]
  change Ends _ (subscript t₀ >>= _) _ _
  refine Ends.bind (Q := fun b s' => s'.smsgBuckets = subscripted s.smsgBuckets t₀ ∧ b = bucket)
    (subscript_ends _ fun s' _ => ⟨rfl, rfl⟩) fun b => Ends.of_fact fun hb => ?_
  subst hb
  change Ends _ (Exec.lift (returnIf (bucket.setTokens.find? key).isSome 1) >>= _) _ _
  refine Ends.bind (Q := fun _ s' => s'.smsgBuckets = subscripted s.smsgBuckets t₀
      ∧ bucket.setTokens.find? key = none)
    (ends_returnIf (fun hc s' hs' => ⟨hs', by simpa using hc⟩) fun hc s' hs' =>
      ⟨trivial, .looked hcomes hs' (Or.inl hc)⟩) fun _ => Ends.of_fact fun hunknown => ?_
  rw [readAt_inside hin]
  refine Ends.bind (appendRecord_ends.mono (fun _ h => h) (fun _ _ h => h) fun e s' h =>
    ⟨h.1.1, .looked hcomes h.2 (Or.inr h.1.2)⟩) fun ofs => Ends.of_fact fun hdisk => ?_
  let inserted : SecMsgBucket := { bucket with setTokens := bucket.setTokens.insert key ofs }
  have hinsert : ∀ s' : SmsgNode, s'.smsgBuckets = subscripted s.smsgBuckets t₀ →
      ∀ t, (s'.updateBucket t₀ fun b => { b with setTokens := b.setTokens.insert key ofs }).smsgBuckets.find? t
        = if t = t₀ then some inserted else s.smsgBuckets.find? t := by
    intro s' hs' t
    rw [updateBucket_find?, hs', find?_subscripted]
    split_ifs with ht
    · rfl
    · exact find?_subscripted_of_ne ht
  refine Ends.bind (Q := fun _ s' => ∀ t, s'.smsgBuckets.find? t
      = if t = t₀ then some inserted else s.smsgBuckets.find? t)
    (Ends.update fun s' hs' => hinsert s' hs') fun _ => ?_
  cases fUpdateBucket with
  | false =>
    exact Ends.pure fun s' hs' => .added inserted ofs hcomes hdisk hunknown rfl rfl (fun h => (nomatch h)) hs'
  | true =>
    refine Ends.of_returns fun s' hs' => ?_
    obtain ⟨t', hrun, -, hfind⟩ := hashBucket_apply env s' t₀
    refine ⟨(), t', hrun, .added
      { inserted with timeChanged := s'.clock 0, hash := env.xxh32 inserted.setTokens.samples } ofs hcomes hdisk
      hunknown rfl rfl (fun _ => rfl) fun t => ?_⟩
    change _ = if t = t₀ then _ else _
    rw [hfind, hs', hs', if_pos rfl]
    split_ifs <;> rfl

end Store

end PupaCoin.Smsg
