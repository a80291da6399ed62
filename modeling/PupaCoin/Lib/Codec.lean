import PupaCoin.Lib.Exec

/-!
# Codecs

A reader takes a value from the front of a byte string. It is faithful to a writer when it reads back what the
writer has written, whatever follows, and accepts nothing else; then no two byte strings are read as the same
value.
-/

namespace Codec

variable {bytes rest rest' : List UInt8}

variable {ε α β : Type}

/-- A reader leaves what it has not read. -/
abbrev Reader (ε α : Type) := Exec (List UInt8) ε α

/-- `read` returns a value exactly where it is a valid one and the string starts with what `write` writes of
it. -/
def Faithful (valid : α → Prop) (write : α → List UInt8) (read : Reader ε α) : Prop :=
  ∀ bytes a rest, read bytes = (.ok a, rest) ↔ valid a ∧ bytes = write a ++ rest

section Faithful

variable {valid : α → Prop} {write : α → List UInt8} {read : Reader ε α}

theorem Faithful.reads (h : Faithful valid write read) {a : α} (ha : valid a) (rest : List UInt8) :
    read (write a ++ rest) = (.ok a, rest) := (h _ _ _).mpr ⟨ha, rfl⟩

theorem Faithful.valid_of_read (h : Faithful valid write read) {a : α} (hread : read bytes = (.ok a, rest))
    : valid a := ((h _ _ _).mp hread).1

theorem Faithful.eq_of_read (h : Faithful valid write read) {a : α} (hread : read bytes = (.ok a, rest))
    : bytes = write a ++ rest := ((h _ _ _).mp hread).2

theorem Faithful.canonical (h : Faithful valid write read) {bytes' : List UInt8} {a a' : α}
    (hread : read (bytes ++ rest) = (.ok a, rest)) (hread' : read (bytes' ++ rest') = (.ok a', rest'))
    (heq : write a = write a') : bytes = bytes' := by
  have hbytes : bytes = write a := List.append_cancel_right (h.eq_of_read hread)
  have hbytes' : bytes' = write a' := List.append_cancel_right (h.eq_of_read hread')
  rw [hbytes, hbytes', heq]

theorem Faithful.bind_iff (h : Faithful valid write read) {f : α → Reader ε β} {b : β} :
    (read >>= f) bytes = (.ok b, rest) ↔ ∃ a t, valid a ∧ bytes = write a ++ t ∧ f a t = (.ok b, rest) := by
  rw [Exec.bind_returns]
  constructor
  · rintro ⟨a, t, hread, hf⟩
    exact ⟨a, t, h.valid_of_read hread, h.eq_of_read hread, hf⟩
  · rintro ⟨a, t, ha, rfl, hf⟩
    exact ⟨a, t, h.reads ha t, hf⟩

theorem Faithful.congr {valid' : α → Prop} {write' : α → List UInt8} (h : Faithful valid write read)
    (hvalid : ∀ a, valid' a ↔ valid a) (hwrite : ∀ a, valid a → write' a = write a) :
    Faithful valid' write' read := by
  intro bytes a rest
  rw [h bytes a rest, hvalid]
  constructor
  · rintro ⟨ha, hbytes⟩
    exact ⟨ha, hbytes.trans (by rw [hwrite a ha])⟩
  · rintro ⟨ha, hbytes⟩
    exact ⟨ha, hbytes.trans (by rw [hwrite a ha])⟩

theorem Faithful.check (h : Faithful valid write read) (refused : α → Prop) [DecidablePred refused] (e : ε) :
    Faithful (fun a => valid a ∧ ¬refused a) write (do
      let a ← read
      if refused a then Exec.stop e
      return a) := by
  intro bytes a rest
  rw [h.bind_iff]
  constructor
  · rintro ⟨b, t, hb, rfl, hread⟩
    by_cases hrefused : refused b
    · rw [if_pos hrefused] at hread
      exact nomatch congrArg Prod.fst hread
    · rw [if_neg hrefused] at hread
      obtain ⟨hab, ht⟩ := Prod.mk.inj hread
      rw [← Except.ok.inj hab, ← ht]
      exact ⟨⟨hb, hrefused⟩, rfl⟩
  · rintro ⟨⟨ha, hrefused⟩, rfl⟩
    refine ⟨a, rest, ha, rfl, ?_⟩
    rw [if_neg hrefused]
    rfl

theorem Faithful.map (h : Faithful valid write read) {f : α → β} {g : β → α} {valid' : β → Prop}
    (hf : ∀ a, valid a → valid' (f a) ∧ g (f a) = a) (hg : ∀ b, valid' b → valid (g b) ∧ f (g b) = b) :
    Faithful valid' (fun b => write (g b)) (do let a ← read; return f a) := by
  intro bytes b rest
  rw [h.bind_iff]
  constructor
  · rintro ⟨a, t, ha, hbytes, hpure⟩
    obtain ⟨hb, ht⟩ := Prod.mk.inj hpure
    rw [← Except.ok.inj hb, ← ht]
    show valid' (f a) ∧ bytes = write (g (f a)) ++ t
    rw [(hf a ha).2]
    exact ⟨(hf a ha).1, hbytes⟩
  · rintro ⟨hb, hbytes⟩
    refine ⟨g b, rest, (hg b hb).1, hbytes, ?_⟩
    rw [(hg b hb).2]
    rfl

theorem Faithful.prefixed (h : Faithful valid write read) {key : β → α} {valid' : β → Prop} {write' : β → List UInt8}
    {read' : α → Reader ε β} (h' : ∀ a, valid a → Faithful (fun b => key b = a ∧ valid' b) write' (read' a)) :
    Faithful (fun b => valid (key b) ∧ valid' b) (fun b => write (key b) ++ write' b) (read >>= read') := by
  intro bytes b rest
  rw [h.bind_iff]
  constructor
  · rintro ⟨a, t, ha, rfl, hread⟩
    obtain ⟨⟨hkey, hb⟩, rfl⟩ := (h' a ha _ _ _).mp hread
    show (valid (key b) ∧ valid' b) ∧ write a ++ (write' b ++ rest) = write (key b) ++ write' b ++ rest
    rw [hkey, List.append_assoc]
    exact ⟨⟨ha, hb⟩, rfl⟩
  · rintro ⟨⟨hkey, hb⟩, rfl⟩
    refine ⟨key b, write' b ++ rest, hkey, List.append_assoc _ _ _, ?_⟩
    exact (h' _ hkey _ _ _).mpr ⟨⟨rfl, hb⟩, rfl⟩

theorem faithful_pure (a : α) : Faithful (· = a) (fun _ => []) (pure a : Reader ε α) := by
  intro bytes b rest
  constructor
  · intro hread
    obtain ⟨hb, hrest⟩ := Prod.mk.inj hread
    exact ⟨(Except.ok.inj hb).symm, hrest⟩
  · rintro ⟨rfl, rfl⟩
    rfl

end Faithful

/-- The next `k` bytes. -/
def takeBytes (eof : ε) (k : Nat) : Reader ε (List UInt8) := fun bytes =>
  if bytes.length < k then (.error eof, bytes) else (.ok (bytes.take k), bytes.drop k)

theorem faithful_takeBytes (eof : ε) (k : Nat) :
    Faithful (fun b : List UInt8 => b.length = k) id (takeBytes eof k) := by
  intro bytes b rest
  rw [takeBytes]
  split_ifs with hshort
  · constructor
    · intro hread
      exact nomatch congrArg Prod.fst hread
    · rintro ⟨hk, rfl⟩
      rw [id, List.length_append] at hshort
      omega
  · constructor
    · intro hread
      obtain ⟨hb, hrest⟩ := Prod.mk.inj hread
      rw [← Except.ok.inj hb, ← hrest]
      exact ⟨List.length_take_of_le (Nat.le_of_not_lt hshort), (List.take_append_drop k bytes).symm⟩
    · rintro ⟨hk, rfl⟩
      rw [id, ← hk, List.take_left, List.drop_left]

/-- `k` values, one after the other. -/
def readMany (read : Reader ε α) : Nat → Reader ε (List α)
  | 0 => pure []
  | k + 1 => do
    let x ← read
    let xs ← readMany read k
    return x :: xs

/-- `n` values in blocks of at most `block`; every block takes a value, so `n` is enough fuel. -/
def inBlocks (readBlock : Nat → Reader ε (List α)) (block : Nat) : Nat → Nat → Reader ε (List α)
  | 0, _ => pure []
  | fuel + 1, n =>
    if n = 0 then pure []
    else do
      let xs ← readBlock (min n block)
      let ys ← inBlocks readBlock block fuel (n - min n block)
      return xs ++ ys

section Lists

variable {valid : α → Prop} {write : α → List UInt8} {read : Reader ε α}

/-- A list of `k` valid values. -/
def ValidList (valid : α → Prop) (k : Nat) (xs : List α) : Prop := xs.length = k ∧ ∀ x ∈ xs, valid x

theorem faithful_nil : Faithful (ValidList valid 0) (List.flatMap write) (pure [] : Reader ε (List α)) := by
  intro bytes xs rest
  rw [faithful_pure []]
  constructor
  · rintro ⟨rfl, hbytes⟩
    exact ⟨⟨rfl, fun x hx => nomatch hx⟩, hbytes⟩
  · rintro ⟨⟨hnil, -⟩, hbytes⟩
    have hxs : xs = [] := List.eq_nil_of_length_eq_zero hnil
    rw [hxs] at hbytes
    exact ⟨hxs, hbytes⟩

theorem Faithful.readMany (h : Faithful valid write read) (k : Nat) :
    Faithful (ValidList valid k) (List.flatMap write) (readMany read k) := by
  induction k with
  | zero => exact faithful_nil
  | succ k ih =>
    intro bytes xs rest
    rw [Codec.readMany, h.bind_iff]
    constructor
    · rintro ⟨x, t, hx, rfl, hread⟩
      obtain ⟨ys, t', ⟨hlength, hys⟩, rfl, hpure⟩ := ih.bind_iff.mp hread
      obtain ⟨hxs, ht⟩ := Prod.mk.inj hpure
      rw [← Except.ok.inj hxs, ← ht, List.flatMap_cons, List.append_assoc]
      refine ⟨⟨by rw [List.length_cons, hlength], fun y hy => ?_⟩, rfl⟩
      rcases List.mem_cons.mp hy with rfl | hy
      · exact hx
      · exact hys y hy
    · rintro ⟨⟨hlength, hxs⟩, rfl⟩
      match xs with
      | [] => exact nomatch hlength
      | x :: ys =>
        rw [List.flatMap_cons, List.append_assoc]
        have hys : ValidList valid k ys :=
          ⟨Nat.succ.inj hlength, fun y hy => hxs y (List.mem_cons_of_mem x hy)⟩
        exact ⟨x, _, hxs x List.mem_cons_self, rfl, ih.bind_iff.mpr ⟨ys, rest, hys, rfl, rfl⟩⟩

theorem Faithful.stream_unique (h : Faithful valid write read) {xs ys : List α} {r t : List UInt8}
    (hxs : ∀ x ∈ xs, valid x) (hys : ∀ y ∈ ys, valid y) (hr : ∀ a u, read r ≠ (.ok a, u))
    (ht : ∀ a u, read t ≠ (.ok a, u)) (heq : xs.flatMap write ++ r = ys.flatMap write ++ t) : xs = ys ∧ r = t := by
  induction xs generalizing ys with
  | nil =>
    match ys with
    | [] => exact ⟨rfl, heq⟩
    | y :: ys =>
      rw [List.flatMap_nil, List.nil_append, List.flatMap_cons, List.append_assoc] at heq
      have hread := h.reads (hys y List.mem_cons_self) (ys.flatMap write ++ t)
      rw [← heq] at hread
      exact absurd hread (hr _ _)
  | cons x xs ih =>
    rw [List.flatMap_cons, List.append_assoc] at heq
    have hread := h.reads (hxs x List.mem_cons_self) (xs.flatMap write ++ r)
    match ys with
    | [] =>
      rw [heq, List.flatMap_nil, List.nil_append] at hread
      exact absurd hread (ht _ _)
    | y :: ys =>
      rw [heq, List.flatMap_cons, List.append_assoc, h.reads (hys y List.mem_cons_self)] at hread
      obtain ⟨hxy, hrest⟩ := Prod.mk.inj hread
      obtain ⟨htail, hrt⟩ := ih (fun z hz => hxs z (List.mem_cons_of_mem x hz))
        (fun z hz => hys z (List.mem_cons_of_mem y hz)) hrest.symm
      rw [← Except.ok.inj hxy, htail]
      exact ⟨rfl, hrt⟩

theorem faithful_inBlocks {readBlock : Nat → Reader ε (List α)}
    (h : ∀ k, Faithful (ValidList valid k) (List.flatMap write) (readBlock k)) {block : Nat} (hblock : 0 < block)
    {fuel n : Nat} (hfuel : n ≤ fuel) :
    Faithful (ValidList valid n) (List.flatMap write) (inBlocks readBlock block fuel n) := by
  induction fuel generalizing n with
  | zero =>
    have hn : n = 0 := Nat.le_zero.mp hfuel
    rw [hn, inBlocks]
    exact faithful_nil
  | succ fuel ih =>
    rw [inBlocks]
    by_cases hn : n = 0
    · rw [if_pos hn, hn]
      exact faithful_nil
    rw [if_neg hn]
    have hrest : n - min n block ≤ fuel := by omega
    intro bytes xs rest
    rw [(h _).bind_iff]
    constructor
    · rintro ⟨ys, t, ⟨hys, hvys⟩, rfl, hread⟩
      obtain ⟨zs, t', ⟨hzs, hvzs⟩, rfl, hpure⟩ := (ih hrest).bind_iff.mp hread
      obtain ⟨hxs, ht⟩ := Prod.mk.inj hpure
      rw [← Except.ok.inj hxs, ← ht, List.flatMap_append, List.append_assoc]
      refine ⟨⟨by rw [List.length_append, hys, hzs]; omega, fun x hx => ?_⟩, rfl⟩
      rcases List.mem_append.mp hx with hx | hx
      · exact hvys x hx
      · exact hvzs x hx
    · rintro ⟨⟨hlength, hxs⟩, rfl⟩
      have hys : ValidList valid (min n block) (xs.take (min n block)) :=
        ⟨by rw [List.length_take]; omega, fun x hx => hxs x (List.mem_of_mem_take hx)⟩
      have hzs : ValidList valid (n - min n block) (xs.drop (min n block)) :=
        ⟨by rw [List.length_drop, hlength], fun x hx => hxs x (List.mem_of_mem_drop hx)⟩
      have hsplit : xs.flatMap write ++ rest
          = (xs.take (min n block)).flatMap write ++ ((xs.drop (min n block)).flatMap write ++ rest) := by
        rw [← List.append_assoc, ← List.flatMap_append, List.take_append_drop]
      refine ⟨_, _, hys, hsplit, (ih hrest).bind_iff.mpr ⟨_, rest, hzs, rfl, ?_⟩⟩
      rw [List.take_append_drop]
      rfl

end Lists

/-- A loop that reads one item in each round changes its state as the items tell it to. By induction on the rounds. -/
theorem foldlM_reads {σ ι : Type} {step : σ → ι → Reader ε σ} {next : σ → ι → α → σ} {write : α → List UInt8}
    {is : List ι} {items : List α} (hlength : is.length = items.length)
    (hstep : ∀ i a, (i, a) ∈ is.zip items → ∀ s rest, step s i (write a ++ rest) = (.ok (next s i a), rest)) (s : σ)
    (rest : List UInt8) :
    is.foldlM step s (items.flatMap write ++ rest) = (.ok ((is.zip items).foldl (fun s p => next s p.1 p.2) s), rest) := by
  induction is generalizing items s with
  | nil =>
    have hnil : items = [] := List.eq_nil_of_length_eq_zero hlength.symm
    rw [hnil]
    rfl
  | cons i is ih =>
    match items with
    | [] => exact nomatch hlength
    | a :: items =>
      rw [List.flatMap_cons, List.append_assoc, List.foldlM_cons, Exec.bind_of_ok (hstep i a List.mem_cons_self s _)]
      exact ih (Nat.succ.inj hlength) (fun j b hmem => hstep j b (List.mem_cons_of_mem _ hmem)) _

/-- What is written of a value ends where it ends: no two values are written alike, whatever follows. -/
def PrefixFree (valid : α → Prop) (write : α → List UInt8) : Prop :=
  ∀ a a' rest rest', valid a → valid a' → write a ++ rest = write a' ++ rest' → a = a' ∧ rest = rest'

theorem Faithful.prefixFree {valid : α → Prop} {write : α → List UInt8} {read : Reader ε α}
    (h : Faithful valid write read) : PrefixFree valid write := by
  intro a a' rest rest' ha ha' heq
  have hread := h.reads ha rest
  rw [heq, h.reads ha' rest', Prod.mk.injEq, Except.ok.injEq] at hread
  exact ⟨hread.1.symm, hread.2.symm⟩

/-- Lists of one length. By induction on the first one. -/
theorem PrefixFree.flatMap {valid : α → Prop} {write : α → List UInt8} (h : PrefixFree valid write) {xs xs' : List α}
    (hlength : xs.length = xs'.length) (hxs : ∀ x ∈ xs, valid x)
    (hxs' : ∀ x ∈ xs', valid x) (heq : xs.flatMap write ++ rest = xs'.flatMap write ++ rest') :
    xs = xs' ∧ rest = rest' := by
  induction xs generalizing xs' with
  | nil =>
    cases xs' with
    | nil => exact ⟨rfl, heq⟩
    | cons x' xs' => cases hlength
  | cons x xs ih =>
    cases xs' with
    | nil => cases hlength
    | cons x' xs' =>
      rw [List.flatMap_cons, List.flatMap_cons, List.append_assoc, List.append_assoc] at heq
      obtain ⟨rfl, htail⟩ := h x x' _ _ (hxs x List.mem_cons_self) (hxs' x' List.mem_cons_self) heq
      obtain ⟨rfl, hrest⟩ := ih (Nat.succ.inj hlength) (fun y hy => hxs y (List.mem_cons_of_mem x hy))
        (fun y hy => hxs' y (List.mem_cons_of_mem x hy)) htail
      exact ⟨rfl, hrest⟩

end Codec
