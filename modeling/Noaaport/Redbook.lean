import Noaaport.WmoHeader

/-! `redbook_header.c`: the chain of blocks behind the first line of a graphic, and the title
that `block_1_1` and `block_2_2` make of it. -/
namespace Noaaport
open Lib

/-- A `char` and a `short` as the signed numbers they are printed as. -/
def readChar (buf : Buffer) (a : Nat) : Int :=
  if (buf a).toNat < 128 then (buf a).toNat else ((buf a).toNat : Int) - 256

def readShort (buf : Buffer) (a : Nat) : Int :=
  if be16 buf a < 32768 then be16 buf a else (be16 buf a : Int) - 65536

/-- What `get_block` finds at `start`; the length is in 16-bit words. -/
structure RedBlock where
  start : Nat
  ff : Int
  len : Nat
  mode : UInt8
  submode : UInt8
  deriving DecidableEq

def getBlock (buf : Buffer) (data start : Nat) : RedBlock where
  start := start
  ff := readChar buf (data + start) / 64
  len := be16 buf (data + start) % 16384
  mode := buf (data + start + 2)
  submode := buf (data + start + 3)

/-- The globals of `redbook_header.c`, and `bstart`. -/
structure RedText where
  cstr1 : Text
  cstr2 : Text
  dstr : Text
  cpilid : Text
  bstart : Nat

def RedText.blank : RedText where
  cstr1 := []
  cstr2 := []
  dstr := []
  cpilid := []
  bstart := 0

def RedText.title (t : RedText) : Text :=
  if t.bstart > 0 then
    t.cpilid ++ ascii "/" ++ t.cstr2 ++ ascii "/" ++ t.cstr1 ++ ascii "/" ++ t.dstr
  else []

def RedBlock.isText (b : RedBlock) : Bool := b.mode = 1 ∧ b.submode = 1
def RedBlock.isPil (b : RedBlock) : Bool := b.mode = 2 ∧ b.submode = 2
def RedBlock.isLast (b : RedBlock) : Bool := b.isPil ∨ b.mode = 1 ∧ b.submode = 2

section Header
variable (buf : Buffer) (data nbytes : Nat)

def block11 (b : RedBlock) (t : RedText) : RedText :=
  let bpos := data + b.start
  { t with
    cstr1 := (load buf (bpos + 11) 9).takeWhile (· ≠ 0)
    cstr2 := if b.len * 2 > 31 then (load buf (bpos + 26) 6).takeWhile (· ≠ 0) else t.cstr2
    dstr :=
      fmt0 4 (readShort buf (bpos + 20)) ++ fmt0 2 (readChar buf (bpos + 22)) ++
        fmt0 2 (readChar buf (bpos + 23)) ++ [32] ++ fmt0 2 (readChar buf (bpos + 24)) ++
        fmt0 2 (readChar buf (bpos + 25)) }

/-- A character below 32 ends the PIL, also one that is negative. -/
def block22 (b : RedBlock) (t : RedText) : RedText :=
  if b.len * 2 < 21 then t
  else
    { t with
      cpilid := (load buf (data + b.start + 11) 9).takeWhile fun c => 32 ≤ c ∧ c < 128 }

/-- The blocks that the loop goes through; `start` grows with each. -/
def redbookBlocks : Nat → Nat → List RedBlock
  | 0, _ => []
  | fuel + 1, start =>
    if start + 4 < nbytes then
      let b := getBlock buf data start
      if b.ff ≠ 1 ∨ b.len = 0 ∨ nbytes < start + b.len * 2 then []
      else b :: if b.isLast then [] else redbookBlocks fuel (start + b.len * 2)
    else []

def redStep (t : RedText) (b : RedBlock) : RedText :=
  if b.isText then { block11 buf data b t with bstart := t.bstart + 1 }
  else if b.isPil then block22 buf data b t
  else t

def blocksOf : List RedBlock :=
  redbookBlocks buf data nbytes nbytes (span (· ≠ 10) buf data nbytes + 1)

def redbookHeader : Text :=
  ((blocksOf buf data nbytes).foldl (redStep buf data) .blank).title

end Header

section Walk
variable {buf buf' : Buffer} {data nbytes fuel start : Nat} {b : RedBlock}

/-- A block that the loop goes through is inside the product. -/
structure RedBlock.Inside (nbytes : Nat) (b : RedBlock) : Prop where
  head : b.start + 4 < nbytes
  len : 0 < b.len
  body : b.start + b.len * 2 ≤ nbytes

theorem getBlock_agree (h : AgreeOn data (data + nbytes) buf buf') (hs : start + 4 < nbytes) :
    getBlock buf' data start = getBlock buf data start := by
  have hcell : ∀ i, i < 4 → buf' (data + start + i) = buf (data + start + i) :=
    fun i hi => (h _ (by omega) (by omega)).symm
  have h0 : buf' (data + start) = buf (data + start) := hcell 0 (by decide)
  have hchar : readChar buf' (data + start) = readChar buf (data + start) := by
    unfold readChar
    rw [h0]
  have hbe : be16 buf' (data + start) = be16 buf (data + start) :=
    be16_congr fun i hi => hcell i (by omega)
  unfold getBlock
  rw [hchar, hbe, hcell 2 (by decide), hcell 3 (by decide)]

theorem redbookBlocks_agree (h : AgreeOn data (data + nbytes) buf buf') (fuel start : Nat) :
    redbookBlocks buf' data nbytes fuel start = redbookBlocks buf data nbytes fuel start := by
  induction fuel generalizing start with
  | zero => rfl
  | succ fuel ih =>
    unfold redbookBlocks
    by_cases hs : start + 4 < nbytes
    · simp only [if_pos hs, getBlock_agree h hs, ih]
    · rw [if_neg hs, if_neg hs]

theorem redbookBlocks_inside (hb : b ∈ redbookBlocks buf data nbytes fuel start) :
    start ≤ b.start ∧ b.Inside nbytes := by
  induction fuel generalizing start with
  | zero => cases hb
  | succ fuel ih =>
    unfold redbookBlocks at hb
    dsimp only at hb
    split_ifs at hb with hs hbad hlast
    · cases hb
    · cases List.mem_singleton.1 hb
      exact ⟨Nat.le_refl _, hs, by omega, by change start + _ ≤ _; omega⟩
    · obtain rfl | hb := List.mem_cons.1 hb
      · exact ⟨Nat.le_refl _, hs, by omega, by change start + _ ≤ _; omega⟩
      · obtain ⟨hle, hin⟩ := ih hb
        exact ⟨by omega, hin⟩
    · cases hb

theorem redbookBlocks_ordered (buf : Buffer) (data nbytes fuel start : Nat) :
    (redbookBlocks buf data nbytes fuel start).Pairwise fun b b' => b.start < b'.start := by
  induction fuel generalizing start with
  | zero => exact .nil
  | succ fuel ih =>
    unfold redbookBlocks
    dsimp only
    split_ifs with hs hbad hlast
    · exact .nil
    · exact List.pairwise_singleton _ _
    · refine .cons (fun b' hb' => ?_) (ih _)
      have hle := (redbookBlocks_inside hb').1
      change start < b'.start
      omega
    · exact .nil

end Walk

section Title
variable {buf buf' : Buffer} {data nbytes : Nat} {b : RedBlock} {t t' : RedText}

/-- The texts of `block_1_1` are inside the product. -/
def RedBlock.TextInside (nbytes : Nat) (b : RedBlock) : Prop :=
  b.isText = true → b.start + 26 ≤ nbytes

instance (nbytes : Nat) (b : RedBlock) : Decidable (b.TextInside nbytes) :=
  inferInstanceAs (Decidable (_ → _))

def TitleInside (buf : Buffer) (data nbytes : Nat) : Prop :=
  ∀ b ∈ blocksOf buf data nbytes, b.TextInside nbytes

theorem readChar_congr {a : Nat} (h : buf a = buf' a) : readChar buf a = readChar buf' a := by
  unfold readChar
  rw [h]

theorem readShort_congr {a : Nat} (h : ∀ i, i < 2 → buf (a + i) = buf' (a + i)) :
    readShort buf a = readShort buf' a := by
  unfold readShort
  rw [be16_congr h]

/-- What a block contributes whatever comes behind the product: all but the texts of
`block_1_1`. -/
structure RedText.Alike (t t' : RedText) : Prop where
  cstr2 : t.cstr2 = t'.cstr2
  cpilid : t.cpilid = t'.cpilid
  bstart : t.bstart = t'.bstart

theorem redStep_alike (h : AgreeOn data (data + nbytes) buf buf') (hb : b.Inside nbytes)
    (ht : t.Alike t') : (redStep buf data t b).Alike (redStep buf' data t' b) := by
  have hlen := hb.body
  unfold redStep
  by_cases htext : b.isText
  · rw [if_pos htext, if_pos htext]
    refine ⟨?_, ht.cpilid, congrArg (· + 1) ht.bstart⟩
    change (if b.len * 2 > 31 then _ else _) = if b.len * 2 > 31 then _ else _
    split_ifs
    · rw [h.load (by omega) (by omega)]
    · exact ht.cstr2
  · rw [if_neg htext, if_neg htext]
    by_cases hpil : b.isPil
    · rw [if_pos hpil, if_pos hpil]
      unfold block22
      split_ifs
      · exact ht
      · refine ⟨ht.cstr2, ?_, ht.bstart⟩
        dsimp only
        rw [h.load (by omega) (by omega)]
    · rw [if_neg hpil, if_neg hpil]
      exact ht

/-- The date up to the hour. -/
def datePart (buf : Buffer) (bpos : Nat) : Text :=
  fmt0 4 (readShort buf (bpos + 20)) ++ fmt0 2 (readChar buf (bpos + 22)) ++
    fmt0 2 (readChar buf (bpos + 23)) ++ [32] ++ fmt0 2 (readChar buf (bpos + 24))

theorem datePart_agree {bpos : Nat} (h : AgreeOn (bpos + 20) (bpos + 25) buf buf') :
    datePart buf bpos = datePart buf' bpos := by
  have hshort : readShort buf (bpos + 20) = readShort buf' (bpos + 20) :=
    readShort_congr fun i hi => h _ (by omega) (by omega)
  have hchar : ∀ i, 20 ≤ i → i < 25 → readChar buf (bpos + i) = readChar buf' (bpos + i) :=
    fun i hi hi' => readChar_congr (h _ (by omega) (by omega))
  unfold datePart
  rw [hshort, hchar 22 (by decide) (by decide), hchar 23 (by decide) (by decide),
    hchar 24 (by decide) (by decide)]

theorem redStep_agree (h : AgreeOn data (data + nbytes) buf buf') (hb : b.Inside nbytes)
    (hin : b.TextInside nbytes) (t : RedText) : redStep buf' data t b = redStep buf data t b := by
  have hlen := hb.body
  unfold redStep
  by_cases htext : b.isText
  · have h26 := hin htext
    have hdate : datePart buf (data + b.start) = datePart buf' (data + b.start) :=
      datePart_agree (h.mono (by omega) (by omega))
    have hminute : readChar buf (data + b.start + 25) = readChar buf' (data + b.start + 25) :=
      readChar_congr (h _ (by omega) (by omega))
    have hcstr2 : (if b.len * 2 > 31 then (load buf (data + b.start + 26) 6).takeWhile (· ≠ 0)
          else t.cstr2) =
        if b.len * 2 > 31 then (load buf' (data + b.start + 26) 6).takeWhile (· ≠ 0)
          else t.cstr2 := by
      split_ifs
      · rw [h.load (by omega) (by omega)]
      · rfl
    have hcstr1 : (load buf (data + b.start + 11) 9).takeWhile (· ≠ 0) =
        (load buf' (data + b.start + 11) 9).takeWhile (· ≠ 0) := by
      rw [h.load (by omega) (by omega)]
    rw [if_pos htext, if_pos htext]
    change RedText.mk _ _ (datePart buf' _ ++ fmt0 2 (readChar buf' _)) _ _ =
      RedText.mk _ _ (datePart buf _ ++ fmt0 2 (readChar buf _)) _ _
    rw [hdate, hminute]
    exact congrArg₂ (fun x y => RedText.mk x y _ _ _) hcstr1.symm hcstr2.symm
  · rw [if_neg htext, if_neg htext]
    by_cases hpil : b.isPil
    · rw [if_pos hpil, if_pos hpil]
      unfold block22
      split_ifs
      · rfl
      · rw [h.load (by omega) (by omega)]
    · rw [if_neg hpil, if_neg hpil]

theorem blocksOf_agree (h : AgreeOn data (data + nbytes) buf buf') :
    blocksOf buf' data nbytes = blocksOf buf data nbytes := by
  unfold blocksOf
  rw [redbookBlocks_agree h, span_congr _ h]

/-- The title is decided by the product where every `block_1_1` is whole. -/
theorem redbookHeader_agree (h : AgreeOn data (data + nbytes) buf buf')
    (hin : TitleInside buf data nbytes) :
    redbookHeader buf' data nbytes = redbookHeader buf data nbytes := by
  unfold redbookHeader
  rw [blocksOf_agree h]
  exact congrArg _ (List.foldl_ext _ _ _ fun t b hb =>
    redStep_agree h (redbookBlocks_inside hb).2 (hin b hb) t)

/-- The texts of the last `block_1_1` stay. -/
theorem foldl_redStep_noText (buf : Buffer) (data : Nat) {bs : List RedBlock}
    (h : ∀ b ∈ bs, b.isText = false) (t : RedText) :
    (bs.foldl (redStep buf data) t).cstr1 = t.cstr1 ∧
      (bs.foldl (redStep buf data) t).dstr = t.dstr ∧
      (bs.foldl (redStep buf data) t).bstart = t.bstart := by
  induction bs generalizing t with
  | nil => exact ⟨rfl, rfl, rfl⟩
  | cons b bs ih =>
    have hb := h b List.mem_cons_self
    have hstep : (redStep buf data t b).cstr1 = t.cstr1 ∧ (redStep buf data t b).dstr = t.dstr ∧
        (redStep buf data t b).bstart = t.bstart := by
      unfold redStep block22
      rw [hb, if_neg (by decide)]
      split_ifs <;> exact ⟨rfl, rfl, rfl⟩
    obtain ⟨h₁, h₂, h₃⟩ := ih (fun b hb => h b (List.mem_cons_of_mem _ hb)) (redStep buf data t b)
    exact ⟨h₁.trans hstep.1, h₂.trans hstep.2.1, h₃.trans hstep.2.2⟩

theorem foldl_redStep_alike {bs : List RedBlock} (h : AgreeOn data (data + nbytes) buf buf')
    (hbs : ∀ b ∈ bs, b.Inside nbytes) (ht : t.Alike t') :
    (bs.foldl (redStep buf data) t).Alike (bs.foldl (redStep buf' data) t') := by
  induction bs generalizing t t' with
  | nil => exact ht
  | cons b bs ih =>
    exact ih (fun b hb => hbs b (List.mem_cons_of_mem _ hb))
      (redStep_alike h (hbs b List.mem_cons_self) ht)

theorem foldl_redStep_last (buf : Buffer) (data : Nat) (pre : List RedBlock) {x : RedBlock}
    {post : List RedBlock} (hx : x.isText = true) (hpost : ∀ y ∈ post, y.isText = false) :
    let t := (pre ++ x :: post).foldl (redStep buf data) .blank
    0 < t.bstart ∧ t.cstr1 = (load buf (data + x.start + 11) 9).takeWhile (· ≠ 0) ∧
      t.dstr = datePart buf (data + x.start) ++ fmt0 2 (readChar buf (data + x.start + 25)) := by
  intro t
  have hfold : t = post.foldl (redStep buf data)
      (redStep buf data (pre.foldl (redStep buf data) .blank) x) := List.foldl_append
  have hstep : redStep buf data (pre.foldl (redStep buf data) .blank) x =
      { block11 buf data x (pre.foldl (redStep buf data) .blank) with
        bstart := (pre.foldl (redStep buf data) .blank).bstart + 1 } := if_pos hx
  obtain ⟨hcstr1, hdstr, hbstart⟩ := foldl_redStep_noText buf data hpost
    (redStep buf data (pre.foldl (redStep buf data) .blank) x)
  rw [hfold, hcstr1, hdstr, hbstart, hstep]
  exact ⟨Nat.succ_pos _, rfl, rfl⟩

theorem exists_last {bs : List RedBlock} (h : ∃ b ∈ bs, b.isText = true) :
    ∃ pre x post, bs = pre ++ x :: post ∧ x.isText = true ∧ ∀ y ∈ post, y.isText = false := by
  induction bs with
  | nil =>
    obtain ⟨b, hb, -⟩ := h
    cases hb
  | cons c cs ih =>
    by_cases hcs : ∃ b ∈ cs, b.isText = true
    · obtain ⟨pre, x, post, rfl, hx, hpost⟩ := ih hcs
      exact ⟨c :: pre, x, post, rfl, hx, hpost⟩
    · obtain ⟨b, hb, ht⟩ := h
      obtain rfl | hb := List.mem_cons.1 hb
      · exact ⟨[], b, cs, rfl, ht, fun y hy => Bool.eq_false_iff.2 fun h => hcs ⟨y, hy, h⟩⟩
      · exact absurd ⟨b, hb, ht⟩ hcs

/-- Two minutes: texts of one length that differ. -/
theorem dstr_ne (buf : Buffer) {bpos : Nat} {t t' : RedText}
    (ht : t.dstr = datePart (store buf (bpos + 25) [0]) bpos ++
      fmt0 2 (readChar (store buf (bpos + 25) [0]) (bpos + 25)))
    (ht' : t'.dstr = datePart (store buf (bpos + 25) [1]) bpos ++
      fmt0 2 (readChar (store buf (bpos + 25) [1]) (bpos + 25))) : t.dstr ≠ t'.dstr := by
  have hdate : datePart (store buf (bpos + 25) [0]) bpos = datePart (store buf (bpos + 25) [1]) bpos :=
    datePart_agree fun i _ hi => by rw [store_before _ _ _ i hi, store_before _ _ _ i hi]
  have hcell : ∀ b : UInt8, store buf (bpos + 25) [b] (bpos + 25) = b := fun b => store_head ..
  rw [ht, ht', hdate, readChar, readChar, hcell, hcell]
  intro h
  exact absurd (List.append_cancel_left h) (by decide)

/-- Where the last `block_1_1` is cut off, the title depends on what comes behind. -/
theorem redbookHeader_open (h : ¬ TitleInside buf data nbytes) :
    ∃ x, data + nbytes ≤ x ∧
      redbookHeader (store buf x [0]) data nbytes ≠ redbookHeader (store buf x [1]) data nbytes := by
  obtain ⟨b, hmem, htext, hcut⟩ : ∃ b ∈ blocksOf buf data nbytes, b.isText = true ∧
      nbytes < b.start + 26 := by
    simpa [TitleInside, RedBlock.TextInside] using h
  obtain ⟨pre, x, post, hsplit, hx, hpost⟩ := exists_last ⟨b, hmem, htext⟩
  have hinside : ∀ y ∈ pre ++ x :: post, y.Inside nbytes := fun y hy =>
    (redbookBlocks_inside (hsplit ▸ hy : y ∈ blocksOf buf data nbytes)).2
  have hle : b.start ≤ x.start := by
    have horder : (pre ++ x :: post).Pairwise fun b b' => b.start < b'.start :=
      hsplit ▸ redbookBlocks_ordered buf data nbytes nbytes _
    rw [hsplit] at hmem
    obtain hpre | hrest := List.mem_append.1 hmem
    · exact Nat.le_of_lt ((List.pairwise_append.1 horder).2.2 b hpre x List.mem_cons_self)
    · obtain rfl | hin := List.mem_cons.1 hrest
      · exact Nat.le_refl _
      · rw [hpost b hin] at htext
        cases htext
  refine ⟨data + x.start + 25, by omega, ?_⟩
  have hag : ∀ c : UInt8, AgreeOn data (data + nbytes) buf (store buf (data + x.start + 25) [c]) :=
    fun c => agreeOn_store buf [c] (by omega)
  have hboth : AgreeOn data (data + nbytes) (store buf (data + x.start + 25) [0])
      (store buf (data + x.start + 25) [1]) := fun i hi hi' => by
    rw [← hag 0 i hi hi', ← hag 1 i hi hi']
  unfold redbookHeader
  rw [blocksOf_agree (hag 0), blocksOf_agree (hag 1), hsplit]
  have halike := foldl_redStep_alike hboth hinside
    (show RedText.blank.Alike .blank from ⟨rfl, rfl, rfl⟩)
  obtain ⟨hpos, hcstr1, hdstr⟩ := foldl_redStep_last (store buf (data + x.start + 25) [0]) data pre
    hx hpost
  obtain ⟨hpos', hcstr1', hdstr'⟩ := foldl_redStep_last (store buf (data + x.start + 25) [1]) data
    pre hx hpost
  generalize (pre ++ x :: post).foldl (redStep (store buf (data + x.start + 25) [0]) data) .blank =
    t at halike hpos hcstr1 hdstr ⊢
  generalize (pre ++ x :: post).foldl (redStep (store buf (data + x.start + 25) [1]) data) .blank =
    t' at halike hpos' hcstr1' hdstr' ⊢
  have hcstr : t.cstr1 = t'.cstr1 := by
    rw [hcstr1, hcstr1', load_store_before _ _ _ _ _ (by omega), load_store_before _ _ _ _ _ (by omega)]
  unfold RedText.title
  rw [if_pos hpos, if_pos hpos', halike.cpilid, halike.cstr2, hcstr]
  exact fun heq => dstr_ne buf hdstr hdstr' (List.append_cancel_left heq)

end Title
end Noaaport
