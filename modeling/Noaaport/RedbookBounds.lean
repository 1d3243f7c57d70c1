import Noaaport.Redbook

/-! What `redbook_header` reads of a product, and how long its texts become. -/
namespace Noaaport
open Lib

section Reads
variable (buf : Buffer) (data nbytes : Nat)

/-- Indices into the product, in the order of the reads: `read_char1` and `read_short1` of the
first byte, then the bytes of the mode and the submode. -/
def getBlockReads (start : Nat) : List Nat := [start, start, start + 1, start + 2, start + 3]

def block11Reads (b : RedBlock) : List Nat :=
  List.range' (b.start + 11) 9 ++
    ((if b.len * 2 > 31 then List.range' (b.start + 26) 6 else []) ++
      List.range' (b.start + 20) 6)

def block22Reads (b : RedBlock) : List Nat :=
  if b.len * 2 < 21 then [] else List.range' (b.start + 11) 9

def RedBlock.reads (b : RedBlock) : List Nat :=
  if b.isText then block11Reads b else if b.isPil then block22Reads b else []

/-- The loop over the blocks: `none` where the fuel ends before the loop does. -/
def walkReads : Nat → Nat → Option (List Nat)
  | fuel, start =>
    if start + 4 < nbytes then
      match fuel with
      | 0 => none
      | fuel + 1 => do
        let b := getBlock buf data start
        let rest ←
          if b.ff ≠ 1 ∨ b.len = 0 ∨ nbytes < start + b.len * 2 then some []
          else do
            let rest ← if b.isLast then some [] else walkReads fuel (start + b.len * 2)
            some (b.reads ++ rest)
        some (getBlockReads start ++ rest)
    else some []

/-- The scan for the end of the first line looks at the byte that ends it. -/
def lineReads : List Nat := List.range (min (span (· ≠ 10) buf data nbytes + 1) nbytes)

def redbookReads (fuel : Nat) : Option (List Nat) :=
  (walkReads buf data nbytes fuel (span (· ≠ 10) buf data nbytes + 1)).map
    (lineReads buf data nbytes ++ ·)

end Reads

section Inside
variable {buf : Buffer} {data nbytes fuel start : Nat} {b : RedBlock} {rs : List Nat}

theorem block11Reads_inside (hb : b.Inside nbytes) :
    (∀ i ∈ block11Reads b, i < nbytes) ↔ b.start + 26 ≤ nbytes := by
  have hbody := hb.body
  constructor
  · intro h
    have hminute : b.start + 25 ∈ block11Reads b := by
      refine List.mem_append_right _ (List.mem_append_right _ ?_)
      rw [List.mem_range'_1]
      omega
    exact h _ hminute
  · intro h i hi
    obtain hi | hi := List.mem_append.1 hi
    · rw [List.mem_range'_1] at hi
      omega
    obtain hi | hi := List.mem_append.1 hi
    · split_ifs at hi with hlong
      · rw [List.mem_range'_1] at hi
        omega
      · cases hi
    · rw [List.mem_range'_1] at hi
      omega

theorem block22Reads_inside (hb : b.Inside nbytes) : ∀ i ∈ block22Reads b, i < nbytes := by
  have hbody := hb.body
  intro i hi
  unfold block22Reads at hi
  split_ifs at hi with hshort
  · cases hi
  · rw [List.mem_range'_1] at hi
    omega

/-- One block: all but the fixed offsets of `block_1_1` are inside. -/
theorem reads_inside (hb : b.Inside nbytes) :
    (∀ i ∈ b.reads, i < nbytes) ↔ b.TextInside nbytes := by
  unfold RedBlock.reads RedBlock.TextInside
  by_cases htext : b.isText
  · rw [if_pos htext, block11Reads_inside hb]
    exact ⟨fun h _ => h, fun h => h htext⟩
  · rw [if_neg htext]
    refine ⟨fun _ h => absurd h htext, fun _ => ?_⟩
    split_ifs
    · exact block22Reads_inside hb
    · intro i hi
      cases hi

theorem getBlockReads_inside (h : start + 4 < nbytes) : ∀ i ∈ getBlockReads start, i < nbytes := by
  intro i hi
  simp only [getBlockReads, List.mem_cons, List.not_mem_nil, or_false] at hi
  omega

/-- As many rounds as there are bytes are enough, and the blocks gone through are those of
`redbookBlocks`. -/
theorem walkReads_inside (buf : Buffer) (data : Nat) (hfuel : nbytes ≤ fuel + start) :
    ∃ rs, walkReads buf data nbytes fuel start = some rs ∧
      ((∀ i ∈ rs, i < nbytes) ↔
        ∀ b ∈ redbookBlocks buf data nbytes fuel start, b.TextInside nbytes) := by
  induction fuel generalizing start with
  | zero =>
    unfold walkReads
    rw [if_neg (by omega)]
    exact ⟨[], rfl, ⟨fun _ _ hb => absurd hb List.not_mem_nil,
      fun _ _ hi => absurd hi List.not_mem_nil⟩⟩
  | succ fuel ih =>
    by_cases hs : start + 4 < nbytes
    · have hhead := getBlockReads_inside hs
      unfold walkReads redbookBlocks
      rw [if_pos hs, if_pos hs]
      dsimp only
      by_cases hbad : (getBlock buf data start).ff ≠ 1 ∨ (getBlock buf data start).len = 0 ∨
          nbytes < start + (getBlock buf data start).len * 2
      · rw [if_pos hbad, if_pos hbad]
        refine ⟨_, rfl, ⟨fun _ _ hb => absurd hb List.not_mem_nil, fun _ i hi => ?_⟩⟩
        rw [List.append_nil] at hi
        exact hhead i hi
      · have hb : (getBlock buf data start).Inside nbytes :=
          ⟨hs, by omega, by change start + _ ≤ _; omega⟩
        have hblock := reads_inside hb
        rw [if_neg hbad, if_neg hbad]
        by_cases hlast : (getBlock buf data start).isLast
        · rw [if_pos hlast, if_pos hlast]
          refine ⟨_, rfl, ?_⟩
          simp only [List.append_nil, List.forall_mem_append, List.forall_mem_singleton, hblock]
          exact ⟨fun h => h.2, fun h => ⟨hhead, h⟩⟩
        · rw [if_neg hlast, if_neg hlast]
          have hrest : nbytes ≤ fuel + (start + (getBlock buf data start).len * 2) := by omega
          obtain ⟨rs, hrs, hiff⟩ := ih hrest
          rw [hrs]
          refine ⟨_, rfl, ?_⟩
          simp only [List.forall_mem_append, List.forall_mem_cons, hblock, hiff]
          exact ⟨fun h => h.2, fun h => ⟨hhead, h⟩⟩
    · unfold walkReads redbookBlocks
      rw [if_neg hs, if_neg hs]
      exact ⟨[], rfl, ⟨fun _ _ hb => absurd hb List.not_mem_nil,
      fun _ _ hi => absurd hi List.not_mem_nil⟩⟩

theorem redbookBlocks_head (buf : Buffer) (data nbytes fuel start : Nat) :
    ∀ b ∈ (redbookBlocks buf data nbytes fuel start).head?, b.start = start := by
  intro b hb
  cases fuel with
  | zero => cases hb
  | succ fuel =>
    unfold redbookBlocks at hb
    dsimp only at hb
    split_ifs at hb
    · cases hb
    · cases hb
      rfl
    · cases hb
      rfl
    · cases hb

/-- Each block starts where the one before it ends, behind its own start. -/
theorem redbookBlocks_chain (buf : Buffer) (data nbytes fuel start : Nat) :
    (redbookBlocks buf data nbytes fuel start).IsChain fun b b' =>
      b'.start = b.start + b.len * 2 ∧ b.start < b'.start := by
  induction fuel generalizing start with
  | zero => exact .nil
  | succ fuel ih =>
    unfold redbookBlocks
    dsimp only
    split_ifs with hs hbad hlast
    · exact .nil
    · exact .singleton _
    · have hrest := ih (start + (getBlock buf data start).len * 2)
      have hhead := redbookBlocks_head buf data nbytes fuel
        (start + (getBlock buf data start).len * 2)
      generalize redbookBlocks buf data nbytes fuel _ = rest at hrest hhead ⊢
      cases rest with
      | nil => exact .singleton _
      | cons b' rest =>
        have hnext := hhead b' rfl
        exact .cons_cons ⟨hnext, by change start < _; omega⟩ hrest
    · exact .nil

theorem lineReads_inside : ∀ i ∈ lineReads buf data nbytes, i < nbytes := by
  intro i hi
  have := List.mem_range.1 hi
  omega

end Inside

theorem redbookReads_inside (buf : Buffer) (data nbytes : Nat) :
    ∃ rs, redbookReads buf data nbytes nbytes = some rs ∧
      ((∀ i ∈ rs, i < nbytes) ↔ TitleInside buf data nbytes) := by
  obtain ⟨rs, hrs, hiff⟩ := walkReads_inside buf data
    (Nat.le_add_right nbytes (span (· ≠ 10) buf data nbytes + 1))
  refine ⟨lineReads buf data nbytes ++ rs, ?_, ?_⟩
  · rw [redbookReads, hrs]
    rfl
  · rw [List.forall_mem_append, hiff]
    exact ⟨fun h => h.2, fun h => ⟨lineReads_inside, h⟩⟩

/-- The walk ends within as many rounds as there are bytes, each block behind the one before;
its reads are inside the product exactly where every `block_1_1` has its 26 bytes there. -/
theorem redbook_reads_inside_iff (buf : Buffer) (data nbytes : Nat) :
    ((blocksOf buf data nbytes).IsChain (fun b b' =>
        b'.start = b.start + b.len * 2 ∧ b.start < b'.start) ∧
      ∃ rs, redbookReads buf data nbytes nbytes = some rs ∧ ∀ i ∈ rs, i < nbytes) ↔
      TitleInside buf data nbytes := by
  obtain ⟨rs, hrs, hiff⟩ := redbookReads_inside buf data nbytes
  constructor
  · rintro ⟨-, rs', hrs', hin⟩
    cases hrs.symm.trans hrs'
    exact hiff.1 hin
  · exact fun h => ⟨redbookBlocks_chain .., rs, hrs, hiff.2 h⟩

/-- A line, and a `block_1_1` of two words at the end of the product. -/
def shortText : Buffer := fun i => [10, 64, 2, 1, 1, 0].getD i 0

theorem redbook_reads_outside :
    ¬ ∃ rs, redbookReads shortText 0 6 6 = some rs ∧ ∀ i ∈ rs, i < 6 := by
  rintro ⟨rs, hrs, hin⟩
  cases hrs
  exact absurd hin (by decide)

section Width

/-- The numbers that do not outgrow their width. -/
theorem length_fmt0_le_iff {k : Nat} {n : Int} :
    (fmt0 (k + 2) n).length ≤ k + 2 ↔ -(10 ^ (k + 1) : Nat) < n ∧ n < (10 ^ (k + 2) : Nat) := by
  have hpos : 10 ^ (k + 1) < 10 ^ (k + 2) :=
    Nat.pow_lt_pow_right (show 1 < 10 by decide) (Nat.lt_succ_self (k + 1))
  have hneg : (decimal n.natAbs).length ≤ k + 1 ↔ n.natAbs < 10 ^ (k + 1) := length_decimal_le_iff
  have hnonneg : (decimal n.natAbs).length ≤ k + 2 ↔ n.natAbs < 10 ^ (k + 2) :=
    length_decimal_le_iff
  have hone : 0 < 10 ^ (k + 1) := Nat.pow_pos (by decide)
  generalize 10 ^ (k + 1) = low at hpos hneg hone ⊢
  generalize 10 ^ (k + 2) = high at hpos hnonneg ⊢
  rw [length_fmt0]
  split_ifs with h
  · omega
  · omega

end Width

section Title
variable {buf : Buffer} {data nbytes : Nat} {b : RedBlock} {t : RedText}

/-- A year and parts of a date that the widths of the format hold. -/
structure RedBlock.Dated (buf : Buffer) (data : Nat) (b : RedBlock) : Prop where
  year : -1000 < readShort buf (data + b.start + 20) ∧ readShort buf (data + b.start + 20) < 10000
  parts : ∀ i, 22 ≤ i → i < 26 →
    -10 < readChar buf (data + b.start + i) ∧ readChar buf (data + b.start + i) < 100

theorem dstr_fits_iff : (block11 buf data b t).dstr.length ≤ 13 ↔ b.Dated buf data := by
  have hyear : (fmt0 4 (readShort buf (data + b.start + 20))).length ≤ 4 ↔
      -1000 < readShort buf (data + b.start + 20) ∧
        readShort buf (data + b.start + 20) < 10000 := length_fmt0_le_iff
  have hpart : ∀ i, (fmt0 2 (readChar buf (data + b.start + i))).length ≤ 2 ↔
      -10 < readChar buf (data + b.start + i) ∧ readChar buf (data + b.start + i) < 100 :=
    fun _ => length_fmt0_le_iff
  have hmin := le_length_fmt0 4 (readShort buf (data + b.start + 20))
  have hmins := fun i => le_length_fmt0 2 (readChar buf (data + b.start + i))
  have hlength : (block11 buf data b t).dstr.length =
      (fmt0 4 (readShort buf (data + b.start + 20))).length +
        (fmt0 2 (readChar buf (data + b.start + 22))).length +
        (fmt0 2 (readChar buf (data + b.start + 23))).length + 1 +
        (fmt0 2 (readChar buf (data + b.start + 24))).length +
        (fmt0 2 (readChar buf (data + b.start + 25))).length := by
    simp only [block11, List.length_append, List.length_singleton]
  rw [hlength]
  constructor
  · intro h
    have h22 := hmins 22
    have h23 := hmins 23
    have h24 := hmins 24
    have h25 := hmins 25
    refine ⟨hyear.1 (by omega), fun i hi hi' => (hpart i).1 ?_⟩
    obtain rfl | rfl | rfl | rfl : i = 22 ∨ i = 23 ∨ i = 24 ∨ i = 25 := by omega
    all_goals omega
  · intro h
    have hfmt := fun i hi hi' => (hpart i).2 (h.parts i hi hi')
    have h20 := hyear.2 h.year
    have h22 := hfmt 22 (by decide) (by decide)
    have h23 := hfmt 23 (by decide) (by decide)
    have h24 := hfmt 24 (by decide) (by decide)
    have h25 := hfmt 25 (by decide) (by decide)
    omega

/-- The texts fit their arrays. -/
structure RedText.Fits (t : RedText) : Prop where
  cstr1 : t.cstr1.length ≤ 9
  cstr2 : t.cstr2.length ≤ 6
  dstr : t.dstr.length ≤ 13
  cpilid : t.cpilid.length ≤ 9

theorem length_takeWhile_load (p : UInt8 → Bool) (a n : Nat) :
    ((load buf a n).takeWhile p).length ≤ n := span_le p buf a n

theorem RedText.Fits.step (ht : t.Fits) (hb : b.isText = true → b.Dated buf data) :
    (redStep buf data t b).Fits := by
  unfold redStep
  by_cases htext : b.isText
  · rw [if_pos htext]
    refine ⟨length_takeWhile_load .., ?_, (dstr_fits_iff (t := t)).2 (hb htext), ht.cpilid⟩
    change (if b.len * 2 > 31 then _ else _ : Text).length ≤ 6
    split_ifs
    · exact length_takeWhile_load ..
    · exact ht.cstr2
  · rw [if_neg htext]
    split_ifs
    · unfold block22
      split_ifs
      · exact ht
      · exact ⟨ht.cstr1, ht.cstr2, ht.dstr, length_takeWhile_load ..⟩
    · exact ht

theorem RedText.Fits.foldl {bs : List RedBlock} (ht : t.Fits)
    (hbs : ∀ b ∈ bs, b.isText = true → b.Dated buf data) :
    (bs.foldl (redStep buf data) t).Fits := by
  induction bs generalizing t with
  | nil => exact ht
  | cons b bs ih =>
    exact ih (ht.step (hbs b List.mem_cons_self)) fun b hb => hbs b (List.mem_cons_of_mem _ hb)

theorem RedText.Fits.title (ht : t.Fits) : t.title.length ≤ 40 := by
  have h₁ := ht.cstr1
  have h₂ := ht.cstr2
  have h₃ := ht.dstr
  have h₄ := ht.cpilid
  have hslash : (ascii "/").length = 1 := rfl
  unfold RedText.title
  split_ifs
  · simp only [List.length_append, hslash]
    omega
  · exact Nat.zero_le _

/-- The dates of the 1/1 blocks and the title fit exactly where every such block is dated
within the widths of the format. -/
theorem redbook_output_fits_iff (buf : Buffer) (data nbytes : Nat) :
    ((∀ b ∈ blocksOf buf data nbytes, b.isText = true →
        ∀ t, (block11 buf data b t).dstr.length ≤ 13) ∧
      (redbookHeader buf data nbytes).length ≤ 40) ↔
      ∀ b ∈ blocksOf buf data nbytes, b.isText = true → b.Dated buf data := by
  constructor
  · exact fun h b hb htext => dstr_fits_iff.1 (h.1 b hb htext .blank)
  · intro h
    refine ⟨fun b hb htext t => dstr_fits_iff.2 (h b hb htext), ?_⟩
    have hblank : RedText.blank.Fits := ⟨by decide, by decide, by decide, by decide⟩
    exact (hblank.foldl h).title

end Title

/-- A line, and a `block_1_1` of 13 words dated in the month -128. -/
def undatedText : Buffer := fun i =>
  [10, 64, 13, 1, 1, 0, 0, 0, 0, 0, 0, 0, 65, 0, 0, 0, 0, 0, 0, 0, 0, 7, 228, 128, 1, 0, 0].getD i 0

theorem redbook_date_outgrown :
    ∃ b ∈ blocksOf undatedText 0 27, b.isText = true ∧
      (block11 undatedText 0 b .blank).dstr.length = 15 :=
  ⟨_, List.mem_cons_self, by decide, by decide⟩

end Noaaport
