import Noaaport.CcbFields
import Noaaport.NameBounds

/-! Which texts `wmo_header` accepts: the groups of a heading as they stand in the text, and the
groups as the parser takes them. -/
namespace Noaaport
open Lib

section Spec
variable (buf : Buffer) (pos : Nat)

/-- Up to `n` letters and digits behind `k` blanks; the text has not ended where they begin. -/
structure WordAt (n k : Nat) (w : Text) : Prop where
  blank : ∀ i, i < k → buf (pos + i) = 32
  start : buf (pos + k) ≠ 32 ∧ buf (pos + k) ≠ 0
  cells : load buf (pos + k) w.length = w
  letters : ∀ b ∈ w, isalnum b = true
  short : w.length ≤ n
  whole : w.length < n → isalnum (buf (pos + k + w.length)) = false

structure DigitsAt (ds : Text) : Prop where
  cells : load buf pos ds.length = ds
  digits : ∀ b ∈ ds, isdigit b = true
  whole : isdigit (buf (pos + ds.length)) = false

/-- The group `BBB` may be empty, behind blanks as well; the end of the text leaves it out. -/
inductive LastAt : Text → Nat → Prop where
  | word {k : Nat} {w : Text} (h : WordAt buf pos 9 k w) : LastAt w (pos + k + w.length)
  | ended {k : Nat} (blank : ∀ i, i < k → buf (pos + i) = 32) (nul : buf (pos + k) = 0) : LastAt [] pos

/-- The first newline, among the next 31 characters. -/
structure LineAt (i : Nat) : Prop where
  near : i ≤ 30
  newline : buf (pos + i) = 10
  first : ∀ j, j < i → buf (pos + j) ≠ 10

end Spec

/-- The groups of a heading, with the blanks in front of the four that have to be there, the
position behind the last group and how far behind it the line ends. -/
structure Groups where
  tt : Text
  aa : Text
  digits : Text
  cccc : Text
  ddhhmm : Text
  bbb : Text
  ttBlanks : Nat
  aaBlanks : Nat
  ccccBlanks : Nat
  ddhhmmBlanks : Nat
  last : Nat
  line : Nat

namespace Groups
variable (g : Groups) (buf : Buffer) (a : Nat)

def aaAt : Nat := a + g.ttBlanks + g.tt.length
def digitsAt : Nat := g.aaAt a + g.aaBlanks + g.aa.length
def ccccAt : Nat := g.digitsAt a + g.digits.length
def ddhhmmAt : Nat := g.ccccAt a + g.ccccBlanks + g.cccc.length
def bbbAt : Nat := g.ddhhmmAt a + g.ddhhmmBlanks + g.ddhhmm.length
def behind : Nat := g.last + g.line + 1

/-- The groups are what stands in the text, empty or not. -/
structure Parsed : Prop where
  tt : WordAt buf a 2 g.ttBlanks g.tt
  aa : WordAt buf (g.aaAt a) 2 g.aaBlanks g.aa
  digits : DigitsAt buf (g.digitsAt a) g.digits
  cccc : WordAt buf (g.ccccAt a) 4 g.ccccBlanks g.cccc
  ddhhmm : WordAt buf (g.ddhhmmAt a) 6 g.ddhhmmBlanks g.ddhhmm
  bbb : LastAt buf (g.bbbAt a) g.bbb g.last
  line : LineAt buf g.last g.line

/-- No group that has to be there is empty, and the line ends before the text does. -/
structure Heading : Prop extends g.Parsed buf a where
  words : g.tt ≠ [] ∧ g.aa ≠ [] ∧ g.cccc ≠ [] ∧ g.ddhhmm ≠ []
  text : ∀ i, i < g.line → buf (g.last + i) ≠ 0

/-- `ii` as the number its digits are. -/
def number (ds : Text) : Nat := ds.foldl (fun n b => 10 * n + (b.toNat - 48)) 0

def header (ii : Int) : WmoHdr where
  tt := g.tt
  aa := g.aa
  ii := ii
  cccc := g.cccc
  ddhhmm := g.ddhhmm
  bbb := g.bbb

/-- "TTAAii CCCC DDHHMM" and what follows it. -/
def canonical (pil model : Text) : Text := wmoid (g.header (number g.digits)) pil model

end Groups

/-- `hdr.model` and `hdr.PIL`, of what stands behind the line. -/
def modelPart (t : GribText) (buf : Buffer) (cpos : Nat) : Text :=
  if load buf cpos 4 = ascii "GRIB" ∧ (buf (cpos + 7) = 0 ∨ buf (cpos + 7) = 1) then
    ascii "/m" ++ t.model (buf (cpos + 12)) (buf (cpos + 13))
  else []

def pilPart (buf : Buffer) (cpos a n : Nat) : Text :=
  if load buf cpos 4 = ascii "GRIB" then []
  else
    let cpos := if load buf cpos 4 = ascii "^NMC" then cpos + 4 else cpos
    pil buf cpos (n - (cpos - a))

/-- The model as `gribid.c` names it. -/
def GribText.labelled (t : GribText) : GribText :=
  { t with model := fun center model => (sPdsModel center.toNat model.toNat).own }

section Scans
variable {limit pos n k i : Nat} {buf : Buffer} {w ds : Text} {q e : Nat}

theorem forall_mem_load {p : UInt8 → Prop} :
    (∀ b ∈ load buf pos n, p b) ↔ ∀ i, i < n → p (buf (pos + i)) := by
  unfold load
  simp only [List.forall_mem_map, List.mem_range]

theorem WordAt.letter (h : WordAt buf pos n k w) : ∀ i, i < w.length →
    isalnum (buf (pos + k + i)) = true :=
  forall_mem_load.1 fun b hb => h.letters b (h.cells ▸ hb)

theorem DigitsAt.digit (h : DigitsAt buf pos ds) : ∀ i, i < ds.length →
    isdigit (buf (pos + i)) = true :=
  forall_mem_load.1 fun b hb => h.digits b (h.cells ▸ hb)

/-- What no NUL belongs to ends in front of the terminating one. -/
theorem run_le {p : UInt8 → Prop} (hp : ¬ p 0) (h0 : buf limit = 0) (hpos : pos ≤ limit)
    (h : ∀ i, i < n → p (buf (pos + i))) : pos + n ≤ limit := by
  by_contra hlt
  have hnul := h (limit - pos) (by omega)
  rw [Nat.add_sub_cancel' hpos, h0] at hnul
  exact hp hnul

theorem WordAt.le (h : WordAt buf pos n k w) (h0 : buf limit = 0) (hpos : pos ≤ limit) :
    pos + k < limit ∧ pos + k + w.length ≤ limit := by
  have hk : pos + k ≤ limit := run_le (p := (· = 32)) (by decide) h0 hpos h.blank
  have hne : pos + k ≠ limit := fun heq => h.start.2 (heq ▸ h0)
  exact ⟨Nat.lt_of_le_of_ne hk hne, run_le (p := (isalnum · = true)) (by decide) h0 hk h.letter⟩

theorem getWstr_iff (h0 : buf limit = 0) (hpos : pos ≤ limit) :
    getWstr limit buf pos n = some (w, q) ↔ ∃ k, WordAt buf pos n k w ∧ q = pos + k + w.length := by
  obtain ⟨hblank, hstop⟩ := span_spec (· = 32) buf pos (limit - pos)
  have hblanks := span_le (· = 32) buf pos (limit - pos)
  rw [getWstr_eq]
  constructor
  · intro h
    split_ifs at h with hin
    cases h
    obtain ⟨hletters, hend⟩ := span_spec isalnum buf (pos + blanks limit buf pos) n
    refine ⟨blanks limit buf pos, ⟨fun i hi => of_decide_eq_true (hblank i hi), ⟨?_, hin.2⟩, ?_, ?_, ?_, ?_⟩, ?_⟩
    · exact of_decide_eq_false (hstop hin.1)
    · rw [length_load]
    · exact forall_mem_load.2 hletters
    · rw [length_load]
      exact span_le ..
    · rw [length_load]
      exact hend
    · rw [length_load]
  · rintro ⟨k, hw, rfl⟩
    obtain ⟨hk, -⟩ := hw.le h0 hpos
    have hkeq : blanks limit buf pos = k :=
      span_eq (by omega) (fun i hi => decide_eq_true (hw.blank i hi))
        fun _ => decide_eq_false hw.start.1
    have hweq : wordLen limit buf pos n = w.length := by
      unfold wordLen
      rw [hkeq]
      exact span_eq hw.short hw.letter hw.whole
    rw [hkeq, hweq, if_pos ⟨by omega, hw.start.2⟩, hw.cells]

theorem digitsAt_iff (h0 : buf limit = 0) (hpos : pos ≤ limit) :
    DigitsAt buf pos ds ↔ ds = load buf pos (digits limit buf pos) := by
  obtain ⟨hall, hstop⟩ := span_spec isdigit buf pos (limit - pos)
  have hle := span_le isdigit buf pos (limit - pos)
  constructor
  · intro h
    have hrun : pos + ds.length ≤ limit :=
      run_le (p := (isdigit · = true)) (by decide) h0 hpos h.digit
    have hlen : ds.length ≤ limit - pos := by omega
    rw [show digits limit buf pos = ds.length from span_eq hlen h.digit fun _ => h.whole, h.cells]
  · rintro rfl
    refine ⟨by rw [length_load], ?_, ?_⟩
    · exact forall_mem_load.2 hall
    · rw [length_load]
      by_cases hlt : digits limit buf pos < limit - pos
      · exact hstop hlt
      · have hend : digits limit buf pos = limit - pos := by
          unfold digits at hlt ⊢
          omega
        rw [hend, Nat.add_sub_cancel' hpos, h0]
        decide

theorem digits_le (limit : Nat) (buf : Buffer) (hpos : pos ≤ limit) :
    pos + digits limit buf pos ≤ limit := by
  have := span_le isdigit buf pos (limit - pos)
  unfold digits
  omega

theorem lastAt_iff (h0 : buf limit = 0) (hpos : pos ≤ limit) :
    (getWstr limit buf pos 9).getD ([], pos) = (w, q) ↔ LastAt buf pos w q := by
  constructor
  · intro h
    cases hg : getWstr limit buf pos 9 with
    | some r =>
      rw [hg] at h
      obtain ⟨k, hw, rfl⟩ := (getWstr_iff h0 hpos).1 (hg.trans (congrArg some h))
      exact .word hw
    | none =>
      rw [hg] at h
      cases h
      obtain ⟨hblank, -⟩ := span_spec (· = 32) buf pos (limit - pos)
      refine .ended (k := blanks limit buf pos) (fun i hi => of_decide_eq_true (hblank i hi)) ?_
      rw [getWstr_eq] at hg
      split_ifs at hg with hin
      by_contra hne
      have hlt : ¬ blanks limit buf pos < limit - pos := fun hlt => hin ⟨hlt, hne⟩
      have hle : blanks limit buf pos ≤ limit - pos := span_le ..
      have hend : blanks limit buf pos = limit - pos := by omega
      rw [hend, Nat.add_sub_cancel' hpos] at hne
      exact hne h0
  · rintro (hw | ⟨hblank, hnul⟩)
    · rw [(getWstr_iff h0 hpos).2 ⟨_, hw, rfl⟩]
      rfl
    · next k =>
      have hrun : pos + k ≤ limit := run_le (p := (· = 32)) (by decide) h0 hpos hblank
      have hk : k ≤ limit - pos := by omega
      have hkeq : blanks limit buf pos = k :=
        span_eq hk (fun i hi => decide_eq_true (hblank i hi)) fun _ => by rw [hnul]; decide
      rw [getWstr_eq, hkeq, if_neg fun h => h.2 hnul]
      rfl

theorem getLine_iff : getLine buf pos 30 = some e ↔ ∃ i, LineAt buf pos i ∧ e = pos + i + 1 := by
  obtain ⟨hall, -⟩ := span_spec (· ≠ 10) buf pos 30
  have hle := span_le (· ≠ 10) buf pos 30
  unfold getLine
  dsimp only
  constructor
  · intro h
    split_ifs at h with h10
    cases h
    exact ⟨_, ⟨hle, h10, fun j hj => of_decide_eq_true (hall j hj)⟩, rfl⟩
  · rintro ⟨i, hline, rfl⟩
    have hi : span (· ≠ 10) buf pos 30 = i :=
      span_eq hline.near (fun j hj => decide_eq_true (hline.first j hj))
        fun _ => decide_eq_false (not_not.2 hline.newline)
    rw [hi, if_pos hline.newline]

end Scans

section Parse
variable {t : GribText} {limit a n e : Nat} {buf : Buffer} {g g' : Groups} {hdr : WmoHdr}

/-- Where the groups stand, all before the terminating NUL. -/
theorem Groups.Parsed.le (h : g.Parsed buf a) (h0 : buf limit = 0) (ha : a ≤ limit) :
    g.aaAt a ≤ limit ∧ g.digitsAt a ≤ limit ∧ g.ccccAt a ≤ limit ∧ g.ddhhmmAt a ≤ limit ∧
      g.bbbAt a ≤ limit := by
  have haa : g.aaAt a ≤ limit := (h.tt.le h0 ha).2
  have hdigits : g.digitsAt a ≤ limit := (h.aa.le h0 haa).2
  have hcccc : g.ccccAt a ≤ limit := by
    have hlen := congrArg List.length ((digitsAt_iff h0 hdigits).1 h.digits)
    rw [length_load] at hlen
    unfold Groups.ccccAt
    rw [hlen]
    exact digits_le limit buf hdigits
  have hdd : g.ddhhmmAt a ≤ limit := (h.cccc.le h0 hcccc).2
  exact ⟨haa, hdigits, hcccc, hdd, (h.ddhhmm.le h0 hdd).2⟩

/-- The parser takes the groups as they stand, wherever there are characters for them. -/
theorem wmoGroups_iff (h0 : buf limit = 0) (ha : a ≤ limit) :
    wmoGroups limit buf a = some (hdr, e) ↔
      ∃ g : Groups, g.Parsed buf a ∧ hdr = g.header (scanInt g.digits) ∧ e = g.behind := by
  constructor
  · intro h
    unfold wmoGroups at h
    obtain ⟨⟨tt, p₁⟩, hw₁, h⟩ := Option.bind_eq_some_iff.1 h
    obtain ⟨k₁, htt, rfl⟩ := (getWstr_iff h0 ha).1 hw₁
    have hp₁ := (htt.le h0 ha).2
    obtain ⟨⟨aa, p₂⟩, hw₂, h⟩ := Option.bind_eq_some_iff.1 h
    obtain ⟨k₂, haa, rfl⟩ := (getWstr_iff h0 hp₁).1 hw₂
    have hp₂ := (haa.le h0 hp₁).2
    dsimp only at h
    rw [getInt_eq] at h
    dsimp only at h
    have hdigits := (digitsAt_iff h0 hp₂).2 rfl
    have hp₃ := digits_le limit buf hp₂
    generalize hds : load buf _ (digits limit buf _) = ds at h hdigits
    have hlen : digits limit buf (a + k₁ + tt.length + k₂ + aa.length) = ds.length := by
      rw [← hds, length_load]
    rw [hlen] at h hp₃
    obtain ⟨⟨cccc, p₄⟩, hw₄, h⟩ := Option.bind_eq_some_iff.1 h
    obtain ⟨k₄, hcccc, rfl⟩ := (getWstr_iff h0 hp₃).1 hw₄
    have hp₄ := (hcccc.le h0 hp₃).2
    obtain ⟨⟨ddhhmm, p₅⟩, hw₅, h⟩ := Option.bind_eq_some_iff.1 h
    obtain ⟨k₅, hdd, rfl⟩ := (getWstr_iff h0 hp₄).1 hw₅
    have hp₅ := (hdd.le h0 hp₄).2
    dsimp only at h
    cases hbbb : (getWstr limit buf _ 9).getD ([], _) with
    | mk bbb p₆ =>
      have hlast := (lastAt_iff h0 hp₅).1 hbbb
      rw [hbbb] at h
      obtain ⟨p₇, hw₇, h⟩ := Option.bind_eq_some_iff.1 h
      obtain ⟨i, hline, rfl⟩ := getLine_iff.1 hw₇
      cases h
      exact ⟨⟨tt, aa, ds, cccc, ddhhmm, bbb, k₁, k₂, k₄, k₅, p₆, i⟩,
        ⟨htt, haa, hdigits, hcccc, hdd, hlast, hline⟩, rfl, rfl⟩
  · rintro ⟨g, hg, rfl, rfl⟩
    obtain ⟨haa, hdigits, hcccc, hdd, hbbb⟩ := hg.le h0 ha
    have hds := (digitsAt_iff h0 hdigits).1 hg.digits
    have hint : getInt limit buf (g.digitsAt a) = (scanInt g.digits, g.ccccAt a) := by
      rw [getInt_eq, ← hds]
      have hlen := congrArg List.length hds
      rw [length_load] at hlen
      rw [← hlen]
      rfl
    have htt : getWstr limit buf a 2 = some (g.tt, g.aaAt a) :=
      (getWstr_iff h0 ha).2 ⟨_, hg.tt, rfl⟩
    have haa' : getWstr limit buf (g.aaAt a) 2 = some (g.aa, g.digitsAt a) :=
      (getWstr_iff h0 haa).2 ⟨_, hg.aa, rfl⟩
    have hcccc' : getWstr limit buf (g.ccccAt a) 4 = some (g.cccc, g.ddhhmmAt a) :=
      (getWstr_iff h0 hcccc).2 ⟨_, hg.cccc, rfl⟩
    have hdd' : getWstr limit buf (g.ddhhmmAt a) 6 = some (g.ddhhmm, g.bbbAt a) :=
      (getWstr_iff h0 hdd).2 ⟨_, hg.ddhhmm, rfl⟩
    have hbbb' : (getWstr limit buf (g.bbbAt a) 9).getD ([], g.bbbAt a) = (g.bbb, g.last) :=
      (lastAt_iff h0 hbbb).2 hg.bbb
    have hline : getLine buf g.last 30 = some g.behind := getLine_iff.2 ⟨_, hg.line, rfl⟩
    simp only [wmoGroups, htt, haa', hint, hcccc', hdd', hbbb', hline, Option.bind_eq_bind,
      Option.bind_some]
    rfl

/-- There is one way to read a text. -/
theorem WordAt.unique {pos n k k' : Nat} {w w' : Text} (h : WordAt buf pos n k w)
    (h' : WordAt buf pos n k' w') (h0 : buf limit = 0) (hpos : pos ≤ limit) : k = k' ∧ w = w' := by
  have hsame := ((getWstr_iff h0 hpos).2 ⟨k, h, rfl⟩).symm.trans
    ((getWstr_iff h0 hpos).2 ⟨k', h', rfl⟩)
  obtain ⟨rfl, hend⟩ := Prod.mk.inj (Option.some.inj hsame)
  exact ⟨by omega, rfl⟩

theorem Groups.Parsed.unique (h : g.Parsed buf a) (h' : g'.Parsed buf a) (h0 : buf limit = 0)
    (ha : a ≤ limit) : g = g' := by
  obtain ⟨haa, hdigits, hcccc, hdd, hbbb⟩ := h.le h0 ha
  obtain ⟨tt, aa, ds, cccc, ddhhmm, bbb, k₁, k₂, k₄, k₅, last, line⟩ := g
  obtain ⟨tt', aa', ds', cccc', ddhhmm', bbb', k₁', k₂', k₄', k₅', last', line'⟩ := g'
  obtain ⟨rfl, rfl⟩ : k₁ = k₁' ∧ tt = tt' := h.tt.unique h'.tt h0 ha
  obtain ⟨rfl, rfl⟩ : k₂ = k₂' ∧ aa = aa' := h.aa.unique h'.aa h0 haa
  obtain rfl : ds = ds' :=
    ((digitsAt_iff h0 hdigits).1 h.digits).trans ((digitsAt_iff h0 hdigits).1 h'.digits).symm
  obtain ⟨rfl, rfl⟩ : k₄ = k₄' ∧ cccc = cccc' := h.cccc.unique h'.cccc h0 hcccc
  obtain ⟨rfl, rfl⟩ : k₅ = k₅' ∧ ddhhmm = ddhhmm' := h.ddhhmm.unique h'.ddhhmm h0 hdd
  obtain ⟨rfl, rfl⟩ : bbb = bbb' ∧ last = last' :=
    Prod.mk.inj (((lastAt_iff h0 hbbb).2 h.bbb).symm.trans ((lastAt_iff h0 hbbb).2 h'.bbb))
  obtain rfl : line = line' := by
    have hsame := (getLine_iff.2 ⟨_, h.line, rfl⟩).symm.trans (getLine_iff.2 ⟨_, h'.line, rfl⟩)
    have := Option.some.inj hsame
    dsimp only at this
    omega
  rfl

end Parse

section Head
variable {t : GribText} {limit a n e : Nat} {buf : Buffer} {g : Groups} {hdr : WmoHdr}
  {p m : Text}

theorem wmoHeader_some (h : wmoGroups limit buf a = some (hdr, e)) : ∃ wmometa metaoff,
    wmoHeader t limit buf a n =
      identify hdr (pilPart buf e a n) (modelPart t buf e) wmometa metaoff := by
  unfold wmoHeader
  rw [h]
  dsimp only
  by_cases hgrib : load buf e 4 = ascii "GRIB"
  · have hpil : pilPart buf e a n = [] := if_pos hgrib
    rw [if_pos hgrib, hpil]
    by_cases hversion : buf (e + 7) = 0 ∨ buf (e + 7) = 1
    · have hmodel : modelPart t buf e = ascii "/m" ++ t.model (buf (e + 12)) (buf (e + 13)) :=
        if_pos ⟨hgrib, hversion⟩
      rw [if_pos hversion, hmodel]
      exact ⟨_, _, rfl⟩
    · have hmodel : modelPart t buf e = [] := if_neg fun hboth => hversion hboth.2
      rw [if_neg hversion, hmodel]
      split_ifs
      · exact ⟨_, _, rfl⟩
      · exact ⟨_, _, rfl⟩
  · have hpil : pilPart buf e a n =
        pil buf (if load buf e 4 = ascii "^NMC" then e + 4 else e)
          (n - ((if load buf e 4 = ascii "^NMC" then e + 4 else e) - a)) := if_neg hgrib
    have hmodel : modelPart t buf e = [] := if_neg fun hboth => hgrib hboth.1
    rw [if_neg hgrib, hpil, hmodel]
    exact ⟨_, _, rfl⟩

theorem length_wmoid_le (h : hdr.Short) (hp : p.length ≤ 6) (hm : m.length ≤ 64) :
    0 < (wmoid hdr p m).length ∧ (wmoid hdr p m).length ≤ 128 := by
  have hii : (fmt0 2 hdr.ii).length ≤ 11 := length_fmt0_int (by decide) h.ii
  have hmin := le_length_fmt0 2 hdr.ii
  have htt := h.tt
  have haa := h.aa
  have hcccc := h.cccc
  have hdd := h.ddhhmm
  have hbbb := h.bbb
  have hsep : (ascii " /p").length = 3 := rfl
  unfold wmoid
  simp only [List.length_append, List.length_singleton]
  split_ifs <;> simp only [List.length_cons, List.length_nil, List.length_append, hsep] <;> omega

theorem length_pilPart_le (buf : Buffer) (e a n : Nat) : (pilPart buf e a n).length ≤ 6 := by
  unfold pilPart
  split_ifs
  · exact Nat.zero_le 6
  · exact length_pil_le ..
  · exact length_pil_le ..

/-- The labels of the models are short. -/
theorem length_modelPart_le (t : GribText) (buf : Buffer) (e : Nat) :
    (modelPart t.labelled buf e).length ≤ 64 := by
  have hlabel := length_sPdsModel_le (buf (e + 12)).toNat (buf (e + 13)).toNat_lt
  have hsep : (ascii "/m").length = 2 := rfl
  unfold modelPart
  split_ifs
  · rw [List.length_append, hsep]
    change 2 + (sPdsModel _ _).own.length ≤ 64
    omega
  · exact Nat.zero_le 64

/-- The groups as they are parsed make the name, however empty they are. -/
theorem wmoHeader_parsed (h0 : buf limit = 0) (ha : a ≤ limit) (hg : g.Parsed buf a) :
    (wmoHeader t.labelled limit buf a n).ok = true ∧
      (wmoHeader t.labelled limit buf a n).wmohead =
        wmoid (g.header (scanInt g.digits)) (pilPart buf g.behind a n)
          (modelPart t.labelled buf g.behind) ∧
      (wmoHeader t.labelled limit buf a n).wmohead.length ≤ 128 := by
  have hw := (wmoGroups_iff h0 ha).2 ⟨g, hg, rfl, rfl⟩
  have hshort : (g.header (scanInt g.digits)).Short :=
    groups_yields limit buf a _ _ (wmoGroups_eq limit buf a ▸ hw)
  obtain ⟨wmometa, metaoff, heq⟩ := wmoHeader_some (t := t.labelled) (n := n) hw
  obtain ⟨hpos, hle⟩ := length_wmoid_le hshort (length_pilPart_le buf g.behind a n)
    (length_modelPart_le t buf g.behind)
  rw [heq, identify, if_neg (by omega)]
  exact ⟨rfl, rfl, hle⟩

theorem wmoHeader_unparsed (h0 : buf limit = 0) (ha : a ≤ limit) (h : ¬ ∃ g : Groups, g.Parsed buf a) :
    (wmoHeader t limit buf a n).ok = false ∧ (wmoHeader t limit buf a n).wmohead = [] := by
  cases hw : wmoGroups limit buf a with
  | none =>
    unfold wmoHeader
    rw [hw]
    exact ⟨rfl, rfl⟩
  | some r =>
    obtain ⟨g, hg, -, -⟩ := (wmoGroups_iff h0 ha).1 hw
    exact absurd ⟨g, hg⟩ h

/-- A number of two digits and more needs no zeros. -/
theorem fmt0_decimal {k : Nat} (h : 10 ≤ k) : fmt0 2 (k : Int) = decimal k := by
  have hlen : ¬ (decimal k).length ≤ 0 + 1 := by
    rw [length_decimal_le_iff]
    omega
  unfold fmt0
  dsimp only
  rw [if_neg (by omega), Int.natAbs_natCast, List.length_nil,
    show 2 - 0 - (decimal k).length = 0 by omega]
  rfl

theorem scanInt_number {ds : Text} (h : Groups.number ds < 2 ^ 31) :
    scanInt ds = (Groups.number ds : Int) := by
  unfold Groups.number at h ⊢
  unfold scanInt
  generalize ds.foldl (fun n b => 10 * n + (b.toNat - 48)) 0 = value at h ⊢
  have hvalue : min value (2 ^ 63 - 1) % 2 ^ 32 = value := by omega
  simp only [hvalue, h, if_true]

theorem scanInt_lt (ds : Text) : scanInt ds < 2 ^ 31 := by
  unfold scanInt
  dsimp only
  split_ifs
  · omega
  · omega

/-- An `int` is printed as the number of its digits only where it holds that. -/
theorem number_lt_of_fmt0 {ds : Text} (h : fmt0 2 (scanInt ds) = fmt0 2 (Groups.number ds)) :
    Groups.number ds < 2 ^ 31 := by
  by_contra hbig
  have hlt := scanInt_lt ds
  have hten : 10 ≤ Groups.number ds := by omega
  rw [fmt0_decimal hten] at h
  by_cases hneg : scanInt ds < 0
  · have hmem : (45 : UInt8) ∈ decimal (Groups.number ds) := by
      rw [← h]
      unfold fmt0
      dsimp only
      rw [if_pos hneg]
      exact List.mem_append_left _ List.mem_cons_self
    exact absurd (decimal_digits hmem).1 (by decide)
  · obtain ⟨k, hk⟩ := Int.eq_ofNat_of_zero_le (Int.not_lt.1 hneg)
    rw [hk] at h hlt
    by_cases hk10 : 10 ≤ k
    · rw [fmt0_decimal hk10] at h
      have := decimal_inj h
      omega
    · have hshort : (fmt0 2 (k : Int)).length ≤ 2 := length_fmt0_le_iff.2 (by omega)
      rw [h] at hshort
      have := length_decimal_le_iff.1 hshort
      omega

end Head

/-- What `wmo_header` is to do: accept headings alone, and make their canonical form of them. -/
structure WmoHeads (t : GribText) (limit : Nat) (buf : Buffer) (a n : Nat) : Prop where
  accepts : (wmoHeader t limit buf a n).ok = true ↔ ∃ g : Groups, g.Heading buf a
  canonical : ∀ g : Groups, g.Heading buf a →
    (wmoHeader t limit buf a n).wmohead =
        g.canonical (pilPart buf g.behind a n) (modelPart t buf g.behind) ∧
      (wmoHeader t limit buf a n).wmohead.length ≤ 128
  quiet : (wmoHeader t limit buf a n).ok = false → (wmoHeader t limit buf a n).wmohead = []

/-- Where there are characters for all groups: a letter or a digit in each, digits that an `int`
holds, and a newline in front of the NUL. -/
structure Groups.Proper (buf : Buffer) (g : Groups) : Prop where
  words : g.tt ≠ [] ∧ g.aa ≠ [] ∧ g.cccc ≠ [] ∧ g.ddhhmm ≠ []
  number : Groups.number g.digits < 2 ^ 31
  text : ∀ i, i < g.line → buf (g.last + i) ≠ 0

/-- Of a NUL-terminated text, `wmo_header` accepts headings alone exactly where all that it
parses is proper: it does not look whether a group is empty. -/
theorem wmo_heads_iff (t : GribText) {limit : Nat} {buf : Buffer} {a : Nat} (n : Nat)
    (h0 : buf limit = 0) (ha : a ≤ limit) :
    WmoHeads t.labelled limit buf a n ↔ ∀ g : Groups, g.Parsed buf a → g.Proper buf := by
  constructor
  · intro h g hg
    obtain ⟨hok, hhead, -⟩ := wmoHeader_parsed (t := t) (n := n) h0 ha hg
    obtain ⟨g', hg'⟩ := h.accepts.1 hok
    obtain rfl := hg.unique hg'.toParsed h0 ha
    refine ⟨hg'.words, ?_, hg'.text⟩
    have hcanonical := hhead.symm.trans (h.canonical g hg').1
    unfold Groups.canonical wmoid at hcanonical
    simp only [Groups.header, List.append_assoc] at hcanonical
    have htail := List.append_cancel_left (List.append_cancel_left hcanonical)
    exact number_lt_of_fmt0 (List.append_cancel_right htail)
  · intro h
    have hheading : ∀ g : Groups, g.Parsed buf a → g.Heading buf a :=
      fun g hg => ⟨hg, (h g hg).words, (h g hg).text⟩
    refine ⟨⟨fun hok => ?_, fun ⟨g, hg⟩ => ?_⟩, fun g hg => ?_, fun hok => ?_⟩
    · by_contra hno
      have hunparsed := wmoHeader_unparsed (t := t.labelled) (n := n) h0 ha
        fun ⟨g, hg⟩ => hno ⟨g, hheading g hg⟩
      rw [hunparsed.1] at hok
      cases hok
    · exact (wmoHeader_parsed h0 ha hg.toParsed).1
    · obtain ⟨-, hhead, hle⟩ := wmoHeader_parsed (t := t) (n := n) h0 ha hg.toParsed
      refine ⟨?_, hle⟩
      rw [hhead, scanInt_number (h g hg.toParsed).number]
      rfl
    · refine (wmoHeader_unparsed h0 ha ?_).2
      rintro ⟨g, hg⟩
      rw [(wmoHeader_parsed h0 ha hg).1] at hok
      cases hok

def headingText : Buffer := fun i => (ascii "SAUS70 KWBC 011200\n").getD i 0

def headingGroups : Groups where
  tt := ascii "SA"
  aa := ascii "US"
  digits := ascii "70"
  cccc := ascii "KWBC"
  ddhhmm := ascii "011200"
  bbb := []
  ttBlanks := 0
  aaBlanks := 0
  ccccBlanks := 1
  ddhhmmBlanks := 1
  last := 18
  line := 0

theorem headingGroups_parsed : headingGroups.Parsed headingText 0 where
  tt := by constructor <;> decide +kernel
  aa := by constructor <;> decide +kernel
  digits := by constructor <;> decide +kernel
  cccc := by constructor <;> decide +kernel
  ddhhmm := by constructor <;> decide +kernel
  bbb := .word (k := 0) (w := []) (by constructor <;> decide +kernel)
  line := by constructor <;> decide +kernel

theorem wmo_heads_iff_run : (headingText 19 = 0 ∧ 0 ≤ 19) ∧
    WmoHeads GribText.plain.labelled 19 headingText 0 19 := by
  have h0 : headingText 19 = 0 := by decide
  refine ⟨⟨h0, by decide⟩, (wmo_heads_iff .plain 19 h0 (by decide)).2 fun g hg => ?_⟩
  obtain rfl := hg.unique headingGroups_parsed h0 (by decide)
  constructor <;> decide +kernel

/-- No group of this text has a letter or a digit. -/
def groupless : Buffer := fun i => (ascii "!!!\n").getD i 0

theorem groupless_accepted :
    (wmoHeader GribText.plain.labelled 4 groupless 0 4).ok = true ∧
      (wmoHeader GribText.plain.labelled 4 groupless 0 4).wmohead = ascii "00  " ∧
      ¬ ∃ g : Groups, g.Heading groupless 0 := by
  refine ⟨by decide +kernel, by decide +kernel, ?_⟩
  rintro ⟨g, hg⟩
  have hblanks : g.ttBlanks = 0 := by
    by_contra hpos
    exact absurd (hg.tt.blank 0 (Nat.pos_of_ne_zero hpos)) (by decide)
  have hletter := hg.tt.letter 0 (List.length_pos_iff.2 hg.words.1)
  rw [hblanks] at hletter
  exact absurd hletter (by decide)

end Noaaport
