import Noaaport.Gbits
import Noaaport.Lib.Scan
import Noaaport.Lib.Walk

/-! `g2_info` of the GRIB2 library: the look at a message before its fields are taken. -/
namespace Noaaport.G2
open Lib

/-- `"GRIB"` and `"7777"` at a byte of the message. -/
def isGrib (cgrib : Cgrib) (j : Nat) : Bool :=
  cgrib j = 71 ∧ cgrib (j + 1) = 82 ∧ cgrib (j + 2) = 73 ∧ cgrib (j + 3) = 66

def sevens (cgrib : Cgrib) (ipos : Nat) : Bool :=
  cgrib ipos = 55 ∧ cgrib (ipos + 1) = 55 ∧ cgrib (ipos + 2) = 55 ∧ cgrib (ipos + 3) = 55

/-- The length and the number that a section begins with. -/
def lensec (cgrib : Cgrib) (ipos : Nat) : Nat := (gbit cgrib (ipos * 8) 32).toNat
def isecnum (cgrib : Cgrib) (ipos : Nat) : Nat := (gbit cgrib (ipos * 8 + 32) 8).toNat

/-- The first indicator among the first 100 bytes; the bound by the size is the operand of a comma
that is thrown away. -/
def istart (cgrib : Cgrib) : Option Nat := (List.range 100).find? (fun j => isGrib cgrib j)

/-- Octets of each entry of Section 1. -/
def mapsec1 : List Nat := [2, 2, 1, 1, 1, 2, 1, 1, 1, 1, 1, 1, 1]

/-- Entries of so many octets each, one after the other. -/
def unpackMap (cgrib : Cgrib) (iofst : Nat) : List Nat → List Int
  | [] => []
  | octets :: rest => gbit cgrib iofst (octets * 8) :: unpackMap cgrib (iofst + octets * 8) rest

structure Counts where
  numlocal : Nat
  numfields : Nat
deriving DecidableEq, Repr

/-- One turn of the loop over the sections; the code it returns stands with the counts so far. -/
def infoTurn (cgrib : Cgrib) (last ipos : Nat) (c : Counts) : Turn Counts (Int × Counts) :=
  if sevens cgrib ipos then
    if ipos + 4 ≠ last then .out (4, c) else .out (0, c)
  else if ipos + lensec cgrib ipos > last then .out (5, c)
  else if 2 ≤ isecnum cgrib ipos ∧ isecnum cgrib ipos ≤ 7 then
    if isecnum cgrib ipos = 2 then .on (lensec cgrib ipos) { c with numlocal := c.numlocal + 1 }
    else if isecnum cgrib ipos = 4 then .on (lensec cgrib ipos) { c with numfields := c.numfields + 1 }
    else .on (lensec cgrib ipos) c
  else .out (6, c)

/-- What a call stores, and what it returns. -/
structure Info where
  listsec0 : List Int
  listsec1 : List Int
  counts : Counts
  ierr : Int
deriving DecidableEq, Repr

def g2_info (fuel : Nat) (cgrib : Cgrib) (sz : Int) : Option Info :=
  match istart cgrib with
  | none => some ⟨[], [], ⟨0, 0⟩, 1⟩
  | some istart =>
    let discipline := gbit cgrib (8 * (istart + 6)) 8
    let edition := gbit cgrib (8 * (istart + 7)) 8
    let lengrib := (gbit cgrib (8 * (istart + 12)) 32).toNat
    let listsec0 := [discipline, edition, (lengrib : Int)]
    if (istart + lengrib : Int) > sz + 1 then some ⟨listsec0, [], ⟨0, 0⟩, 7⟩
    else if edition ≠ 2 then some ⟨listsec0, [], ⟨0, 0⟩, 2⟩
    else if isecnum cgrib (istart + 16) ≠ 1 then some ⟨listsec0, [], ⟨0, 0⟩, 3⟩
    else
      let listsec1 := unpackMap cgrib (8 * (istart + 21)) mapsec1
      (walk (infoTurn cgrib (istart + lengrib)) fuel
        (istart + 16 + lensec cgrib (istart + 16)) ⟨0, 0⟩).map
        (fun r => ⟨listsec0, listsec1, r.2, r.1⟩)

/-- A section of a message: where it begins, how long it is and which it is. -/
structure Sec where
  pos : Nat
  len : Nat
  num : Nat
deriving DecidableEq, Repr

/-- `secs` is what the message has between two of its bytes, each section where the one before
ends and none where the end string is. -/
inductive Sections (cgrib : Cgrib) : Nat → List Sec → Nat → Prop
  | nil (a : Nat) : Sections cgrib a [] a
  | cons {a b : Nat} {secs : List Sec} (more : sevens cgrib a = false)
      (rest : Sections cgrib (a + lensec cgrib a) secs b) :
      Sections cgrib a (⟨a, lensec cgrib a, isecnum cgrib a⟩ :: secs) b

/-- The beginning of a message of `len` bytes. -/
structure Header (cgrib : Cgrib) (start len : Nat) : Prop where
  indicator : istart cgrib = some start
  length : len = (gbit cgrib (8 * (start + 12)) 32).toNat
  edition : gbit cgrib (8 * (start + 7)) 8 = 2
  identification : isecnum cgrib (start + 16) = 1

/-- A GRIB2 message, as a reader may rely on it. -/
structure Message (cgrib : Cgrib) (start len : Nat) (secs : List Sec) : Prop
    extends Header cgrib start len where
  sections : ∃ fin, Sections cgrib (start + 16 + lensec cgrib (start + 16)) secs fin ∧
    sevens cgrib fin = true ∧ fin + 4 = start + len
  numbers : ∀ s ∈ secs, 2 ≤ s.num ∧ s.num ≤ 7

/-- How many sections have a number. -/
def occurrences (num : Nat) (secs : List Sec) : Nat := secs.countP (fun s => s.num = num)

section Numbers

/-- The four bytes of a length. -/
theorem lensec_bytes (cgrib : Cgrib) (ipos : Nat) : lensec cgrib ipos =
    (((cgrib ipos).toNat * 256 + (cgrib (ipos + 1)).toNat) * 256 + (cgrib (ipos + 2)).toNat) * 256 +
      (cgrib (ipos + 3)).toNat := by
  have h1 : 8 * ipos + 8 = 8 * (ipos + 1) := by ring
  have h2 : 8 * ipos + (8 + 8) = 8 * (ipos + 2) := by ring
  have h3 : 8 * ipos + (8 + 8 + 8) = 8 * (ipos + 3) := by ring
  have hsplit : field cgrib (8 * ipos) (8 + 8 + 8 + 8) =
      (((cgrib ipos).toNat * 2 ^ 8 + (cgrib (ipos + 1)).toNat) * 2 ^ 8 + (cgrib (ipos + 2)).toNat) *
        2 ^ 8 + (cgrib (ipos + 3)).toNat := by
    rw [field_add, field_add, field_add, field_byte, h1, field_byte, h2, field_byte, h3, field_byte]
  rw [lensec, gbit_of_le _ _ (by decide), Int.toNat_natCast, Nat.mul_comm]
  exact hsplit

/-- `"7777"` where a section would be is the length that it would have. -/
theorem sevens_iff (cgrib : Cgrib) (ipos : Nat) :
    sevens cgrib ipos = true ↔ lensec cgrib ipos = 926365495 := by
  have hbyte : ∀ b : UInt8, b = 55 ↔ b.toNat = 55 := by
    intro b
    exact ⟨fun h => by rw [h]; rfl, fun h => UInt8.toNat_inj.1 h⟩
  have h0 := (cgrib ipos).toNat_lt
  have h1 := (cgrib (ipos + 1)).toNat_lt
  have h2 := (cgrib (ipos + 2)).toNat_lt
  have h3 := (cgrib (ipos + 3)).toNat_lt
  rw [sevens, decide_eq_true_eq, hbyte, hbyte, hbyte, hbyte, lensec_bytes]
  omega

theorem not_sevens {cgrib : Cgrib} {ipos : Nat} (h : lensec cgrib ipos ≠ 926365495) :
    sevens cgrib ipos = false :=
  Bool.eq_false_iff.2 fun hsevens => h ((sevens_iff cgrib ipos).1 hsevens)

theorem occurrences_cons (num : Nat) (s : Sec) (secs : List Sec) :
    occurrences num (s :: secs) = occurrences num [s] + occurrences num secs := by
  simp only [occurrences, List.countP_cons, List.countP_nil]
  omega

end Numbers

section Walk
variable {cgrib : Cgrib} {last a b k fuel len : Nat} {c c' : Counts} {secs : List Sec} {r : Int × Counts}

/-- The counts after some sections. -/
def Counts.after (c : Counts) (secs : List Sec) : Counts :=
  ⟨c.numlocal + occurrences 2 secs, c.numfields + occurrences 4 secs⟩

theorem Counts.after_nil (c : Counts) : c.after [] = c := rfl

theorem Counts.after_cons (c : Counts) (s : Sec) (secs : List Sec) :
    (c.after [s]).after secs = c.after (s :: secs) := by
  simp only [Counts.after, occurrences_cons _ s secs, Nat.add_assoc]

theorem infoTurn_on : infoTurn cgrib last a c = .on len c' ↔
    sevens cgrib a = false ∧ len = lensec cgrib a ∧ a + lensec cgrib a ≤ last ∧
      (2 ≤ isecnum cgrib a ∧ isecnum cgrib a ≤ 7) ∧
      c' = c.after [⟨a, lensec cgrib a, isecnum cgrib a⟩] := by
  unfold infoTurn
  cases hsevens : sevens cgrib a with
  | true =>
    rw [if_pos rfl]
    split_ifs <;> simp
  | false =>
    by_cases hlast : a + lensec cgrib a ≤ last
    · by_cases hnum : 2 ≤ isecnum cgrib a ∧ isecnum cgrib a ≤ 7
      · have hcounts : (if isecnum cgrib a = 2 then
              Turn.on (lensec cgrib a) { c with numlocal := c.numlocal + 1 }
            else if isecnum cgrib a = 4 then
              .on (lensec cgrib a) { c with numfields := c.numfields + 1 }
            else .on (lensec cgrib a) c : Turn Counts (Int × Counts)) =
            .on (lensec cgrib a) (c.after [⟨a, lensec cgrib a, isecnum cgrib a⟩]) := by
          by_cases h2 : isecnum cgrib a = 2
          · simp [h2, Counts.after, occurrences]
          · by_cases h4 : isecnum cgrib a = 4
            · simp [h4, Counts.after, occurrences]
            · simp [h2, h4, Counts.after, occurrences]
        rw [if_neg (by simp), if_neg (Nat.not_lt.2 hlast), if_pos hnum, hcounts]
        simp only [Turn.on.injEq, hlast, hnum, true_and, and_true]
        constructor <;> intro h <;> exact ⟨h.1.symm, h.2.symm⟩
      · rw [if_neg (by simp), if_neg (Nat.not_lt.2 hlast), if_neg hnum]
        simp [hnum]
    · rw [if_neg (by simp), if_pos (Nat.not_le.1 hlast)]
      simp [hlast]

/-- Why the loop ends at a byte, and with which code. -/
def Ends (cgrib : Cgrib) (last fin : Nat) (ierr : Int) : Prop :=
  (sevens cgrib fin = true ∧ fin + 4 = last ∧ ierr = 0) ∨
  (sevens cgrib fin = true ∧ fin + 4 ≠ last ∧ ierr = 4) ∨
  (sevens cgrib fin = false ∧ last < fin + lensec cgrib fin ∧ ierr = 5) ∨
  (sevens cgrib fin = false ∧ fin + lensec cgrib fin ≤ last ∧
    ¬ (2 ≤ isecnum cgrib fin ∧ isecnum cgrib fin ≤ 7) ∧ ierr = 6)

theorem infoTurn_out : infoTurn cgrib last a c = .out r ↔ Ends cgrib last a r.1 ∧ r.2 = c := by
  obtain ⟨ierr, c'⟩ := r
  unfold infoTurn Ends
  cases hsevens : sevens cgrib a with
  | true =>
    by_cases hlast : a + 4 = last
    · simp [hlast, eq_comm]
    · simp [hlast, eq_comm]
  | false =>
    by_cases hlast : a + lensec cgrib a ≤ last
    · by_cases hnum : 2 ≤ isecnum cgrib a ∧ isecnum cgrib a ≤ 7
      · rw [if_neg (by simp), if_neg (Nat.not_lt.2 hlast), if_pos hnum]
        have hon : ¬ last < a + lensec cgrib a := Nat.not_lt.2 hlast
        split_ifs <;> simp [hnum, hon]
      · rw [if_neg (by simp), if_neg (Nat.not_lt.2 hlast), if_neg hnum]
        simp [hlast, hnum, eq_comm]
    · rw [if_neg (by simp), if_pos (Nat.not_le.1 hlast)]
      simp [hlast, Nat.not_le.1 hlast, eq_comm]

/-- The turns that go on are the sections up to `last`, of the numbers 2 to 7. -/
theorem goes_iff : Goes (infoTurn cgrib last) k a c b c' ↔
    ∃ secs, secs.length = k ∧ Sections cgrib a secs b ∧ (∀ s ∈ secs, 2 ≤ s.num ∧ s.num ≤ 7) ∧
      (∀ s ∈ secs, s.pos + s.len ≤ last) ∧ c' = c.after secs := by
  constructor
  · intro h
    induction h with
    | refl a c => exact ⟨[], rfl, .nil a, by simp, by simp, (Counts.after_nil c).symm⟩
    | step hturn _ ih =>
      obtain ⟨secs, hk, hsecs, hnums, hlast, hc⟩ := ih
      obtain ⟨hsevens, rfl, hle, hnum, rfl⟩ := infoTurn_on.1 hturn
      refine ⟨_, by simpa using hk, .cons hsevens hsecs, ?_, ?_, by rw [hc, Counts.after_cons]⟩
      · simpa using ⟨hnum, hnums⟩
      · simpa using ⟨hle, hlast⟩
  · intro h
    obtain ⟨secs, rfl, hsecs, hnums, hlast, rfl⟩ := h
    induction hsecs generalizing c with
    | nil a => exact .refl a c
    | cons hsevens rest ih =>
      have hnum := hnums _ List.mem_cons_self
      have hle := hlast _ List.mem_cons_self
      have hturn := infoTurn_on (c := c) |>.2 ⟨hsevens, rfl, hle, hnum, rfl⟩
      rw [← Counts.after_cons]
      exact .step hturn (ih (fun s hs => hnums s (List.mem_cons_of_mem _ hs))
        (fun s hs => hlast s (List.mem_cons_of_mem _ hs)))

theorem Sections.le (h : Sections cgrib a secs b) :
    a ≤ b ∧ ∀ s ∈ secs, a ≤ s.pos ∧ s.pos + s.len ≤ b := by
  induction h with
  | nil a => simp
  | cons _ _ ih =>
    refine ⟨by omega, ?_⟩
    intro s hs
    cases hs with
    | head => exact ⟨Nat.le_refl _, ih.1⟩
    | tail _ hs =>
      have hs := ih.2 s hs
      omega

/-- The loop returns a code and the counts: what the sections up to the byte where it ends say. -/
theorem walk_infoTurn : (∃ fuel, walk (infoTurn cgrib last) fuel a ⟨0, 0⟩ = some r) ↔
    ∃ secs fin, Sections cgrib a secs fin ∧ (∀ s ∈ secs, 2 ≤ s.num ∧ s.num ≤ 7) ∧
      (∀ s ∈ secs, s.pos + s.len ≤ last) ∧ Ends cgrib last fin r.1 ∧
      r.2 = ⟨occurrences 2 secs, occurrences 4 secs⟩ := by
  have hzero : ∀ secs, (Counts.after ⟨0, 0⟩ secs) = ⟨occurrences 2 secs, occurrences 4 secs⟩ := by
    intro secs
    simp [Counts.after]
  constructor
  · intro h
    obtain ⟨fuel, h⟩ := h
    obtain ⟨k, fin, c, hk, hgoes, hout⟩ := walk_eq_some.1 h
    obtain ⟨secs, hlen, hsecs, hnums, hlast, hc⟩ := goes_iff.1 hgoes
    obtain ⟨hends, hr⟩ := infoTurn_out.1 hout
    exact ⟨secs, fin, hsecs, hnums, hlast, hends, by rw [hr, hc, hzero]⟩
  · intro h
    obtain ⟨secs, fin, hsecs, hnums, hlast, hends, hr⟩ := h
    rw [← hzero] at hr
    exact ⟨secs.length + 1, walk_eq_some.2 ⟨secs.length, fin, _, by omega,
      goes_iff.2 ⟨secs, rfl, hsecs, hnums, hlast, rfl⟩, infoTurn_out.2 ⟨hends, hr⟩⟩⟩

/-- A section of no length, where the loop stays. -/
def Empty (cgrib : Cgrib) (last fin : Nat) : Prop :=
  sevens cgrib fin = false ∧ lensec cgrib fin = 0 ∧ fin ≤ last ∧ 2 ≤ isecnum cgrib fin ∧ isecnum cgrib fin ≤ 7

theorem staysAt_iff : StaysAt (infoTurn cgrib last) b ↔ Empty cgrib last b := by
  constructor
  · intro h
    obtain ⟨c', hc'⟩ := h ⟨0, 0⟩
    obtain ⟨hsevens, hlen, hle, hnum, _⟩ := infoTurn_on.1 hc'
    exact ⟨hsevens, hlen.symm, by omega, hnum⟩
  · intro h c
    obtain ⟨hsevens, hlen, hle, hnum⟩ := h
    exact ⟨_, infoTurn_on.2 ⟨hsevens, hlen.symm, by omega, hnum, rfl⟩⟩

/-- It goes on for ever exactly where the sections lead to one of no length. -/
theorem walk_infoTurn_none : (∀ fuel, walk (infoTurn cgrib last) fuel a ⟨0, 0⟩ = none) ↔
    ∃ secs fin, Sections cgrib a secs fin ∧ (∀ s ∈ secs, 2 ≤ s.num ∧ s.num ≤ 7) ∧
      (∀ s ∈ secs, s.pos + s.len ≤ last) ∧ Empty cgrib last fin := by
  constructor
  · intro h
    have hpos : ∀ b t t' len, infoTurn cgrib last b t = .on len t' →
        b + len ≤ last ∧ (len = 0 → StaysAt (infoTurn cgrib last) b) := by
      intro b t t' len hturn
      obtain ⟨hsevens, rfl, hle, hnum, _⟩ := infoTurn_on.1 hturn
      exact ⟨hle, fun h0 => staysAt_iff.2 ⟨hsevens, h0, by omega, hnum⟩⟩
    cases walk_returns_or_stays hpos a ⟨0, 0⟩ with
    | inl hsome =>
      obtain ⟨r, hr⟩ := hsome
      rw [h] at hr
      simp at hr
    | inr hstays =>
      obtain ⟨k, fin, c, hgoes, hstays⟩ := hstays
      obtain ⟨secs, _, hsecs, hnums, hlast, _⟩ := goes_iff.1 hgoes
      exact ⟨secs, fin, hsecs, hnums, hlast, staysAt_iff.1 hstays⟩
  · intro h fuel
    obtain ⟨secs, fin, hsecs, hnums, hlast, hempty⟩ := h
    exact (goes_iff.2 ⟨secs, rfl, hsecs, hnums, hlast, rfl⟩).stays (staysAt_iff.2 hempty) fuel

end Walk

section Whole
variable {cgrib cgrib' : Cgrib} {sz : Int} {start len fuel n : Nat} {listsec0 listsec1 : List Int}
  {counts : Counts} {secs : List Sec}

theorem Header.unique {start' len' : Nat} (h : Header cgrib start len) (h' : Header cgrib start' len') :
    start = start' ∧ len = len' := by
  have hstart : start = start' := Option.some.inj (h.indicator.symm.trans h'.indicator)
  subst hstart
  exact ⟨rfl, h.length.trans h'.length.symm⟩

theorem g2_info_header (h : Header cgrib start len) (hroom : (start + len : Int) ≤ sz + 1) :
    g2_info fuel cgrib sz = (walk (infoTurn cgrib (start + len)) fuel
      (start + 16 + lensec cgrib (start + 16)) ⟨0, 0⟩).map
      (fun r => ⟨[gbit cgrib (8 * (start + 6)) 8, 2, (len : Int)],
        unpackMap cgrib (8 * (start + 21)) mapsec1, r.2, r.1⟩) := by
  rw [g2_info, h.indicator]
  simp only [← h.length, h.edition, h.identification]
  rw [if_neg (by omega), if_neg (by simp), if_neg (by simp)]

/-- Without a header, or with a message that is longer than the bulletin, the codes are 1, 2, 3
and 7. -/
theorem g2_info_header_none (fuel : Nat) (h : ¬ ∃ start len, Header cgrib start len ∧ (start + len : Int) ≤ sz + 1) :
    ∃ info, g2_info fuel cgrib sz = some info ∧ info.ierr ∈ [1, 2, 3, 7] := by
  unfold g2_info
  cases hstart : istart cgrib with
  | none => simp
  | some start =>
    simp only
    by_cases hroom : (start + (gbit cgrib (8 * (start + 12)) 32).toNat : Int) > sz + 1
    · rw [if_pos hroom]
      exact ⟨_, rfl, by simp⟩
    · rw [if_neg hroom]
      by_cases hedition : gbit cgrib (8 * (start + 7)) 8 = 2
      · rw [if_neg (not_not.2 hedition)]
        by_cases hnum : isecnum cgrib (start + 16) = 1
        · exact absurd ⟨start, _, ⟨hstart, rfl, hedition, hnum⟩, Int.not_lt.1 hroom⟩ h
        · simp [hnum]
      · simp [hedition]

theorem accepted_message (h : g2_info fuel cgrib sz = some ⟨listsec0, listsec1, counts, 0⟩) :
    ∃ start len secs, Message cgrib start len secs ∧ (start + len : Int) ≤ sz + 1 ∧
      listsec0 = [gbit cgrib (8 * (start + 6)) 8, 2, (len : Int)] ∧
      listsec1 = unpackMap cgrib (8 * (start + 21)) mapsec1 ∧
      counts = ⟨occurrences 2 secs, occurrences 4 secs⟩ := by
  by_cases hheader : ∃ start len, Header cgrib start len ∧ (start + len : Int) ≤ sz + 1
  · obtain ⟨start, len, hheader, hroom⟩ := hheader
    rw [g2_info_header hheader hroom, Option.map_eq_some_iff] at h
    obtain ⟨r, hwalk, hinfo⟩ := h
    obtain ⟨secs, fin, hsecs, hnums, _, hends, hcounts⟩ := walk_infoTurn.1 ⟨fuel, hwalk⟩
    simp only [Info.mk.injEq] at hinfo
    obtain ⟨h0, h1, h2, h3⟩ := hinfo
    rw [h3] at hends
    have hend : sevens cgrib fin = true ∧ fin + 4 = start + len := by
      simpa [Ends] using hends
    exact ⟨start, len, secs, ⟨hheader, ⟨fin, hsecs, hend⟩, hnums⟩, hroom, h0.symm, h1.symm,
      by rw [← h2, hcounts]⟩
  · obtain ⟨info, hinfo, hierr⟩ := g2_info_header_none fuel hheader
    rw [h, Option.some.injEq] at hinfo
    simp [← hinfo] at hierr

theorem message_accepted (hmessage : Message cgrib start len secs) (hroom : (start + len : Int) ≤ sz + 1) :
    ∃ fuel, g2_info fuel cgrib sz =
      some ⟨[gbit cgrib (8 * (start + 6)) 8, 2, (len : Int)], unpackMap cgrib (8 * (start + 21)) mapsec1,
        ⟨occurrences 2 secs, occurrences 4 secs⟩, 0⟩ := by
  obtain ⟨fin, hsecs, hend⟩ := hmessage.sections
  have hlast : ∀ s ∈ secs, s.pos + s.len ≤ start + len := by
    intro s hs
    have hle := hsecs.le.2 s hs
    omega
  obtain ⟨fuel, hwalk⟩ := walk_infoTurn (r := (0, _)) |>.2
    ⟨secs, fin, hsecs, hmessage.numbers, hlast, .inl ⟨hend.1, hend.2, rfl⟩, rfl⟩
  refine ⟨fuel, ?_⟩
  rw [g2_info_header hmessage.toHeader hroom, hwalk]
  rfl

/-- What `g2_info` accepts is a message whose sections follow each other up to the end string, and
it says of it what is there: the indicator, the identification, and how many local sections and
fields the message has. -/
theorem g2_info_accepts :
    (∃ fuel, g2_info fuel cgrib sz = some ⟨listsec0, listsec1, counts, 0⟩) ↔
      ∃ start len secs, Message cgrib start len secs ∧ (start + len : Int) ≤ sz + 1 ∧
        listsec0 = [gbit cgrib (8 * (start + 6)) 8, 2, (len : Int)] ∧
        listsec1 = unpackMap cgrib (8 * (start + 21)) mapsec1 ∧
        counts = ⟨occurrences 2 secs, occurrences 4 secs⟩ := by
  constructor
  · intro h
    obtain ⟨fuel, h⟩ := h
    exact accepted_message h
  · intro h
    obtain ⟨start, len, secs, hmessage, hroom, rfl, rfl, rfl⟩ := h
    exact message_accepted hmessage hroom

/-- `g2_info` never returns exactly when the sections of the message lead to one of no length. -/
theorem g2_info_hangs : (∀ fuel, g2_info fuel cgrib sz = none) ↔
    ∃ start len secs fin, Header cgrib start len ∧ (start + len : Int) ≤ sz + 1 ∧
      Sections cgrib (start + 16 + lensec cgrib (start + 16)) secs fin ∧
      (∀ s ∈ secs, 2 ≤ s.num ∧ s.num ≤ 7) ∧ Empty cgrib (start + len) fin := by
  constructor
  · intro h
    by_cases hheader : ∃ start len, Header cgrib start len ∧ (start + len : Int) ≤ sz + 1
    · obtain ⟨start, len, hheader, hroom⟩ := hheader
      have hwalk : ∀ fuel, walk (infoTurn cgrib (start + len)) fuel
          (start + 16 + lensec cgrib (start + 16)) ⟨0, 0⟩ = none := by
        intro fuel
        have hnone := h fuel
        rwa [g2_info_header hheader hroom, Option.map_eq_none_iff] at hnone
      obtain ⟨secs, fin, hsecs, hnums, _, hempty⟩ := walk_infoTurn_none.1 hwalk
      exact ⟨start, len, secs, fin, hheader, hroom, hsecs, hnums, hempty⟩
    · obtain ⟨info, hinfo, _⟩ := g2_info_header_none 0 hheader
      rw [h 0] at hinfo
      simp at hinfo
  · intro h fuel
    obtain ⟨start, len, secs, fin, hheader, hroom, hsecs, hnums, hempty⟩ := h
    have hlast : ∀ s ∈ secs, s.pos + s.len ≤ start + len := by
      intro s hs
      have hle := hsecs.le.2 s hs
      have hfin := hempty.2.2.1
      omega
    rw [g2_info_header hheader hroom,
      walk_infoTurn_none.2 ⟨secs, fin, hsecs, hnums, hlast, hempty⟩ fuel]
    rfl

theorem gbit_agree {p k : Nat} (h : AgreeOn 0 n cgrib cgrib') (hp : p + k ≤ 8 * n) :
    gbit cgrib p k = gbit cgrib' p k := by
  rw [gbit_field, gbit_field]
  congr 1
  apply field_congr
  intro q _ hq
  rw [bitAt, bitAt, h (q / 8) (Nat.zero_le _) (by omega)]

theorem sevens_agree {a : Nat} (h : AgreeOn 0 n cgrib cgrib') (ha : a + 4 ≤ n) :
    sevens cgrib a = sevens cgrib' a := by
  rw [sevens, sevens, h a (Nat.zero_le _) (by omega), h (a + 1) (Nat.zero_le _) (by omega),
    h (a + 2) (Nat.zero_le _) (by omega), h (a + 3) (Nat.zero_le _) (by omega)]

theorem lensec_agree {a : Nat} (h : AgreeOn 0 n cgrib cgrib') (ha : a + 4 ≤ n) :
    lensec cgrib a = lensec cgrib' a := by
  rw [lensec, lensec, gbit_agree h (by omega)]

theorem isecnum_agree {a : Nat} (h : AgreeOn 0 n cgrib cgrib') (ha : a + 5 ≤ n) :
    isecnum cgrib a = isecnum cgrib' a := by
  rw [isecnum, isecnum, gbit_agree h (by omega)]

theorem istart_agree (h : AgreeOn 0 n cgrib cgrib') (hn : 103 ≤ n) : istart cgrib = istart cgrib' := by
  have hgrib : ∀ js : List Nat, (∀ j ∈ js, j < 100) →
      js.find? (fun j => isGrib cgrib j) = js.find? (fun j => isGrib cgrib' j) := by
    intro js hjs
    induction js with
    | nil => rfl
    | cons j js ih =>
      have hj := hjs j List.mem_cons_self
      have hhere : isGrib cgrib j = isGrib cgrib' j := by
        rw [isGrib, isGrib, h j (Nat.zero_le _) (by omega), h (j + 1) (Nat.zero_le _) (by omega),
          h (j + 2) (Nat.zero_le _) (by omega), h (j + 3) (Nat.zero_le _) (by omega)]
      rw [List.find?_cons, List.find?_cons, hhere,
        ih (fun j' hj' => hjs j' (List.mem_cons_of_mem _ hj'))]
  exact hgrib _ (fun j hj => List.mem_range.1 hj)

theorem unpackMap_agree {p : Nat} {octets : List Nat} (h : AgreeOn 0 n cgrib cgrib')
    (hp : p + octets.sum * 8 ≤ 8 * n) : unpackMap cgrib p octets = unpackMap cgrib' p octets := by
  induction octets generalizing p with
  | nil => rfl
  | cons o rest ih =>
    rw [List.sum_cons] at hp
    rw [unpackMap, unpackMap, gbit_agree h (by omega), ih (by omega)]

theorem infoTurn_agree {last a : Nat} {c : Counts} (h : AgreeOn 0 n cgrib cgrib') (ha : a + 5 ≤ n) :
    infoTurn cgrib last a c = infoTurn cgrib' last a c := by
  rw [infoTurn, infoTurn, sevens_agree h (by omega), lensec_agree h (by omega), isecnum_agree h ha]

/-- A message without sections behind the identification, and whatever follows it. -/
def bare (behind : UInt8) : Cgrib := fun i =>
  ([71, 82, 73, 66, 0, 0, 0, 2, 0, 0, 0, 0, 0, 0, 0, 41,
    0, 0, 0, 21, 1, 0, 7, 0, 0, 2, 1, 1, 7, 234, 5, 6, 12, 0, 0, 0, 1, 55, 55, 55, 55] : List UInt8).getD i
    (if i < 103 then 0 else behind)

example : g2_info 3 (bare 0) 41 =
    some ⟨[0, 2, 41], [7, 0, 2, 1, 1, 2026, 5, 6, 12, 0, 0, 0, 1], ⟨0, 0⟩, 0⟩ := by decide

end Whole
end Noaaport.G2
