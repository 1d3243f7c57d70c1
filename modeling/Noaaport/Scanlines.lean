import Noaaport.FragmentPool

/-! The loop over the scan lines of an image's block: that it ends, and which rows of the block
it hands to `pngwrite`. -/
namespace Noaaport
open Lib

/-- `for (nscan = 0; (nscan * pdb->nx) < pdh->dbsize; nscan++)`, with the rows that are written;
`none` where the fuel ends before the loop does. -/
def scanLoop (nx dbsize recordsPerBlock : Nat) : Nat → Nat → Option (List Nat)
  | fuel, nscan =>
    if nscan * nx < dbsize then
      match fuel with
      | 0 => none
      | fuel + 1 => do
        let rows ← scanLoop nx dbsize recordsPerBlock fuel (nscan + 1)
        some (if nscan ≥ recordsPerBlock then rows else nscan :: rows)
    else some []

/-- The loop ends, and its rows are inside the block and not too many. -/
def ScanSafe (nx dbsize recordsPerBlock : Nat) : Prop :=
  ∃ fuel rows, scanLoop nx dbsize recordsPerBlock fuel 0 = some rows ∧
    (∀ nscan ∈ rows, nscan * nx + nx ≤ dbsize) ∧ rows.length ≤ recordsPerBlock

/-- The block is empty, or made of whole rows as far as they are written. -/
def WholeRows (nx dbsize recordsPerBlock : Nat) : Prop :=
  dbsize = 0 ∨ 0 < nx ∧ (nx ∣ dbsize ∨ recordsPerBlock * nx ≤ dbsize)

instance (nx dbsize recordsPerBlock : Nat) : Decidable (WholeRows nx dbsize recordsPerBlock) :=
  inferInstanceAs (Decidable (_ ∨ _))

section Loop
variable {nx dbsize recordsPerBlock fuel nscan : Nat} {rows : List Nat}

theorem scanLoop_done (h : ¬ nscan * nx < dbsize) (fuel : Nat) :
    scanLoop nx dbsize recordsPerBlock fuel nscan = some [] := by
  unfold scanLoop
  exact if_neg h

theorem scanLoop_zero (h : nscan * nx < dbsize) :
    scanLoop nx dbsize recordsPerBlock 0 nscan = none := by
  unfold scanLoop
  exact if_pos h

theorem scanLoop_succ (h : nscan * nx < dbsize) (fuel : Nat) :
    scanLoop nx dbsize recordsPerBlock (fuel + 1) nscan =
      (scanLoop nx dbsize recordsPerBlock fuel (nscan + 1)).map fun rows =>
        if nscan ≥ recordsPerBlock then rows else nscan :: rows := by
  rw [scanLoop, if_pos h]
  cases scanLoop nx dbsize recordsPerBlock fuel (nscan + 1) <;> rfl

/-- The loop is at row `nscan` and has fuel to the end of the block. -/
theorem scanLoop_eq (h : dbsize ≤ (nscan + fuel) * nx) :
    scanLoop nx dbsize recordsPerBlock fuel nscan =
      some ((List.range' nscan fuel).filter fun nscan =>
        nscan * nx < dbsize ∧ nscan < recordsPerBlock) := by
  induction fuel generalizing nscan with
  | zero => exact scanLoop_done (Nat.not_lt.2 h) 0
  | succ fuel ih =>
    by_cases hin : nscan * nx < dbsize
    · rw [scanLoop_succ hin, ih (by rwa [Nat.add_assoc, Nat.add_comm 1]), List.range'_succ,
        List.filter_cons, Option.map_some]
      by_cases hfew : nscan < recordsPerBlock
      · rw [if_neg (Nat.not_le.2 hfew), if_pos (decide_eq_true ⟨hin, hfew⟩)]
      · rw [if_pos (Nat.not_lt.1 hfew), if_neg (by simp [hfew])]
    · rw [scanLoop_done hin]
      refine congrArg some (List.filter_eq_nil_iff.2 fun n hn => ?_).symm
      have hle := (List.mem_range'_1.1 hn).1
      have hmono := Nat.mul_le_mul_right nx hle
      rw [decide_eq_true_iff]
      omega

theorem scanLoop_hangs (h : 0 < dbsize) (fuel nscan : Nat) :
    scanLoop 0 dbsize recordsPerBlock fuel nscan = none := by
  have hin : ∀ n, n * 0 < dbsize := fun _ => h
  induction fuel generalizing nscan with
  | zero => exact scanLoop_zero (hin nscan)
  | succ fuel ih =>
    rw [scanLoop_succ (hin nscan), ih]
    rfl

/-- Each row is one of the first `recordsPerBlock`. -/
theorem length_scanLoop (h : scanLoop nx dbsize recordsPerBlock fuel nscan = some rows) :
    rows.length ≤ recordsPerBlock - nscan := by
  induction fuel generalizing nscan rows with
  | zero =>
    by_cases hin : nscan * nx < dbsize
    · rw [scanLoop_zero hin] at h
      cases h
    · rw [scanLoop_done hin] at h
      cases h
      exact Nat.zero_le _
  | succ fuel ih =>
    by_cases hin : nscan * nx < dbsize
    · rw [scanLoop_succ hin] at h
      obtain ⟨rest, hrest, rfl⟩ := Option.map_eq_some_iff.1 h
      have hle := ih hrest
      split_ifs
      · omega
      · rw [List.length_cons]
        omega
    · rw [scanLoop_done hin] at h
      cases h
      exact Nat.zero_le _

theorem scanLoop_scanlines (hnx : 0 < nx) :
    scanLoop nx dbsize recordsPerBlock dbsize 0 = some (scanlines nx dbsize recordsPerBlock) := by
  rw [scanLoop_eq (by rw [Nat.zero_add]; exact Nat.le_mul_of_pos_right _ hnx), scanlines,
    List.range_eq_range']

/-- More fuel makes no difference to a loop that ends. -/
theorem scanLoop_fuel {rows' : List Nat} {fuel' : Nat}
    (h : scanLoop nx dbsize recordsPerBlock fuel nscan = some rows)
    (h' : scanLoop nx dbsize recordsPerBlock fuel' nscan = some rows') : rows = rows' := by
  induction fuel generalizing nscan rows rows' fuel' with
  | zero =>
    by_cases hin : nscan * nx < dbsize
    · rw [scanLoop_zero hin] at h
      cases h
    · rw [scanLoop_done hin] at h h'
      exact Option.some.inj (h.symm.trans h')
  | succ fuel ih =>
    by_cases hin : nscan * nx < dbsize
    · cases fuel' with
      | zero =>
        rw [scanLoop_zero hin] at h'
        cases h'
      | succ fuel' =>
        rw [scanLoop_succ hin] at h h'
        obtain ⟨rest, hrest, rfl⟩ := Option.map_eq_some_iff.1 h
        obtain ⟨rest', hrest', rfl⟩ := Option.map_eq_some_iff.1 h'
        rw [ih hrest hrest']
    · rw [scanLoop_done hin] at h h'
      exact Option.some.inj (h.symm.trans h')

/-- The last row is cut off where the width does not divide the block. -/
theorem rows_inside_iff (hnx : 0 < nx) :
    (∀ nscan ∈ scanlines nx dbsize recordsPerBlock, nscan * nx + nx ≤ dbsize) ↔
      nx ∣ dbsize ∨ recordsPerBlock * nx ≤ dbsize := by
  have hmem : ∀ n, n ∈ scanlines nx dbsize recordsPerBlock ↔
      n * nx < dbsize ∧ n < recordsPerBlock := by
    intro n
    have hle := Nat.le_mul_of_pos_right n hnx
    rw [scanlines, List.mem_filter, List.mem_range, decide_eq_true_iff]
    omega
  have hdiv := Nat.div_add_mod dbsize nx
  have hmod := Nat.mod_lt dbsize hnx
  rw [Nat.mul_comm] at hdiv
  constructor
  · intro h
    by_cases hdvd : nx ∣ dbsize
    · exact .inl hdvd
    · have hrest := Nat.pos_of_ne_zero fun h0 => hdvd (Nat.dvd_of_mod_eq_zero h0)
      refine .inr (Nat.not_lt.1 fun hlt => ?_)
      have hcut : dbsize / nx ∈ scanlines nx dbsize recordsPerBlock :=
        (hmem _).2 ⟨by omega, (Nat.div_lt_iff_lt_mul hnx).2 hlt⟩
      have := h _ hcut
      omega
  · rintro h n hn
    obtain ⟨hin, hfew⟩ := (hmem n).1 hn
    rw [← Nat.succ_mul]
    obtain ⟨k, rfl⟩ | hall := h
    · rw [Nat.mul_comm nx] at hin ⊢
      exact Nat.mul_le_mul_right nx (Nat.lt_of_mul_lt_mul_right hin)
    · exact Nat.le_trans (Nat.mul_le_mul_right nx hfew) hall

theorem scanSafe_iff : ScanSafe nx dbsize recordsPerBlock ↔ WholeRows nx dbsize recordsPerBlock := by
  unfold WholeRows
  by_cases h0 : dbsize = 0
  · subst h0
    refine iff_of_true ⟨0, [], ?_, fun _ h => absurd h List.not_mem_nil, Nat.zero_le _⟩ (.inl rfl)
    exact scanLoop_done (Nat.not_lt_zero _) 0
  · by_cases hnx : 0 < nx
    · rw [← rows_inside_iff hnx]
      constructor
      · rintro ⟨fuel, rows, hrows, hin, -⟩
        cases scanLoop_fuel hrows (scanLoop_scanlines hnx)
        exact .inr ⟨hnx, hin⟩
      · rintro (h | ⟨-, hin⟩)
        · exact absurd h h0
        · have hrows : scanLoop nx dbsize recordsPerBlock dbsize 0 =
              some (scanlines nx dbsize recordsPerBlock) := scanLoop_scanlines hnx
          exact ⟨dbsize, _, hrows, hin, length_scanLoop hrows⟩
    · cases Nat.eq_zero_of_not_pos hnx
      refine iff_of_false ?_ (by omega)
      rintro ⟨fuel, rows, hrows, -⟩
      rw [scanLoop_hangs (Nat.pos_of_ne_zero h0)] at hrows
      cases hrows

end Loop

section Runs
variable {p : Program} {lib : Library} {s t : State}

/-- `goesNext` writes the rows of the loop, and hangs where the loop has no end. -/
theorem goesNext_scanLoop (h : s.v.prodCompressed = false) : goesNext lib s =
    match scanLoop s.asm.pdb.nx s.inp.pdh.dbsize s.inp.pdh.recordsPerBlock s.inp.pdh.dbsize 0 with
    | none => .exit .hang s
    | some rows =>
      match writeScanlines lib s.inp.buf s.v.dataoff s.asm.pdb.nx rows s.asm.out with
      | none => .exit .fault s
      | some out => .go (s.setOut out) := by
  have hplain : ¬ s.v.prodCompressed = true := by
    rw [h]
    decide
  rw [goesNext, if_neg hplain]
  by_cases hnx : 0 < s.asm.pdb.nx
  · have hrows : scanLoop s.asm.pdb.nx s.inp.pdh.dbsize s.inp.pdh.recordsPerBlock
        s.inp.pdh.dbsize 0 = some _ := scanLoop_scanlines hnx
    rw [if_neg (by omega)]
    generalize scanLoop _ _ _ _ 0 = rows at hrows ⊢
    subst hrows
    rfl
  · have hzero := Nat.eq_zero_of_not_pos hnx
    rw [hzero]
    by_cases hsize : 0 < s.inp.pdh.dbsize
    · rw [if_pos ⟨rfl, hsize⟩, scanLoop_hangs hsize]
    · rw [if_neg (by omega), scanLoop_done (by omega), Nat.eq_zero_of_not_pos hsize]
      rfl

/-- A continuation of an image that is not compressed comes to the loop. -/
def State.scans (lib : Library) (t : State) : Prop :=
  t.v.goes = true ∧ t.v.prodCompressed = false ∧ t.inp.pdh.dbno > 0 ∧
    (t.getData lib).takesNext (t.newFrag lib) = true

def ScansInside (p : Program) (lib : Library) (s : State) : Prop :=
  (front p lib s).Ends
    (fun t => t.scans lib → ScanSafe t.asm.pdb.nx t.inp.pdh.dbsize t.inp.pdh.recordsPerBlock)
    fun _ _ => True

/-- The rows have the width that is in the PDB before the packet. -/
def ScansWholeRows (p : Program) (lib : Library) (s : State) : Prop :=
  (front p lib s).Ends
    (fun t => t.scans lib → WholeRows s.asm.pdb.nx t.inp.pdh.dbsize t.inp.pdh.recordsPerBlock)
    fun _ _ => True

/-- Such a packet has no PSH, and leaves the PDB as it is. -/
theorem FrontGo.scans_pdb (h : FrontGo p lib s t) (hscans : t.scans lib) :
    t.asm.pdb = s.asm.pdb := by
  obtain ⟨-, -, -, htakes⟩ := hscans
  have hlist : t.asm.prod.frags ≠ [] := by
    intro hnil
    have hnone : (t.getData lib).asm.prod.frags.getLast? = none := by
      change t.asm.prod.frags.getLast? = none
      rw [hnil]
      rfl
    rw [State.takesNext, hnone] at htakes
    cases htakes
  have hpsh := h.linked.2 hlist
  cases h with
  | header i u hs hu hd hp h =>
    obtain ⟨a, -, hst⟩ := h.started
    exact absurd hpsh (by rw [h.block.pdh]; exact hp)
  | continuation i u hs hu hd hp h =>
    have hcont : u.continued.asm.pdb = u.asm.pdb := rfl
    rw [h.asm, hcont, hd.asm]
    rfl

theorem scansInside_iff : ScansInside p lib s ↔ ScansWholeRows p lib s := by
  have hfront := front_ends p lib s
  unfold ScansInside ScansWholeRows
  cases ht : front p lib s with
  | exit e t => exact Iff.rfl
  | go t =>
    rw [Flow.ends_go, Flow.ends_go]
    refine forall_congr' fun hscans => ?_
    rw [scanSafe_iff, (hfront.go ht).scans_pdb hscans]

/-- In all executions every scan-line loop ends with its rows inside the block, exactly when in
each the blocks that come to it are made of whole rows of the PDB's width. -/
theorem scans_inside_iff (p : Program) (lib : Library) (s₀ : State) :
    (∀ es s, Trace (Step p lib) s₀ es s → ScansInside p lib s) ↔
      ∀ es s, Trace (Step p lib) s₀ es s → ScansWholeRows p lib s :=
  forall_congr' fun _ => forall_congr' fun _ => forall_congr' fun _ => scansInside_iff

end Runs

/-- An image three pixels wide in two blocks, and a second block of four bytes for two rows. -/
def widePackets : List UInt8 :=
  [255, 0, 20, 0, 3, 1, 0, 0, 0, 0, 0, 1, 0, 1, 1, 25] ++
    [20, 0, 0, 52, 0, 0, 0, 0, 0, 21, 1, 1, 0, 0, 0, 7] ++
    [0, 0, 0, 36] ++ List.replicate 10 0 ++ [0, 2] ++ List.replicate 20 0 ++
    [10] ++ List.replicate 16 0 ++ [0, 3, 0, 1] ++
    [255, 0, 20, 0, 3, 1, 0, 0, 0, 0, 0, 1, 0, 1, 1, 25] ++
    [20, 2, 0, 16, 0, 1, 0, 0, 0, 4, 2, 1, 0, 0, 0, 7] ++ [65, 66, 67, 68]

/-- One row is inside the block, the other is not. -/
def CutRow (t : State) : Prop :=
  t.v.goes = true ∧ t.v.prodCompressed = false ∧ t.inp.pdh.dbno > 0 ∧
    (t.getData .plain).takesNext (t.newFrag .plain) = true ∧
    t.asm.pdb.nx = 3 ∧ t.inp.pdh.dbsize = 4 ∧ t.inp.pdh.recordsPerBlock = 2

instance (t : State) : Decidable (CutRow t) := inferInstanceAs (Decidable (_ ∧ _))

theorem widePackets_front :
    (front readnoaaport .plain (iterate readnoaaport .plain 1 (State.fresh widePackets .blank))).Ends
      CutRow fun _ _ => False := by
  decide +kernel

theorem row_overruns : ¬ ∀ es s,
    Trace (Step readnoaaport .plain) (State.fresh widePackets .blank) es s →
      ScansInside readnoaaport .plain s := by
  obtain ⟨es, htrace⟩ := iterate_trace readnoaaport .plain 1 (State.fresh widePackets .blank)
  obtain ⟨t, ht, hg, hc, hpos, htakes, hnx, hsize, hrec⟩ | ⟨e, t, -, hno⟩ := widePackets_front.cases
  · generalize iterate readnoaaport .plain 1 (State.fresh widePackets .blank) = s at ht htrace
    intro h
    have hrows := (h es s htrace).go ht ⟨hg, hc, hpos, htakes⟩
    rw [hnx, hsize, hrec, scanSafe_iff] at hrows
    exact absurd hrows (by decide)
  · exact hno.elim

/-- Blocks of an image that go on a text, before any PDB has been read; no row of them is to
be written. -/
def headlessPackets : List UInt8 :=
  headPacket.bytes ++ ([0, 1].map fun dbno =>
    [255, 0, 20, 0, 3, 1, 0, 0, 0, 0, 0, 1, 0, 1, 1, 25] ++
      [20, 2, 0, 16, 0, dbno, 0, 0, 0, 1, 0, 1, 0, 0, 0, 7] ++ [65]).flatten

example : (iteration readnoaaport .plain
    (iterate readnoaaport .plain 2 (State.fresh headlessPackets .blank))).Ends
      (fun _ => False) (fun e t => e = .hang ∧ t.asm.pdb.nx = 0 ∧ t.inp.pdh.recordsPerBlock = 0) := by
  decide +kernel

end Noaaport
