import Noaaport.DvbsMulticast
import Mathlib.Order.Interval.Finset.Nat

/-! What the two processes of `dvbs_multicast.c` log of the packet numbers: the parent of the
datagrams it receives, the child of the records it takes. -/
namespace Noaaport.DvbsMulticast
open Lib Shmfifo

/-- Each number behind the one before it. -/
def steps (last : UInt64) : List UInt64 → List (UInt64 × UInt64)
  | [] => []
  | this :: rest => (last, this) :: steps this rest

theorem steps_append (last : UInt64) (as bs : List UInt64) :
    steps last (as ++ bs) = steps last as ++ steps (as.getLastD last) bs := by
  induction as generalizing last with
  | nil => rfl
  | cons a as ih => rw [List.cons_append, steps, ih, steps, List.cons_append, List.getLastD_cons]

section Logs
variable {ds : List (List UInt8)}

theorem receive_notes (p : Parent) (h : ∀ d ∈ ds, 12 ≤ d.length) :
    (ds.foldl Parent.receive p).notes =
      p.notes ++ (steps p.lastnum (ds.map number)).flatMap fun x => parentNote x.1 x.2 := by
  induction ds generalizing p with
  | nil => simp [steps]
  | cons d ds ih =>
    have hd := h d (List.mem_cons_self ..)
    have hrest := ih (p.receive d) fun d' hd' => h d' (List.mem_cons_of_mem _ hd')
    rw [List.foldl_cons, hrest]
    simp [Parent.receive, sbnnum_store _ hd, steps]

theorem taken_notes (dumpflag : Bool) (c : Child) (h : ∀ d ∈ ds, 12 ≤ d.length) :
    (taken dumpflag c ds).notes =
      c.notes ++ (steps c.lastnum (ds.map number)).flatMap fun x => childNote x.1 x.2 := by
  induction ds generalizing c with
  | nil => simp [taken, steps]
  | cons d ds ih =>
    have hd := h d (List.mem_cons_self ..)
    have hrest := ih (c.take dumpflag d) fun d' hd' => h d' (List.mem_cons_of_mem _ hd')
    have htake : (c.take dumpflag d).lastnum = number d ∧
        (c.take dumpflag d).notes = c.notes ++ childNote c.lastnum (number d) := by
      cases dumpflag <;> simp [Child.take, sbnnum_store _ hd]
    rw [taken, List.foldl_cons]
    rw [taken] at hrest
    rw [hrest, htake.1, htake.2]
    simp [steps]

end Logs

section Total

/-- The number in a datagram as it was sent. -/
def wireNumber (data : List UInt8) : Nat := wireSeqno fun i => data.getD i 0

theorem toNat_number (data : List UInt8) : (number data).toNat = extended (wireNumber data) := by
  have hlt := wireSeqno_lt fun i => data.getD i 0
  have hint : be32 (fun i => data.getD i 0) 8 =
      if wireNumber data < 2 ^ 31 then (wireNumber data : Int) else wireNumber data - 2 ^ 32 := rfl
  rw [number, sbnnum, UInt64.ofInt, UInt64.toNat_ofNat', hint]
  unfold extended
  unfold wireNumber
  split_ifs <;> omega

theorem extended_lt {m n : Nat} (h : m < n) : extended m < extended n := by
  unfold extended
  split_ifs <;> omega

/-- What a step from `a` to the later `b` adds to the parent's log. -/
theorem parentNote_missing {a b : UInt64} (ha : a ≠ 0) (hab : a < b) :
    ((parentNote a b).map Note.missing).sum = b.toNat - a.toNat - 1 ∧
      ∀ n ∈ parentNote a b, ∃ gap, n = .gap a b gap := by
  have hlt : a.toNat < b.toNat := UInt64.lt_iff_toNat_lt.1 hab
  have hb := b.toNat_lt
  have hgap : (b - a - 1).toNat = b.toNat - a.toNat - 1 := by
    have hsub : (b - a).toNat = b.toNat - a.toNat :=
      UInt64.toNat_sub_of_le _ _ (UInt64.le_of_lt hab)
    rw [UInt64.toNat_sub_of_le, hsub]
    · rfl
    · rw [UInt64.le_iff_toNat_le, hsub]
      change 1 ≤ _
      omega
  rw [parentNote, if_neg (by rw [UInt64.le_iff_toNat_le]; omega)]
  by_cases hpos : 0 < b - a - 1
  · simp [ha, hpos, Note.missing, hgap]
  · have hzero : (b - a - 1).toNat = 0 := by
      rw [UInt64.lt_iff_toNat_lt] at hpos
      exact Nat.eq_zero_of_not_pos hpos
    simp [ha, hpos]
    omega

theorem steps_missing {m : Nat} (hm : 0 < m) {ds : List (List UInt8)} {last : UInt64}
    (hlast : last.toNat = extended m) (hinc : (m :: ds.map wireNumber).Pairwise (· < ·)) :
    let notes := (steps last (ds.map number)).flatMap fun x => parentNote x.1 x.2
    (notes.map Note.missing).sum + ds.length + extended m =
      extended ((ds.map wireNumber).getLastD m) ∧ ∀ n ∈ notes, ∃ a b gap, n = .gap a b gap := by
  induction ds generalizing m last with
  | nil => simp [steps]
  | cons d ds ih =>
    have hfirst : m < wireNumber d := (List.pairwise_cons.1 hinc).1 _ (by simp)
    have hext := extended_lt hfirst
    have hpos : 0 < extended m := by
      unfold extended
      split_ifs <;> omega
    obtain ⟨hsum, hgaps⟩ := ih (by omega) (toNat_number d) (List.pairwise_cons.1 hinc).2
    have hne : last ≠ 0 := by
      intro h0
      rw [h0] at hlast
      exact absurd hlast (by simpa using Nat.ne_of_lt hpos)
    have hlt : last < number d := by
      rw [UInt64.lt_iff_toNat_lt, hlast, toNat_number]
      exact hext
    obtain ⟨hone, hgap⟩ := parentNote_missing hne hlt
    rw [hlast, toNat_number] at hone
    simp only [List.map_cons, steps, List.flatMap_cons, List.map_append, List.sum_append,
      List.length_cons, List.getLastD_cons] at hsum ⊢
    refine ⟨by omega, ?_⟩
    intro n hn
    rcases List.mem_append.1 hn with hthis | hrest
    · obtain ⟨gap, rfl⟩ := hgap n hthis
      exact ⟨_, _, gap, rfl⟩
    · exact hgaps n hrest

/-- The numbers from the first to the last that no datagram has. -/
def missingNumbers (ws : List Nat) : Finset Nat :=
  Finset.Icc (ws.headD 0) (ws.getLastD 0) \ ws.toFinset

theorem le_getLastD {w : Nat} {ws : List Nat} (hinc : (w :: ws).Pairwise (· < ·)) :
    ∀ x ∈ w :: ws, x ≤ ws.getLastD w := by
  induction ws generalizing w with
  | nil => simp
  | cons v vs ih =>
    have hw : w < v := (List.pairwise_cons.1 hinc).1 v (List.mem_cons_self ..)
    have hrest := ih (List.pairwise_cons.1 hinc).2
    rw [List.getLastD_cons]
    intro x hx
    rcases List.mem_cons.1 hx with rfl | hx
    · have hv := hrest v (List.mem_cons_self ..)
      omega
    · exact hrest x hx

theorem card_missingNumbers {w : Nat} {ws : List Nat} (hinc : (w :: ws).Pairwise (· < ·)) :
    (missingNumbers (w :: ws)).card + ws.length + w = ws.getLastD w := by
  have hlast := le_getLastD hinc
  have hsub : (w :: ws).toFinset ⊆ Finset.Icc w (ws.getLastD w) := by
    intro x hx
    rw [List.mem_toFinset] at hx
    rw [Finset.mem_Icc]
    refine ⟨?_, hlast x hx⟩
    rcases List.mem_cons.1 hx with rfl | hx
    · exact Nat.le_refl _
    · exact Nat.le_of_lt ((List.pairwise_cons.1 hinc).1 x hx)
  have hcard : (w :: ws).toFinset.card = ws.length + 1 := by
    rw [List.toFinset_card_of_nodup (hinc.imp Nat.ne_of_lt), List.length_cons]
  have hw := hlast w (List.mem_cons_self ..)
  have hle := Finset.card_le_card hsub
  rw [Nat.card_Icc, hcard] at hle
  rw [missingNumbers, List.headD_cons, List.getLastD_cons, Finset.card_sdiff_of_subset hsub, Nat.card_Icc,
    hcard]
  omega

/-- What the parent reports as missing, over any run of datagrams with growing numbers: the numbers
that never came, and once `2 ^ 64 - 2 ^ 32` more where the numbers pass `2 ^ 31`. -/
theorem parent_gaps {d : List UInt8} {ds : List (List UInt8)} (msg : Buffer)
    (hlong : ∀ x ∈ d :: ds, 12 ≤ x.length) (hpos : 0 < wireNumber d)
    (hinc : ((d :: ds).map wireNumber).Pairwise (· < ·)) :
    let p := (d :: ds).foldl Parent.receive ⟨msg, 0, []⟩
    (∀ n ∈ p.notes, ∃ a b gap, n = .gap a b gap) ∧
    (p.notes.map Note.missing).sum =
      (missingNumbers ((d :: ds).map wireNumber)).card +
        if wireNumber d < 2 ^ 31 ∧ 2 ^ 31 ≤ (ds.map wireNumber).getLastD (wireNumber d) then
          2 ^ 64 - 2 ^ 32
        else 0 := by
  intro p
  have hnum : (number d).toNat = extended (wireNumber d) := toNat_number d
  have hext : 0 < extended (wireNumber d) := by
    unfold extended
    split_ifs <;> omega
  have hfirst : parentNote 0 (number d) = [] := by
    have hlt : ¬ number d ≤ 0 := by
      rw [UInt64.le_iff_toNat_le, hnum]
      exact Nat.not_le.2 hext
    rw [parentNote, if_neg hlt]
    simp
  have hnotes : p.notes =
      (steps (number d) (ds.map number)).flatMap fun x => parentNote x.1 x.2 := by
    rw [show p.notes = _ from receive_notes ⟨msg, 0, []⟩ hlong]
    simp [steps, hfirst]
  obtain ⟨hsum, hgaps⟩ := steps_missing hpos hnum hinc
  have hcard := @card_missingNumbers (wireNumber d) (ds.map wireNumber) hinc
  have hlast := @le_getLastD (wireNumber d) (ds.map wireNumber) hinc _
    (List.mem_cons_self ..)
  rw [List.length_map] at hcard
  rw [← hnotes] at hsum hgaps
  refine ⟨hgaps, ?_⟩
  rw [List.map_cons]
  unfold extended at hsum
  split_ifs at hsum ⊢ <;> omega

/-- Twelve bytes with a number below 256. -/
def numbered (n : UInt8) : List UInt8 := List.replicate 11 0 ++ [n]

theorem parent_gaps_run :
    ((([numbered 5, numbered 8].foldl Parent.receive ⟨fun _ => 0, 0, []⟩).notes).map
      Note.missing).sum = (missingNumbers [5, 8]).card + 0 ∧ (missingNumbers [5, 8]).card = 2 :=
  ⟨(@parent_gaps (numbered 5) [numbered 8] (fun _ => 0) (by decide) (by decide) (by decide)).2,
    by decide⟩

end Total

section Agreement

/-- A number that does not follow the one before it, where there is one before it. -/
def outOfOrder (x : UInt64 × UInt64) : Bool := x.1 ≠ 0 ∧ x.2 ≠ x.1 + 1

theorem parentNote_numbers {a b : UInt64} {n : Note} (h : n ∈ parentNote a b) :
    n.numbers = (a, b) := by
  simp only [parentNote] at h
  split_ifs at h
  · rw [List.mem_singleton.1 h]
    rfl
  · rw [List.mem_singleton.1 h]
    rfl
  · cases h

theorem parentNote_ne_nil {a b : UInt64} (h : outOfOrder (a, b) = true) :
    ∃ n, parentNote a b = [n] := by
  simp only [outOfOrder, decide_eq_true_eq] at h
  simp only [parentNote]
  split_ifs with hle hgap
  · exact ⟨_, rfl⟩
  · exact ⟨_, rfl⟩
  · have hzero : b - a - 1 = 0 := by
      have hnot : ¬ 0 < b - a - 1 := fun hpos => hgap ⟨h.1, hpos⟩
      rw [UInt64.lt_iff_toNat_lt] at hnot
      exact UInt64.toNat_inj.1 (Nat.eq_zero_of_not_pos hnot)
    rw [sub_sub, sub_eq_zero] at hzero
    exact absurd hzero h.2

theorem childNote_numbers (a b : UInt64) :
    (childNote a b).map Note.numbers = ((parentNote a b).map Note.numbers).filter outOfOrder := by
  by_cases h : outOfOrder (a, b) = true
  · obtain ⟨n, hn⟩ := parentNote_ne_nil h
    have hnum : n.numbers = (a, b) := parentNote_numbers (by rw [hn]; exact List.mem_singleton_self n)
    have hchild : childNote a b = [.gap a b (b - a)] := by
      simp only [outOfOrder, decide_eq_true_eq] at h
      exact if_pos ⟨h.1, fun heq => h.2 heq.symm⟩
    have hgap : (Note.gap a b (b - a)).numbers = (a, b) := rfl
    simp [hn, hnum, hchild, h, hgap]
  · have hchild : childNote a b = [] := by
      simp only [outOfOrder, decide_eq_true_eq] at h
      exact if_neg fun hc => h ⟨hc.1, fun heq => hc.2 heq.symm⟩
    rw [hchild, List.map_nil, eq_comm, List.filter_eq_nil_iff]
    intro x hx
    obtain ⟨n, hn, rfl⟩ := List.mem_map.1 hx
    rw [parentNote_numbers hn]
    exact h

theorem steps_numbers (xs : List (UInt64 × UInt64)) :
    (xs.flatMap fun x => childNote x.1 x.2).map Note.numbers =
      ((xs.flatMap fun x => parentNote x.1 x.2).map Note.numbers).filter outOfOrder := by
  induction xs with
  | nil => rfl
  | cons x xs ih => simp [childNote_numbers, ih]

variable {dumpflag : Bool} {s : Sys}

/-- In every reachable state the child has reported the same pairs of numbers as the parent, as far
as it has got, but for a first number 0 and the return from `2 ^ 64 - 1` to 0, of which the child
says nothing. -/
theorem gap_reports_agree {b : Option Int} {pagesize : Int} (hpage : 32 ≤ pagesize)
    (hint : bufpag b * pagesize < 2 ^ 31) (mem : Mem UInt8) (counter : Int) (msg msg' : Buffer)
    {acts : List Act}
    (h : Trace (Step (segmentOf (bufpag b) pagesize) dumpflag)
      (Sys.init (segmentOf (bufpag b) pagesize) mem counter msg msg') acts s)
    (hlong : ∀ d ∈ received acts, 12 ≤ d.length) :
    s.child.notes.map Note.numbers <+: (s.parent.notes.map Note.numbers).filter outOfOrder ∧
    (s.held = [] ∧ shmfifoLlMemused (segmentOf (bufpag b) pagesize) s.fifo.seg = 0 →
      s.child.notes.map Note.numbers = (s.parent.notes.map Note.numbers).filter outOfOrder) := by
  obtain ⟨c, -, -, delivered, queued, hs⟩ := reachable_relays hpage hint mem counter msg msg' h
  have hrs := hs.kept
  have hdel : ∀ d ∈ delivered, 12 ≤ d.length := by
    intro d hd
    apply hlong
    rw [hrs]
    simp [hd]
  have hchild := taken_notes dumpflag ⟨msg', 0, [], [], []⟩ hdel
  have hparent := receive_notes ⟨msg, 0, []⟩ hlong
  rw [← hs.child] at hchild
  rw [← hs.parent] at hparent
  rw [hchild, hparent, List.nil_append, List.nil_append, steps_numbers]
  refine ⟨?_, ?_⟩
  · rw [hrs, List.append_assoc, List.map_append, steps_append, List.flatMap_append,
      List.map_append, List.filter_append]
    exact List.prefix_append _ _
  · intro hdone
    have hused := hs.fifo.queued.used
    rw [hdone.2] at hused
    have hempty : queued = [] := by
      cases queued with
      | nil => rfl
      | cons d q =>
        rw [List.flatMap_cons, List.length_append, length_record] at hused
        omega
    rw [hrs, hdone.1, hempty, List.append_nil, List.append_nil]

theorem gap_reports_agree_run : ∃ s : Sys, s.parent.notes.map Note.numbers = [(5, 8)] ∧
    s.child.notes.map Note.numbers <+: (s.parent.notes.map Note.numbers).filter outOfOrder := by
  have h : Trace (Step (segmentOf (bufpag none) 4096) false)
      (Sys.init (segmentOf (bufpag none) 4096) (fun _ => 0) 0 (fun _ => 0) fun _ => 0)
      [.recv (numbered 5), .put, .recv (numbered 8)] _ :=
    .cons rfl <| .cons rfl <| .cons rfl <| .nil _
  exact ⟨_, by decide,
    (gap_reports_agree (b := none) (by decide : (32 : Int) ≤ 4096) (by decide) _ _ _ _ h
      (by decide)).1⟩

end Agreement
end Noaaport.DvbsMulticast
