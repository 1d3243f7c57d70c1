import Noaaport.FosText
import Noaaport.HeapWrites

/-! The bounds of `memheap`: what `prodalloc` has returned for a product, and when every byte of
the product is written below it. -/
namespace Noaaport
open Lib

/-- What `prodalloc` returns. -/
def prodsize (nfrags dbsize : Nat) : Nat := (if nfrags = 0 then 1 else nfrags) * dbsize + 32

/-- What `prodalloc` returned last, at "Get the data": a header record has just called it. -/
def State.allotted (t : State) (n : Nat) : Nat := if t.inp.pdh.pshlen ≠ 0 then t.v.heapsize else n

/-- The same after an iteration. -/
def allotted (p : Program) (lib : Library) (n : Nat) (s : State) : Nat :=
  match front p lib s with
  | .go t => t.allotted n
  | .exit _ _ => n

/-- The loop with the number that `prodalloc` returned last. -/
def AllotStep (p : Program) (lib : Library) : State × Nat → Event → State × Nat → Prop :=
  WithGhost (Step p lib) (allotted p lib)

section Allotment
variable {p : Program} {lib : Library} {s t : State} {n : Nat}

theorem openProduct_heapsize (hk : s.OneKind) : (openProduct lib s).Ends
    (fun t => t.v.heapsize = prodsize t.asm.psh.frags (if t.v.goes then 5152 else 4015) ∧
      t.inp.pdh = s.inp.pdh)
    fun _ t => t.v.heapsize = s.v.heapsize := by
  cases hg : s.v.goes with
  | true =>
    have hn : s.v.nwstg = false := by rwa [State.OneKind, hg] at hk
    unfold openProduct
    rw [if_pos hg]
    refine Flow.Ends.bind (P := fun t => t.v.nwstg = false ∧ t.v.goes = true ∧
      t.v.heapsize = prodsize t.asm.psh.frags 5152 ∧ t.inp.pdh = s.inp.pdh) ?_ fun t ht => ?_
    · exact Flow.ends_ite (fun _ => rfl) fun _ => ⟨hn, hg, prodalloc_fst .., rfl⟩
    · obtain ⟨h1, h2, h3, h4⟩ := ht
      simp only [h1, h2, Bool.false_eq_true, ↓reduceIte, Flow.ends_go]
      exact ⟨h3, h4⟩
  | false =>
    have hn : s.markImage.v.nwstg = true := by rwa [State.OneKind, hg] at hk
    unfold openProduct
    simp only [hg, hn, Bool.false_eq_true, ↓reduceIte, Flow.bind_go, Flow.ends_go]
    have hg' : (nwstgHeader lib s.markImage).v.goes = false := hg
    rw [hg']
    exact ⟨prodalloc_fst .., rfl⟩

theorem startProduct_heapsize (hk : s.OneKind) : (startProduct p lib s).Ends
    (fun t => t.v.heapsize = prodsize t.asm.psh.frags (if t.v.goes then 5152 else 4015) ∧
      t.inp.pdh = s.inp.pdh)
    fun _ t => t.v.heapsize = s.v.heapsize := by
  unfold startProduct
  split
  · rfl
  next a ha =>
  refine Flow.Ends.bind (P := fun t => t.v = s.v ∧ t.inp.pdh = s.inp.pdh)
    ((State.read_ends ..).mono ?_ ?_) fun t ht => ?_
  · rintro t ⟨rfl, -, -⟩
    exact ⟨rfl, rfl⟩
  · rintro e t ⟨rfl, -⟩
    rfl
  · have hkt : t.rerouteChannel4.resetHeap.OneKind :=
      State.OneKind.reroute (s := t) (by rwa [State.OneKind, ht.1])
    have hsize : t.rerouteChannel4.resetHeap.v.heapsize = s.v.heapsize := by
      rw [← ht.1]
      unfold State.rerouteChannel4
      split_ifs <;> rfl
    refine (openProduct_heapsize hkt).mono (fun u hu => ⟨hu.1, ?_⟩) fun e u hu => hu.trans hsize
    rw [hu.2, resetHeap_inp, ht.2]

/-- Only a header record that comes to "Get the data" sets `heapsize`, from `prodalloc`. -/
theorem front_heapsize (p : Program) (lib : Library) (s : State) : (front p lib s).Ends
    (fun t => if t.inp.pdh.pshlen ≠ 0 then
        t.v.heapsize = prodsize t.asm.psh.frags (if t.v.goes then 5152 else 4015)
      else t.v.heapsize = s.v.heapsize)
    fun _ t => t.v.heapsize = s.v.heapsize := by
  rw [front_eq]
  have hpacket := packet_ends p s
  cases ht : packet p s with
  | exit e t => exact (hpacket.exit ht).heapsize
  | go t =>
    obtain ⟨hut, hk⟩ := hpacket.go ht
    rw [Flow.bind_go]
    by_cases hpsh : t.inp.pdh.pshlen = 0
    · rw [if_neg (not_not.2 hpsh)]
      have hreroute : t.rerouteChannel4.v.heapsize = t.v.heapsize := by
        unfold State.rerouteChannel4
        split_ifs <;> rfl
      refine (continuationRecord_ends hpsh).mono (fun u hu => ?_) fun e u hu => ?_
      · rw [hu.block.pdh, if_neg (not_not.2 hpsh), hu.vars, hreroute, hut.heapsize]
      · rw [hu.vars, hreroute, hut.heapsize]
    · rw [if_pos hpsh]
      have haccept := acceptPsh_ends p t
      cases hu : acceptPsh p t with
      | exit e u =>
        rw [Flow.bind_exit, Flow.ends_exit, (haccept.exit hu).vars]
        exact hut.heapsize
      | go u =>
        obtain ⟨-, hv, hpdh⟩ := haccept.go hu
        rw [Flow.bind_go]
        refine (startProduct_heapsize (by rwa [State.OneKind, hv])).mono (fun w hw => ?_)
          fun e w hw => ?_
        · rw [hw.2, hpdh, if_pos hpsh]
          exact hw.1
        · rw [hw, hv]
          exact hut.heapsize

/-- Either way out, `heapsize` is as it was. -/
def KeepsHeapsize (s : State) (x : Flow) : Prop :=
  x.Ends (fun t => t.v.heapsize = s.v.heapsize) fun _ t => t.v.heapsize = s.v.heapsize

theorem goesFirst_heapsize : KeepsHeapsize s (goesFirst lib s) := by
  refine Flow.ends_ite (fun _ => rfl) fun _ => ?_
  split
  · rfl
  · rfl

theorem goesNext_heapsize : KeepsHeapsize s (goesNext lib s) := by
  refine Flow.ends_ite (fun _ => rfl) fun _ => Flow.ends_ite (fun _ => rfl) fun _ => ?_
  split
  · rfl
  · rfl

theorem goesData_heapsize {pfrag : Datastore} : KeepsHeapsize s (goesData lib pfrag s) := by
  refine Flow.Ends.bind (P := fun t => t.v.heapsize = s.v.heapsize) ?_ fun t ht => ?_
  · refine Flow.ends_ite (fun _ => ?_) fun _ => goesFirst_heapsize
    split
    · rfl
    · refine Flow.ends_ite (fun _ => rfl) fun _ => Flow.ends_ite (fun _ => rfl) fun _ => ?_
      exact Flow.ends_ite (fun _ => rfl) fun _ => goesNext_heapsize
  · exact ht

theorem nwstgCopy_heapsize {pfrag : Datastore} : KeepsHeapsize s (nwstgCopy pfrag s) :=
  Flow.ends_ite (fun _ => rfl) fun _ => rfl

theorem nwstgData_heapsize {pfrag : Datastore} : KeepsHeapsize s (nwstgData pfrag s) := by
  unfold nwstgData
  split
  · exact nwstgCopy_heapsize
  · refine Flow.ends_ite (fun _ => nwstgCopy_heapsize) fun _ => Flow.ends_ite (fun _ => rfl) fun _ => ?_
    exact Flow.ends_ite (fun _ => rfl) fun _ => nwstgCopy_heapsize

theorem link_heapsize {pfrag : Datastore} : KeepsHeapsize s (link pfrag s) := by
  unfold link
  split
  · rfl
  · exact Flow.ends_ite (fun _ => rfl) fun _ => rfl

theorem finish_heapsize {pfrag : Datastore} : KeepsHeapsize s (finish lib pfrag s) := by
  refine Flow.ends_ite (fun _ => ?_) fun _ => rfl
  refine Flow.Ends.bind (P := fun t => t.v.heapsize = s.v.heapsize) ?_ fun t ht => ?_
  · refine Flow.ends_ite (fun _ => Flow.ends_ite (fun _ => ?_) fun _ => rfl) fun _ => rfl
    split
    · rfl
    · rfl
  · refine Eq.trans ?_ ht
    unfold nwstgEnd
    split_ifs <;> rfl

theorem data_heapsize (s : State) : KeepsHeapsize s (data lib s) := by
  rw [data_eq]
  refine Flow.Ends.bind (P := fun t => t.v.heapsize = s.v.heapsize) ?_ fun t ht =>
    finish_heapsize.mono (fun _ h => h.trans ht) fun _ _ h => h.trans ht
  refine Flow.Ends.bind (P := fun t => t.v.heapsize = s.v.heapsize) ?_ fun t ht =>
    link_heapsize.mono (fun _ h => h.trans ht) fun _ _ h => h.trans ht
  exact Flow.ends_ite (fun _ => goesData_heapsize) fun _ => nwstgData_heapsize

/-- Where the variables are kept, `heapsize` stays what `prodalloc` returned last. -/
theorem allotted_eq_heapsize (hk : p.keepsVars = true) {es : List Event}
    (h : Trace (AllotStep p lib) (s, s.v.heapsize) es (t, n)) : n = t.v.heapsize := by
  refine h.invariant (P := fun a => a.2 = a.1.v.heapsize) ?_ rfl
  rintro ⟨s, n⟩ e ⟨t, m⟩ hn ⟨⟨t', hit, -, hv⟩, hm⟩
  dsimp only at hn hm hv hit ⊢
  rw [hm, hv hk, hn]
  have hfront := front_heapsize p lib s
  unfold allotted
  unfold iteration at hit
  cases hu : front p lib s with
  | exit e u =>
    rw [hu, Flow.bind_exit] at hit
    rcases hit with ⟨hgo, -⟩ | ⟨r, hex, -⟩
    · cases hgo
    · cases hex
      exact (hfront.exit hu).symm
  | go u =>
    rw [hu, Flow.bind_go] at hit
    have hdata : t'.v.heapsize = u.v.heapsize := by
      rcases hit with ⟨hgo, -⟩ | ⟨r, hex, -⟩
      · exact (data_heapsize u).go hgo
      · exact (data_heapsize u).exit hex
    have hset := hfront.go hu
    rw [hdata]
    dsimp only [State.allotted]
    split_ifs with hpsh
    · rfl
    · rw [if_neg hpsh] at hset
      exact hset.symm

end Allotment
section Nwstg
variable {lib : Library} {p : Program} {s t : State} {n : Nat}

/-- The length of the block as it is stored. -/
def State.stripped (lib : Library) (t : State) : Nat :=
  (t.getData lib).strippedLen (t.newFrag lib)

/-- The tail, if there is one, is in the array that the block's fragment is in. -/
def State.tailHeld (lib : Library) (t : State) : Prop :=
  ∀ tail, t.asm.prod.frags.getLast? = some tail → (t.getData lib).asm.tailLives tail = true

/-- The NWSTG path stores the block: it follows, where that is checked, and passes the room test. -/
def State.storesNwstg (lib : Library) (t : State) : Prop :=
  (t.asm.prod.nfrag = 0 ∨ t.tailHeld lib ∧ t.asm.prod.accepts (t.newFrag lib)) ∧
    (t.getData lib).fits (t.newFrag lib)

/-- A stored block and the trailer behind a product's last one end at `n` at most. -/
structure NwstgFits (lib : Library) (t : State) (n : Nat) : Prop where
  room : t.storesNwstg lib → t.stripped lib = 0 ∨ t.v.heapcount + t.stripped lib ≤ n
  trailer : t.storesNwstg lib → t.tailHeld lib →
    t.asm.prod.completedBy (t.newFrag lib) = true → 4 < t.v.heapcount + t.stripped lib →
    t.v.heapcount + t.stripped lib + 4 ≤ n

/-- The state behind the copy. -/
def State.copied (s : State) (pfrag : Datastore) : State :=
  let s := s.setDatalen (s.strippedLen pfrag)
  { s.setOut (s.asm.out.append s.v.heapcount s.block) with v := { s.v with deflen := s.v.datalen } }

theorem nwstgCopy_eq {pfrag : Datastore} (h : s.fits pfrag) :
    nwstgCopy pfrag s = .go (s.copied pfrag) := if_neg (not_lt.2 h)

theorem nwstgCopy_punt {pfrag : Datastore} (h : ¬ s.fits pfrag) (m : State) :
    nwstgCopy pfrag s ≠ .go m := by
  have hroom : nwstgCopy pfrag s =
      .exit (.again .punt) (s.setDatalen (s.strippedLen pfrag)) := if_pos (not_le.1 h)
  rw [hroom]
  nofun

theorem nwstgData_stores (h : t.storesNwstg lib) :
    nwstgData (t.newFrag lib) (t.getData lib) = .go ((t.getData lib).copied (t.newFrag lib)) := by
  have hcopy := nwstgCopy_eq h.2
  unfold nwstgData
  split
  · exact hcopy
  next tail htail =>
  rcases h.1 with h0 | ⟨hheld, hfollows⟩
  · have h0' : (t.getData lib).asm.prod.nfrag = 0 := h0
    rw [if_pos h0', hcopy]
  · have hmissing : (t.getData lib).asm.prod.missing tail (t.newFrag lib) = false :=
      hfollows tail htail
    simp only [hheld tail htail, hmissing, Bool.true_eq_false, Bool.false_eq_true, ↓reduceIte, hcopy,
      ite_self]

theorem nwstgData_refuses (h : ¬ t.storesNwstg lib) (m : State) :
    nwstgData (t.newFrag lib) (t.getData lib) ≠ .go m := by
  intro hm
  unfold nwstgData at hm
  split at hm
  · next hnil =>
    have hempty : ∀ tail, t.asm.prod.frags.getLast? ≠ some tail := fun tail htail => by
      cases hnil.symm.trans htail
    by_cases hf : (t.getData lib).fits (t.newFrag lib)
    · exact h ⟨.inr ⟨fun tail ht => absurd ht (hempty tail), fun tail ht => absurd ht (hempty tail)⟩, hf⟩
    · exact nwstgCopy_punt hf m hm
  next tail htail =>
  have honly : ∀ tail', t.asm.prod.frags.getLast? = some tail' → tail' = tail := fun tail' ht =>
    Option.some.inj (ht.symm.trans htail)
  by_cases hf : (t.getData lib).fits (t.newFrag lib)
  · split_ifs at hm with h0 hdead hmissing
    · exact h ⟨.inl h0, hf⟩
    · refine h ⟨.inr ⟨fun tail' ht => ?_, fun tail' ht => ?_⟩, hf⟩
      · rw [honly tail' ht]
        simpa using hdead
      · rw [honly tail' ht]
        exact Bool.not_eq_true _ ▸ hmissing
  · split_ifs at hm
    · exact nwstgCopy_punt hf m hm
    · exact nwstgCopy_punt hf m hm

theorem nwstgWrites_below : Below n ((t.getData lib).nwstgWrites (t.newFrag lib)) ↔
    (t.storesNwstg lib → t.stripped lib = 0 ∨ t.v.heapcount + t.stripped lib ≤ n) := by
  unfold State.nwstgWrites
  by_cases h : t.storesNwstg lib
  · rw [nwstgData_stores h]
    dsimp only
    rw [below_singleton, State.block, length_load]
    exact ⟨fun hb _ => hb, fun hb => hb h⟩
  · split
    · exact ⟨fun _ hs => absurd hs h, fun _ => below_nil⟩
    next m hm => exact absurd hm (nwstgData_refuses h m)

/-- A stored block is linked behind a tail that can be read. -/
theorem linkData_nwstg (lib : Library) (hg : t.v.goes = false) :
    (t.linkData lib).Ends
      (fun l => t.storesNwstg lib ∧ t.tailHeld lib ∧ l.v.goes = false ∧
        l.v.heapcount = t.v.heapcount + t.stripped lib ∧ l.asm.prod.nfrag = t.asm.prod.nfrag)
      fun _ _ => ¬ (t.storesNwstg lib ∧ t.tailHeld lib) := by
  unfold State.linkData
  rw [hg]
  simp only [Bool.false_eq_true, ↓reduceIte]
  by_cases hs : t.storesNwstg lib
  · rw [nwstgData_stores hs, Flow.bind_go]
    unfold link
    split
    · next hnil =>
      refine ⟨hs, fun tail htail => ?_, hg, rfl, rfl⟩
      cases hnil.symm.trans htail
    next tail htail =>
    refine Flow.ends_ite (fun hlives => ⟨hs, fun tail' ht => ?_, hg, rfl, rfl⟩) fun hdead h => ?_
    · rw [Option.some.inj (ht.symm.trans htail)]
      exact hlives
    · exact hdead (h.2 tail htail)
  · cases hm : nwstgData (t.newFrag lib) (t.getData lib) with
    | go m => exact absurd hm (nwstgData_refuses hs m)
    | exit e m => exact fun h => hs h.1

/-- The writes of an NWSTG block are below `n` if and only if the block and the trailer are. -/
theorem dataWrites_nwstg_below (hg : t.v.goes = false) :
    Below n (t.dataWrites lib) ↔ NwstgFits lib t n := by
  have hlink := linkData_nwstg lib hg
  unfold State.dataWrites
  rw [hg]
  simp only [Bool.false_eq_true, ↓reduceIte]
  rw [below_append, nwstgWrites_below]
  cases hl : t.linkData lib with
  | exit e l =>
    have hno := hlink.exit hl
    exact ⟨fun h => ⟨h.1, fun hs ht => absurd ⟨hs, ht⟩ hno⟩, fun h => ⟨h.room, below_nil⟩⟩
  | go l =>
    obtain ⟨hs, ht, hgl, hcount, hnfrag⟩ := hlink.go hl
    have hcompl : l.asm.prod.completedBy (t.newFrag lib) =
        t.asm.prod.completedBy (t.newFrag lib) := by
      unfold Prodstore.completedBy
      rw [hnfrag]
    have hfinish : Below n (l.finishWrites lib (t.newFrag lib)) ↔
        (t.asm.prod.completedBy (t.newFrag lib) = true → 4 < t.v.heapcount + t.stripped lib →
          t.v.heapcount + t.stripped lib + 4 ≤ n) := by
      unfold State.finishWrites
      rw [hcompl, hgl, hcount]
      simp only [Bool.false_eq_true, ↓reduceIte]
      split_ifs with hc h4
      · rw [below_singleton]
        have hlen : fosTrailer.length = 4 := rfl
        rw [hlen]
        exact ⟨fun h _ _ => by omega, fun h => .inr (h hc h4)⟩
      · exact ⟨fun _ _ h => absurd h h4, fun _ => below_nil⟩
      · exact ⟨fun _ h => absurd h hc, fun _ => below_nil⟩
    rw [hfinish]
    exact ⟨fun h => ⟨h.1, fun _ _ => h.2⟩, fun h => ⟨h.room, h.trailer hs ht⟩⟩

/-- The FOS header and its NUL are below whatever `prodalloc` returns. -/
theorem headerWrites_below (h : front p lib s = .go t) (hg : t.v.goes = false) :
    Below (t.allotted n) t.headerWrites := by
  have hsize := (front_heapsize p lib s).go h
  unfold State.headerWrites State.allotted
  by_cases hn : t.inp.pdh.pshlen ≠ 0 ∧ t.v.nwstg = true
  · rw [if_pos hn.1, hg] at hsize
    rw [if_pos hn, if_pos hn.1, below_singleton, hsize, List.length_append, List.length_singleton]
    have hlen := length_fosHeader_le t.inp.pdh.seqno
    right
    calc 0 + ((fosHeader t.inp.pdh.seqno).length + 1) ≤ 1 * 4015 + 32 := by omega
      _ ≤ prodsize t.asm.psh.frags 4015 := by
        unfold prodsize
        split_ifs
        · exact Nat.le_refl _
        · omega
  · rw [if_neg hn]
    exact below_nil

/-- The bytes that an iteration writes for an NWSTG product lie below what `prodalloc` returned. -/
def NwstgBelow (p : Program) (lib : Library) (n : Nat) (s : State) : Prop :=
  (front p lib s).Ends
    (fun t => t.v.goes = false → Below (t.allotted n) (t.headerWrites ++ t.dataWrites lib))
    fun _ _ => True

def NwstgRoom (p : Program) (lib : Library) (n : Nat) (s : State) : Prop :=
  (front p lib s).Ends (fun t => t.v.goes = false → NwstgFits lib t (t.allotted n)) fun _ _ => True

theorem nwstgBelow_iff : NwstgBelow p lib n s ↔ NwstgRoom p lib n s := by
  unfold NwstgBelow NwstgRoom
  cases h : front p lib s with
  | exit e t => exact Iff.rfl
  | go t =>
    refine forall_congr' fun hg => ?_
    rw [below_append, dataWrites_nwstg_below hg]
    exact and_iff_right (headerWrites_below h hg)

/-- In all executions every byte of an NWSTG product is written below what `prodalloc` returned for
it, exactly when in each a block that passes the room test leaves room for the trailer if it is the
last one. -/
theorem nwstg_heap_iff (p : Program) (lib : Library) (s₀ : State) (n₀ : Nat) :
    (∀ es s n, Trace (AllotStep p lib) (s₀, n₀) es (s, n) → NwstgBelow p lib n s) ↔
      ∀ es s n, Trace (AllotStep p lib) (s₀, n₀) es (s, n) → NwstgRoom p lib n s :=
  forall_congr' fun _ => forall_congr' fun _ => forall_congr' fun _ => forall_congr' fun _ =>
    nwstgBelow_iff

/-- The last block leaves room for the trailer. -/
def TrailerRoom (p : Program) (lib : Library) (s : State) : Prop :=
  (front p lib s).Ends
    (fun t => t.v.goes = false → t.storesNwstg lib → t.tailHeld lib →
      t.asm.prod.completedBy (t.newFrag lib) = true → 4 < t.v.heapcount + t.stripped lib →
      t.v.heapcount + t.stripped lib + 4 ≤ t.v.heapsize)
    fun _ _ => True

/-- Where the variables are kept, the room test is against what `prodalloc` returned, so the
trailer alone can miss. -/
theorem nwstgRoom_kept (hk : p.keepsVars = true) {s₀ : State} {es : List Event}
    (h : Trace (AllotStep p lib) (s₀, s₀.v.heapsize) es (s, n)) :
    NwstgRoom p lib n s ↔ TrailerRoom p lib s := by
  have hn := allotted_eq_heapsize hk h
  have hfront := front_heapsize p lib s
  unfold NwstgRoom TrailerRoom
  cases hu : front p lib s with
  | exit e t => exact Iff.rfl
  | go t =>
    have hallot : t.allotted n = t.v.heapsize := by
      have hset := hfront.go hu
      unfold State.allotted
      by_cases hpsh : t.inp.pdh.pshlen ≠ 0
      · rw [if_pos hpsh]
      · rw [if_neg hpsh] at hset ⊢
        exact hn.trans hset.symm
    rw [Flow.ends_go, Flow.ends_go, hallot]
    exact forall_congr' fun _ => ⟨fun h => h.trailer, fun h => ⟨fun hs => .inr hs.2, h⟩⟩

/-- A product of one block that leaves less than the trailer's four bytes. -/
theorem not_nwstgBelow (h : front p lib s = .go t) (hg : t.v.goes = false)
    (hpsh : t.inp.pdh.pshlen ≠ 0) (hnil : t.asm.prod.frags = [])
    (hcompl : t.asm.prod.completedBy (t.newFrag lib) = true)
    (hroom : t.v.heapcount + t.stripped lib ≤ t.v.heapsize)
    (hcount : 4 < t.v.heapcount + t.stripped lib)
    (htrailer : t.v.heapsize < t.v.heapcount + t.stripped lib + 4) : ¬ NwstgBelow p lib n s := by
  intro hbelow
  have hempty : ∀ tail, t.asm.prod.frags.getLast? ≠ some tail := by
    rw [hnil]
    nofun
  have hheld : t.tailHeld lib := fun tail htail => absurd htail (hempty tail)
  have hstores : t.storesNwstg lib :=
    ⟨.inr ⟨hheld, fun tail htail => absurd htail (hempty tail)⟩, hroom⟩
  have hlast := ((nwstgBelow_iff.1 hbelow).go h hg).trailer hstores hheld hcompl hcount
  rw [State.allotted, if_pos hpsh] at hlast
  omega

end Nwstg

/-- One block, with its CCB of two bytes two short of a whole heap. -/
def fullHeapPacket : List UInt8 :=
  [255, 0, 20, 0, 3, 5, 0, 0, 0, 0, 0, 1, 0, 1, 1, 29] ++
    [20, 0, 0, 52, 0, 0, 0, 0, 15, 196, 1, 1, 0, 0, 0, 7] ++
    [0, 0, 0, 36] ++ List.replicate 32 0 ++ [64, 1] ++ List.replicate 4034 65

theorem fullHeapPacket_front :
    (front readnoaaport .plain (State.fresh fullHeapPacket .blank)).Ends
      (fun t => t.v.goes = false ∧ t.inp.pdh.pshlen ≠ 0 ∧ t.asm.prod.frags = [] ∧
        t.asm.prod.completedBy (t.newFrag .plain) = true ∧ t.v.heapsize = 4047 ∧
        t.v.heapcount + t.stripped .plain = 4045) (fun _ _ => False) := by
  decide +kernel

/-- The trailer ends two bytes behind the 4047 that `prodalloc` returned. -/
theorem trailer_overruns : ¬ ∀ es s n,
    Trace (AllotStep readnoaaport .plain) (State.fresh fullHeapPacket .blank, 0) es (s, n) →
      NwstgBelow readnoaaport .plain n s := by
  obtain ⟨t, ht, hg, hpsh, hnil, hcompl, hsize, hcount⟩ | ⟨e, t, -, hno⟩ :=
    fullHeapPacket_front.cases
  · generalize State.fresh fullHeapPacket .blank = s at ht ⊢
    intro h
    exact not_nwstgBelow ht hg hpsh hnil hcompl (by omega) (by omega) (by omega)
      (h [] s 0 (.nil _))
  · exact hno.elim

end Noaaport
