import Noaaport.Arrival
import Noaaport.DataPhase
import Noaaport.Lib.Reassembly

/-! Assembly on the NWSTG channels: whole packets of well-formed products, lost,
doubled and in any order, against the reassembly they stand for. -/
namespace Noaaport
open Lib

section Trailers

/-- What the loop over `datalen` leaves: it stops at the last four bytes. -/
def keptText (bs : List UInt8) : List UInt8 :=
  if TrailersOnly bs then fosTrailer else withoutTrailers bs

theorem withoutTrailers_append (bs : List UInt8) :
    withoutTrailers (bs ++ fosTrailer) = withoutTrailers bs := by
  unfold withoutTrailers
  rw [List.reverse_append]
  rfl

theorem dropTrailers_of_ne (bs : List UInt8) (h : ∀ cs, bs ≠ 3 :: 10 :: 13 :: 13 :: cs) :
    dropTrailers bs = bs := by
  unfold dropTrailers
  split
  · next cs => exact absurd rfl (h cs)
  · rfl

theorem withoutTrailers_of_ne {bs : List UInt8} (h : ∀ cs, bs ≠ cs ++ fosTrailer) :
    withoutTrailers bs = bs := by
  unfold withoutTrailers
  rw [dropTrailers_of_ne, List.reverse_reverse]
  intro cs hcs
  refine h cs.reverse ?_
  rw [← List.reverse_reverse bs, hcs]
  simp [fosTrailer]

theorem keptText_of_ne {bs : List UInt8} (h : ∀ cs, bs ≠ cs ++ fosTrailer) : keptText bs = bs := by
  rw [keptText, withoutTrailers_of_ne h, if_neg]
  rintro ⟨hne, hnil⟩
  rw [withoutTrailers_of_ne h] at hnil
  exact hne hnil

theorem keptText_append {bs : List UInt8} (hne : bs ≠ []) :
    keptText (bs ++ fosTrailer) = keptText bs := by
  have hiff : TrailersOnly (bs ++ fosTrailer) ↔ TrailersOnly bs := by
    unfold TrailersOnly
    rw [withoutTrailers_append]
    constructor
    · exact fun h => ⟨hne, h.2⟩
    · exact fun h => ⟨by simp [fosTrailer], h.2⟩
  unfold keptText
  rw [withoutTrailers_append]
  by_cases h : TrailersOnly bs
  · rw [if_pos h, if_pos (hiff.2 h)]
  · rw [if_neg h, if_neg (mt hiff.1 h)]

theorem stripTrailers_le (buf : Buffer) (off n : Nat) : stripTrailers buf off n ≤ n := by
  induction n using stripTrailers.induct buf off with
  | case1 n h ih =>
    rw [stripTrailers, if_pos h]
    omega
  | case2 n h => rw [stripTrailers, if_neg h]
  | case3 n h => rw [stripTrailers.eq_2 _ _ _ h]

theorem load_stripTrailers (buf : Buffer) (off n : Nat) :
    load buf off (stripTrailers buf off n) = keptText (load buf off n) := by
  induction n using stripTrailers.induct buf off with
  | case1 n h ih =>
    have hne : load buf off (n + 1) ≠ [] := by
      rw [← List.length_pos_iff, length_load]
      exact Nat.succ_pos n
    have hlast : load buf off (n + 5) = load buf off (n + 1) ++ fosTrailer := by
      rw [← h, ← load_add]
    rw [stripTrailers, if_pos h, ih]
    exact (hlast ▸ keptText_append hne).symm
  | case2 n h =>
    rw [stripTrailers, if_neg h, keptText_of_ne]
    intro cs hcs
    refine h ?_
    have hl := congrArg List.length hcs
    rw [length_load, List.length_append] at hl
    have hcs' : cs.length = n + 1 := by
      simp only [fosTrailer, List.length_cons, List.length_nil] at hl
      omega
    rw [← load_drop, show n + 1 + 4 = n.succ.succ.succ.succ.succ from rfl, hcs,
      List.drop_left' hcs']
  | case3 n h =>
    rw [stripTrailers.eq_2 _ _ _ h]
    have h4 : n ≤ 4 := by
      by_contra hn
      exact h (n - 5) (by omega)
    by_cases ht : load buf off n = fosTrailer
    · rw [ht]
      decide
    · rw [keptText_of_ne]
      intro cs hcs
      have hl := congrArg List.length hcs
      simp only [length_load, List.length_append, fosTrailer, List.length_cons,
        List.length_nil] at hl
      rw [List.eq_nil_of_length_eq_zero (l := cs) (by omega)] at hcs
      exact ht hcs

end Trailers

section Take
variable {lib : Library} {k : Packet} {tail : List UInt8} {t : State}

/-- The block's text follows on from what has been linked. -/
structure Fits (k : Packet) (text : List UInt8) (t : State) : Prop where
  ccb : t.asm.ccb.len ≤ k.block.length
  isText : text = k.block.drop t.asm.ccb.len
  header : 11 ≤ t.v.heapcount
  room : t.v.heapcount + text.length ≤ t.v.heapsize
  allocated : t.asm.dataheap.allocated = true
  slot : t.asm.dataheap.nextfrag < t.asm.dataheap.maxfrags
  follows : ∀ f, t.asm.prod.frags.getLast? = some f →
    f.gen = t.asm.dataheap.gen ∧ t.inp.pdh.dbno = f.fragnum + 1 ∧ t.inp.pdh.seqno = t.asm.prod.seqno

/-- The text has been added to a product that is not complete. -/
structure Extended (text : List UInt8) (t t' : State) : Prop where
  prod : t'.asm.prod.seqno = t.asm.prod.seqno ∧ t'.asm.prod.nfrag = t.asm.prod.nfrag
  last : ∃ f, t'.asm.prod.frags.getLast? = some f ∧ f.fragnum = t.inp.pdh.dbno ∧
    f.gen = t'.asm.dataheap.gen
  pool : t'.asm.dataheap = { t.asm.dataheap with nextfrag := t.asm.dataheap.nextfrag + 1 }
  heap : t'.asm.out.memheap.mem = store t.asm.out.memheap.mem t.v.heapcount text
  heapcount : t'.v.heapcount = t.v.heapcount + text.length
  heapsize : t'.v.heapsize = t.v.heapsize
  md5 : t'.asm.out.md5 = t.asm.out.md5 ++ text
  calls : t'.asm.calls = t.asm.calls
  pnginit : t'.asm.pnginit = t.asm.pnginit

/-- The text has completed its product. -/
structure Completed (text : List UInt8) (t t' : State) : Prop where
  idle : t'.asm.prod.frags = []
  calls : ∃ c, t'.asm.calls = t.asm.calls ++ [c] ∧
    c.heap = load (store (store t.asm.out.memheap.mem t.v.heapcount (keptText text))
      (t.v.heapcount + (keptText text).length) fosTrailer) 0
      (t.v.heapcount + (keptText text).length + fosTrailer.length) ∧
    c.md5 = t.asm.out.md5 ++ keptText text ++ fosTrailer
  pnginit : t'.asm.pnginit = false

/-- What the block is to its product. -/
inductive Taken (text : List UInt8) (tail : List UInt8) (t t' : State) : Prop where
  | more (hc : ¬ (t.asm.prod.nfrag = 0 ∨ t.asm.prod.nfrag = t.inp.pdh.dbno + 1))
      (hrest : t'.inp.rest = tail) (h : Extended text t t')
  | last (hc : t.asm.prod.nfrag = 0 ∨ t.asm.prod.nfrag = t.inp.pdh.dbno + 1)
      (hrest : t'.inp.rest = tail) (h : Completed text t t')

theorem dsAlloc_spec (lib : Library) {d : Dataheap} (h : d.allocated = true) (hs : d.nextfrag < d.maxfrags) :
    dsAlloc lib d = (d.nextfrag, { d with nextfrag := d.nextfrag + 1 }) := by
  unfold dsAlloc
  simp only [h, ↓reduceIte, ge_iff_le, not_le.2 hs]

theorem AtData.block (lib : Library) (hd : AtData k tail t) (hk : k.WellFormed)
    (hccb : t.asm.ccb.len ≤ k.block.length) :
    (t.getData lib).block = k.block.drop t.asm.ccb.len := by
  have hoff : t.inp.dataOff = 32 + k.psh.length := by
    rw [Input.dataOff, Input.pshOff, hd.sbnLen, hd.pdh, hk.pdh.2, hk.pshlen, Int.toNat_natCast]
  have hdb : t.inp.pdh.dbsize = k.block.length := by rw [hd.pdh, hk.dbsize]
  have hback : load t.inp.buf (32 + k.psh.length) k.block.length = k.block := by
    have h := Holds.load_back (k.sbn ++ k.pdh ++ k.psh) k.block hd.holds
    simpa only [List.length_append, hk.sbn_length, hk.pdh_length] using h
  change load t.inp.buf (t.inp.dataOff + t.asm.ccb.len) (t.inp.pdh.dbsize - t.asm.ccb.len) = _
  rw [hdb, hoff, ← load_drop, Nat.add_sub_cancel' hccb, hback]

/-- A block that follows on is copied without further checks. -/
theorem nwstgData_follows {text : List UInt8} (hf : Fits k text t) :
    nwstgData (t.newFrag lib) (t.getData lib) = nwstgCopy (t.newFrag lib) (t.getData lib) := by
  unfold nwstgData
  split
  · rfl
  next f hl =>
  obtain ⟨hgen, hnum, hseq⟩ := hf.follows f hl
  have hlives : (t.getData lib).asm.tailLives f = true := by
    rw [Asm.tailLives, State.getData, dsAlloc_spec lib hf.allocated hf.slot]
    exact decide_eq_true hgen
  have hnext : (t.getData lib).asm.prod.missing f (t.newFrag lib) = false := by
    refine decide_eq_false ?_
    rintro (h | h)
    · exact h hnum
    · exact h hseq
  rw [hlives, hnext]
  simp

/-- What the copy leaves: the text in the heap, its length in `deflen`. -/
structure TextCopied (lib : Library) (kept : List UInt8) (t m : State) : Prop where
  inp : m.inp = t.inp
  goes : m.v.goes = t.v.goes
  nwstg : m.v.nwstg = t.v.nwstg
  heapcount : m.v.heapcount = t.v.heapcount
  heapsize : m.v.heapsize = t.v.heapsize
  deflen : m.v.deflen = kept.length
  asm : m.asm = { (t.getData lib).asm with out := t.asm.out.append t.v.heapcount kept }

theorem nwstgCopy_fits {text : List UInt8} (hf : Fits k text t) (kept : List UInt8)
    (hkept : load t.inp.buf (t.getData lib).v.dataoff ((t.getData lib).strippedLen (t.newFrag lib)) =
      kept) (hle : kept.length ≤ text.length) :
    (nwstgCopy (t.newFrag lib) (t.getData lib)).Ends (TextCopied lib kept t) (fun _ _ => False) := by
  have hlen : (t.getData lib).strippedLen (t.newFrag lib) = kept.length := by
    rw [← hkept, length_load]
  have hroom := hf.room
  unfold nwstgCopy
  refine Flow.ends_ite (fun hbig => ?_) fun _ => ?_
  · have hbig' : t.v.heapcount + (t.getData lib).strippedLen (t.newFrag lib) > t.v.heapsize := hbig
    omega
  · refine ⟨rfl, rfl, rfl, rfl, rfl, hlen, ?_⟩
    change { (t.getData lib).asm with out := t.asm.out.append t.v.heapcount (load t.inp.buf
      (t.getData lib).v.dataoff ((t.getData lib).strippedLen (t.newFrag lib))) } = _
    rw [hkept]

def State.linked (s : State) (pfrag : Datastore) : State :=
  { s with
    v := { s.v with heapcount := s.v.heapcount + s.v.deflen }
    asm := { s.asm with prod := { s.asm.prod with frags := s.asm.prod.frags ++ [s.linkedFrag pfrag] } } }

/-- The tail has not moved, so the block can be linked to it. -/
theorem link_follows {text kept : List UInt8} {m : State} (hf : Fits k text t)
    (hm : TextCopied lib kept t m) :
    link (t.newFrag lib) m = .go (m.linked (t.newFrag lib)) := by
  unfold link
  split
  · rfl
  · next f hl =>
    rw [hm.asm] at hl
    have hlives : m.asm.tailLives f = true := by
      rw [hm.asm, Asm.tailLives, State.getData, dsAlloc_spec lib hf.allocated hf.slot]
      exact decide_eq_true (hf.follows f hl).1
    rw [hlives]
    rfl

theorem nwstgEnd_text {l : State} (h : 11 ≤ l.v.heapcount) :
    (nwstgEnd l).inp = l.inp ∧ (nwstgEnd l).asm.calls = l.asm.calls ∧
      (nwstgEnd l).v.heapcount = l.v.heapcount + fosTrailer.length ∧
      (nwstgEnd l).asm.out = l.asm.out.append l.v.heapcount fosTrailer := by
  unfold nwstgEnd
  rw [if_pos (by omega)]
  exact ⟨rfl, rfl, rfl, rfl⟩

/-- The last block: the product goes to `process_prod`. -/
theorem finish_last {text : List UInt8} {m : State} (hd : AtData k tail t) (hf : Fits k text t)
    (hc : t.asm.prod.completedBy (t.newFrag lib) = true) (hm : TextCopied lib (keptText text) t m) :
    (finish lib (t.newFrag lib) (m.linked (t.newFrag lib))).Ends
      (fun t' => t'.inp.rest = tail ∧ Completed text t t') (fun _ _ => False) := by
  generalize hl : m.linked (t.newFrag lib) = l
  have hcomp : l.asm.prod.completedBy (t.newFrag lib) = true := by
    rw [← hc, ← hl]
    change (m.asm.prod.nfrag = 0 ∨ m.asm.prod.nfrag = _ : Bool) = _
    rw [hm.asm]
    rfl
  have hg : l.v.goes = false := by
    rw [← hl]
    exact hm.goes.trans hd.goes
  have hn : l.v.nwstg = true := by
    rw [← hl]
    exact hm.nwstg.trans hd.nwstg
  have hcount : l.v.heapcount = t.v.heapcount + (keptText text).length := by
    rw [← hl, ← hm.heapcount, ← hm.deflen]
    rfl
  have hout : l.asm.out = t.asm.out.append t.v.heapcount (keptText text) := by
    rw [← hl]
    change m.asm.out = _
    rw [hm.asm]
  have hrest : l.inp.rest = tail := by
    rw [← hl]
    change m.inp.rest = tail
    rw [hm.inp, hd.rest]
  have hcalls : l.asm.calls = t.asm.calls := by
    rw [← hl]
    change m.asm.calls = _
    rw [hm.asm]
    rfl
  have hheader := hf.header
  obtain ⟨hni, hnc, hnh, hno⟩ := nwstgEnd_text (l := l) (by omega)
  unfold finish
  simp only [hcomp, hg, hn, Bool.false_eq_true, ↓reduceIte, Flow.bind_go, Flow.ends_go]
  refine ⟨?_, rfl, ⟨(nwstgEnd l).call, ?_, ?_, ?_⟩, rfl⟩
  · change (nwstgEnd l).inp.rest = tail
    rw [hni, hrest]
  · change (nwstgEnd l).asm.calls ++ [(nwstgEnd l).call] = _
    rw [hnc, hcalls]
  · change load (nwstgEnd l).asm.out.memheap.mem 0 (nwstgEnd l).v.heapcount = _
    rw [hno, hnh, hcount, hout]
    rfl
  · change (nwstgEnd l).asm.out.md5 = _
    rw [hno, hout]
    rfl

/-- Not the last block: it waits in the list. -/
theorem finish_more {text : List UInt8} {m : State} (hd : AtData k tail t) (hf : Fits k text t)
    (hc : ¬ t.asm.prod.completedBy (t.newFrag lib) = true) (hm : TextCopied lib text t m) :
    (finish lib (t.newFrag lib) (m.linked (t.newFrag lib))).Ends
      (fun t' => t'.inp.rest = tail ∧ Extended text t t') (fun _ _ => False) := by
  have hcomp : ¬ (m.linked (t.newFrag lib)).asm.prod.completedBy (t.newFrag lib) = true := by
    intro h
    change (m.asm.prod.nfrag = 0 ∨ m.asm.prod.nfrag = _ : Bool) = true at h
    rw [hm.asm] at h
    exact hc h
  have hlast : (m.linked (t.newFrag lib)).asm.prod.frags.getLast? =
      some (m.linkedFrag (t.newFrag lib)) := List.getLast?_concat
  have hpool : m.asm.dataheap = (dsAlloc lib t.asm.dataheap).2 := by
    rw [hm.asm]
    rfl
  refine Flow.ends_ite (fun h => absurd h hcomp) fun _ => ⟨?_, ?_, ⟨_, hlast, rfl, ?_⟩, ?_, ?_, ?_,
    hm.heapsize, ?_, ?_, ?_⟩
  · change m.inp.rest = tail
    rw [hm.inp, hd.rest]
  · change m.asm.prod.seqno = _ ∧ m.asm.prod.nfrag = _
    rw [hm.asm]
    exact ⟨rfl, rfl⟩
  · exact congrArg Dataheap.gen hpool.symm
  · exact hpool.trans (by rw [dsAlloc_spec lib hf.allocated hf.slot])
  · change m.asm.out.memheap.mem = _
    rw [hm.asm]
    rfl
  · change m.v.heapcount + m.v.deflen = _
    rw [hm.heapcount, hm.deflen]
  · change m.asm.out.md5 = _
    rw [hm.asm]
    rfl
  · change m.asm.calls = _
    rw [hm.asm]
    rfl
  · change m.asm.pnginit = _
    rw [hm.asm]
    rfl

/-- A block that follows on is taken, and completes its product or not. -/
theorem data_takes {text : List UInt8} (hk : k.WellFormed) (hd : AtData k tail t)
    (hf : Fits k text t) : (data lib t).Ends (Taken text tail t) (fun _ _ => False) := by
  have hblock : load t.inp.buf (t.getData lib).v.dataoff (t.getData lib).v.datalen = text := by
    rw [hf.isText, ← hd.block lib hk hf.ccb]
    rfl
  have hg : (t.getData lib).v.goes = false := hd.goes
  unfold data
  simp only [hg, Bool.false_eq_true, ↓reduceIte]
  rw [nwstgData_follows hf]
  by_cases hc : t.asm.prod.completedBy (t.newFrag lib) = true
  · have hstrip : (t.getData lib).strippedLen (t.newFrag lib) =
        stripTrailers t.inp.buf (t.getData lib).v.dataoff (t.getData lib).v.datalen := if_pos hc
    have hkept : load t.inp.buf (t.getData lib).v.dataoff
        ((t.getData lib).strippedLen (t.newFrag lib)) = keptText text := by
      rw [hstrip, load_stripTrailers, hblock]
    have hle : (keptText text).length ≤ text.length := by
      rw [← hkept, length_load, hstrip, ← hblock, length_load]
      exact stripTrailers_le ..
    refine (nwstgCopy_fits hf _ hkept hle).bind fun m hm => ?_
    rw [link_follows hf hm, Flow.bind_go]
    exact (finish_last hd hf hc hm).mono (fun t' h => .last (of_decide_eq_true hc) h.1 h.2)
      fun _ _ h => h
  · have hstrip : (t.getData lib).strippedLen (t.newFrag lib) = (t.getData lib).v.datalen :=
      if_neg hc
    refine (nwstgCopy_fits hf text (by rw [hstrip, hblock]) (Nat.le_refl _)).bind fun m hm => ?_
    rw [link_follows hf hm, Flow.bind_go]
    exact (finish_more hd hf hc hm).mono
      (fun t' h => .more (fun h' => hc (decide_eq_true h')) h.1 h.2) fun _ _ h => h

end Take
end Noaaport
