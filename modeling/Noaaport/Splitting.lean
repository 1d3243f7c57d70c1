import Noaaport.NwstgRuns

/-! One text in two ways cut into blocks: when the loop makes the same product of
both. -/
namespace Noaaport
open Lib Lib.Reassembly

section Trailers
variable {bs pre last : List UInt8}

theorem dropTrailers_append (a b : List UInt8) :
    dropTrailers (dropTrailers a ++ b) = dropTrailers (a ++ b) := by
  induction a using dropTrailers.induct with
  | case1 a ih => exact ih
  | case2 a h =>
    rw [dropTrailers_of_ne a h]

theorem dropTrailers_suffix (a : List UInt8) : dropTrailers a <:+ a := by
  induction a using dropTrailers.induct with
  | case1 a ih => exact ih.trans (List.suffix_append [3, 10, 13, 13] a)
  | case2 a h =>
    rewrite [dropTrailers_of_ne a h]
    exact List.suffix_rfl

/-- What is dropped of the whole is dropped of its first part, or reaches beyond it. -/
theorem dropTrailers_cases (a b : List UInt8) :
    dropTrailers (a ++ b) = dropTrailers a ++ b ∨ (dropTrailers (a ++ b)).length ≤ b.length := by
  induction a using dropTrailers.induct with
  | case1 a ih => exact ih
  | case2 a h =>
    rw [dropTrailers_of_ne a h]
    by_cases hab : ∃ cs, a ++ b = 3 :: 10 :: 13 :: 13 :: cs
    · obtain ⟨cs, hcs⟩ := hab
      right
      -- the trailer is not in `a` alone
      have hshort : a.length < 4 := by
        by_contra hlong
        have htake := congrArg (List.take 4) hcs
        rw [List.take_append_of_le_length (by omega)] at htake
        refine h (a.drop 4) ?_
        conv_lhs => rw [← List.take_append_drop 4 a, htake]
        rfl
      have hlen := congrArg List.length hcs
      rw [List.length_append] at hlen
      simp only [List.length_cons] at hlen
      have hle := (dropTrailers_suffix cs).length_le
      have hstep : dropTrailers (3 :: 10 :: 13 :: 13 :: cs) = dropTrailers cs := rfl
      rw [hcs, hstep]
      omega
    · left
      exact dropTrailers_of_ne _ fun cs hcs => hab ⟨cs, hcs⟩

theorem withoutTrailers_start (bs : List UInt8) : withoutTrailers bs <+: bs := by
  rw [← List.reverse_suffix, withoutTrailers, List.reverse_reverse]
  exact dropTrailers_suffix bs.reverse

theorem withoutTrailers_eq_iff : withoutTrailers bs = bs ↔ ∀ cs, bs ≠ cs ++ fosTrailer := by
  refine ⟨fun h cs hcs => ?_, withoutTrailers_of_ne⟩
  have hle := (withoutTrailers_start cs).length_le
  rw [hcs, withoutTrailers_append] at h
  rw [h, List.length_append] at hle
  have h4 : fosTrailer.length = 4 := rfl
  omega

/-- The loop over `datalen` leaves the text without its trailers what it is. -/
theorem withoutTrailers_kept (pre last : List UInt8) :
    withoutTrailers (pre ++ keptText last) = withoutTrailers (pre ++ last) := by
  have hdrop := dropTrailers_append last.reverse pre.reverse
  unfold withoutTrailers keptText
  rw [List.reverse_append, List.reverse_append, ← hdrop]
  split_ifs with h
  · have hnil : dropTrailers last.reverse = [] := List.reverse_eq_nil_iff.1 h.2
    rw [hnil]
    rfl
  · rw [withoutTrailers, List.reverse_reverse]

theorem withoutTrailers_cases (pre last : List UInt8) :
    withoutTrailers (pre ++ last) = pre ++ withoutTrailers last ∨
      (withoutTrailers (pre ++ last)).length ≤ pre.length := by
  have hcases := dropTrailers_cases last.reverse pre.reverse
  unfold withoutTrailers
  rw [List.length_reverse] at hcases
  rw [List.reverse_append, List.length_reverse]
  obtain h | h := hcases
  · left
    rw [h, List.reverse_append, List.reverse_reverse]
  · exact .inr h

/-- The bytes of the trailers at the end. -/
def trailing (bs : List UInt8) : Nat := bs.length - (withoutTrailers bs).length

theorem keptText_eq_nil_iff : keptText last = [] ↔ last = [] := by
  unfold keptText
  split_ifs with h
  · exact iff_of_false (by decide) h.1
  · refine ⟨fun hnil => ?_, fun hnil => by rw [hnil]; rfl⟩
    by_contra hne
    exact h ⟨hne, hnil⟩

/-- The text without its trailers is what the loop over `datalen` leaves if the last
block holds them all and a byte before them. -/
theorem kept_iff :
    withoutTrailers (pre ++ last) = pre ++ keptText last ↔
      trailing (pre ++ last) = 0 ∨ trailing (pre ++ last) < last.length := by
  have hpre := withoutTrailers_start (pre ++ last)
  have hle := hpre.length_le
  rw [List.length_append] at hle
  unfold trailing
  rw [List.length_append]
  constructor
  · intro h
    rw [h, List.length_append]
    by_cases hnil : last = []
    · rw [keptText_eq_nil_iff.2 hnil, hnil]
      exact .inl (Nat.sub_self _)
    · have hkept := List.length_pos_iff.2 (mt keptText_eq_nil_iff.1 hnil)
      have hlast := List.length_pos_iff.2 hnil
      right
      omega
  · rintro (h | h)
    · -- no trailer at the end at all
      have hall : withoutTrailers (pre ++ last) = pre ++ last := by
        refine hpre.eq_of_length ?_
        rw [List.length_append]
        omega
      rw [hall, keptText_of_ne]
      rintro cs rfl
      exact withoutTrailers_eq_iff.1 hall (pre ++ cs) (List.append_assoc ..).symm
    · obtain hw | hshort := withoutTrailers_cases pre last
      · rw [hw, List.append_cancel_left_eq, keptText, if_neg]
        rintro ⟨-, hnil⟩
        rw [hw, hnil, List.append_nil] at h
        omega
      · omega

end Trailers

/-- The text of all the blocks. -/
def NwstgProduct.data (P : NwstgProduct) : List UInt8 := P.upTo P.size

def NwstgProduct.TrailersInLast (P : NwstgProduct) : Prop :=
  trailing P.data = 0 ∨ trailing P.data < (P.text P.rest.length).length

instance (P : NwstgProduct) : Decidable P.TrailersInLast := inferInstanceAs (Decidable (_ ∨ _))

/-- One FOS trailer at the end, and no other before it. -/
def EndsInOneTrailer (bs : List UInt8) : Prop :=
  ∃ text, bs = text ++ fosTrailer ∧ ∀ cs, text ≠ cs ++ fosTrailer

section Text
variable {P Q : NwstgProduct}

theorem NwstgProduct.data_eq (P : NwstgProduct) :
    P.data = P.upTo P.rest.length ++ P.text P.rest.length :=
  P.upTo_succ P.rest.length

theorem NwstgProduct.stored_eq_iff (P : NwstgProduct) :
    P.stored = withoutTrailers P.data ++ fosTrailer ↔ P.TrailersInLast := by
  rw [NwstgProduct.TrailersInLast, NwstgProduct.stored, List.append_cancel_right_eq, P.data_eq,
    ← kept_iff, eq_comm]

theorem NwstgProduct.endsInOneTrailer_iff (P : NwstgProduct) :
    EndsInOneTrailer P.stored ↔ P.TrailersInLast := by
  have hone : EndsInOneTrailer P.stored ↔
      ∀ cs, P.upTo P.rest.length ++ keptText (P.text P.rest.length) ≠ cs ++ fosTrailer := by
    constructor
    · rintro ⟨text, htext, hone⟩
      rw [NwstgProduct.stored, List.append_cancel_right_eq] at htext
      rwa [htext]
    · exact fun hone => ⟨_, rfl, hone⟩
  rw [hone, ← withoutTrailers_eq_iff, withoutTrailers_kept, NwstgProduct.TrailersInLast,
    P.data_eq, kept_iff]

end Text

section Runs
variable {p : Program} {lib : Library} {s s' : State} {P Q : NwstgProduct}
  {tail tail' : List UInt8} {c c' : Call}

/-- The packets of `P`, and nothing else, and the loop hands over `c`. -/
def HandsOver (p : Program) (lib : Library) (s : State) (P : NwstgProduct) (tail : List UInt8)
    (c : Call) : Prop :=
  ∃ es t, Trace (Step p lib) s es t ∧ es.length = P.size ∧ t.inp.rest = tail ∧
    t.asm.calls = s.asm.calls ++ [c]

/-- Two calls that the product-queue takes for one product. -/
structure Identified (c c' : Call) : Prop where
  heap : c.heap = c'.heap
  md5 : c.md5 = c'.md5
  trailer : EndsInOneTrailer (c.heap.drop 11)

/-- The calls of one packet are the same whatever becomes of the variables. -/
theorem Trace.single {es es' : List Event} {t t' : State} (h : Trace (Step p lib) s es t)
    (h' : Trace (Step p lib) s es' t') (hlen : es.length = 1) (hlen' : es'.length = 1) :
    t.asm.calls = t'.asm.calls := by
  obtain ⟨e, rfl⟩ := List.length_eq_one_iff.1 hlen
  obtain ⟨e', rfl⟩ := List.length_eq_one_iff.1 hlen'
  cases h with
  | cons hs hnil =>
    cases hnil
    cases h' with
    | cons hs' hnil' =>
      cases hnil'
      rw [(hs.same hs').2.1]

/-- The variables are kept, or none is to be taken from one packet to the next. -/
def KeptFor (p : Program) (P : NwstgProduct) : Prop := p.keepsVars = true ∨ P.rest = []

/-- What is signed of the calls does not need the variables at the end. -/
theorem signed_run {N : Int → Prop} {es : List Event} {t : State} (hk : p.keepsVars = true ∨ es.length = 1)
    (hidle : s.asm.prod.frags = []) (h : Trace (Guarded (Carries p lib N) (Step p lib)) s es t) :
    Signed N s.asm t.asm.calls t.asm.inserts := by
  rcases hk with hk | hlen
  · exact (coverInv_run hk hidle h).signed
  obtain ⟨e, rfl⟩ := List.length_eq_one_iff.1 hlen
  cases h with
  | cons hs hnil =>
    cases hnil
    obtain ⟨u, hit, ht, -⟩ := hs.2
    have hstart : CoverInv N s.asm s :=
      ⟨fun hne => absurd hidle hne, ⟨[], (List.append_nil _).symm, fun _ hc => absurd hc List.not_mem_nil⟩,
        ⟨[], (List.append_nil _).symm, fun _ hc => absurd hc List.not_mem_nil⟩⟩
    rw [ht]
    exact (hstart.iteration hs.1 hit).signed

/-- A product that arrives at an idle loop complete and in order. -/
theorem product_handed_over (lib : Library) (hp : p.ServesAll 10000) (P : NwstgProduct)
    (hk : KeptFor p P) (hidle : s.asm.prod.frags = [])
    (hrest : s.inp.rest = stream (inOrder [P]) ++ tail) :
    ∃ c, HandsOver p lib s P tail c ∧ c.heap = (fosHeader P.seqno).take 11 ++ P.stored ∧
      c.md5 = P.stored := by
  have hsize : ∀ P' ∈ [P], 0 < P'.size := fun P' _ => Nat.succ_pos _
  have hparts : inOrder [P] = parts NwstgProduct.size P := List.append_nil _
  have hxs : ∀ x ∈ inOrder [P], x.2 < x.1.size := by
    rw [hparts]
    exact fun x hx => mem_parts NwstgProduct.size hx
  obtain ⟨es, t, htr, hlen, -, -, htail, cs, hcs, hall⟩ :=
    run_serves lib hp hxs (show Stands .idle s from hidle) (orderly_messages _ _ [P] hsize) hrest
  rw [inOrder, run_messages NwstgProduct.seqno NwstgProduct.size [P] hsize] at hall
  have hcount : es.length = P.size := by
    rw [hlen, hparts]
    exact (List.length_map ..).trans (List.length_range' ..)
  -- one call, and its header is the one of this product
  obtain ⟨c, cs', hass, hnil, rfl⟩ := List.forall₂_cons_right_iff.1 hall
  cases hnil
  have hone : p.keepsVars = true ∨ es.length = 1 :=
    hk.imp_right fun hnil => hcount.trans (congrArg (fun l => l.length + 1) hnil)
  obtain ⟨new, hnew, hsigned⟩ := (signed_run hone hidle htr).calls
  obtain rfl := List.append_cancel_left (hcs.symm.trans hnew)
  have hc := hsigned c List.mem_cons_self
  obtain ⟨x, hx, hseqno⟩ := hc.seqno
  rw [hparts] at hx
  rw [fst_of_mem_parts NwstgProduct.size hx] at hseqno
  refine ⟨c, ⟨es, t, htr.unguarded, hcount, htail, hcs⟩, ?_, hass.2⟩
  rw [hc.heap, hseqno, hass.2]

theorem HandsOver.unique (hk : KeptFor p P) (h : HandsOver p lib s P tail c)
    (h' : HandsOver p lib s P tail c') : c = c' := by
  obtain ⟨es, t, htr, hlen, -, hc⟩ := h
  obtain ⟨es', t', htr', hlen', -, hc'⟩ := h'
  have hcalls : t.asm.calls = t'.asm.calls := by
    rcases hk with hk | hnil
    · have hdet : ∀ s e t e' t', Step p lib s e t → Step p lib s e' t' → e = e' ∧ t = t' :=
        fun _ _ _ _ _ h h' => h.unique hk h'
      rw [(htr.unique hdet htr' (hlen.trans hlen'.symm)).2]
    · have hone : P.size = 1 := congrArg (fun l => l.length + 1) hnil
      exact Trace.single htr htr' (hlen.trans hone) (hlen'.trans hone)
  exact List.singleton_inj.1 (List.append_cancel_left (hc.symm.trans (hcalls.trans hc')))

theorem HandsOver.call (hp : p.ServesAll 10000) (hk : KeptFor p P)
    (hidle : s.asm.prod.frags = []) (hrest : s.inp.rest = stream (inOrder [P]) ++ tail)
    (h : HandsOver p lib s P tail c) :
    c.heap = (fosHeader P.seqno).take 11 ++ P.stored ∧ c.md5 = P.stored := by
  obtain ⟨d, hd, hheap, hmd5⟩ := product_handed_over lib hp P hk hidle hrest
  rw [h.unique hk hd]
  exact ⟨hheap, hmd5⟩

theorem Identified.trailersInLast (h : Identified c c')
    (hc : c.heap = (fosHeader P.seqno).take 11 ++ P.stored ∧ c.md5 = P.stored)
    (hc' : c'.md5 = Q.stored) : P.TrailersInLast ∧ Q.TrailersInLast := by
  have h11 := length_fosHeader P.seqno
  have hone := h.trailer
  rw [hc.1, List.drop_left' (by simp [h11])] at hone
  have hstored : P.stored = Q.stored := by rw [← hc.2, h.md5, hc']
  exact ⟨P.endsInOneTrailer_iff.1 hone, Q.endsInOneTrailer_iff.1 (hstored ▸ hone)⟩

section Lost

/-- The loop comes to any block but the first with the blocks before it. -/
theorem building_reached (lib : Library) (hp : p.ServesAll 10000) (P : NwstgProduct)
    (hidle : s.asm.prod.frags = []) (hrest : s.inp.rest = stream (inOrder [P]) ++ tail) (j : Nat)
    (hj : j + 1 < P.size) :
    ∃ es e u t, Trace (Step p lib) s es u ∧ Step p lib u e t ∧ es.length = j ∧ Building P (j + 1) t ∧
      t.inp.rest = stream (partsFrom NwstgProduct.size P (j + 1)) ++ tail ∧
      t.asm.calls = s.asm.calls := by
  have hparts : inOrder [P] = parts NwstgProduct.size P := List.append_nil _
  have hpacket : ∀ k < P.size, stream (partsFrom NwstgProduct.size P k) ++ tail =
      (P.packet k).bytes ++ (stream (partsFrom NwstgProduct.size P (k + 1)) ++ tail) := by
    intro k hk
    rw [partsFrom_cons _ hk, stream, List.flatMap_cons, List.append_assoc]
    rfl
  have hmore : ∀ k, k + 1 < P.size →
      Reassembly.advance NwstgProduct.size P (k + 1) = (.building P (k + 1), []) :=
    fun k hk => if_neg (Nat.ne_of_lt hk)
  induction j with
  | zero =>
    rw [hparts, parts, hpacket 0 (Nat.succ_pos _)] at hrest
    obtain ⟨t, hit, ht⟩ | ⟨-, -, -, hf⟩ := (show (iteration p lib s).Ends _ _ from first_serves hp hrest (.inl hidle)).cases
    · rw [hmore 0 hj] at ht
      obtain ⟨cs, hcs, hnil⟩ := ht.calls
      cases hnil
      exact ⟨[], .taken, s, t, .nil s, ⟨t, .inl ⟨hit, rfl⟩, rfl, fun _ => rfl⟩, rfl, ht.stands,
        ht.rest, hcs.trans (List.append_nil _)⟩
    · exact hf.elim
  | succ j ih =>
    obtain ⟨es, e, u, t, htr, hs, hlen, hb, htail, hcalls⟩ := ih (Nat.lt_of_succ_lt hj)
    rw [hpacket (j + 1) hb.lt] at htail
    obtain ⟨w, hit, hw⟩ | ⟨-, -, -, hf⟩ := (show (iteration p lib t).Ends _ _ from due_serves hp hb htail).cases
    · rw [hmore (j + 1) hj] at hw
      obtain ⟨cs, hcs, hnil⟩ := hw.calls
      cases hnil
      exact ⟨es ++ [e], .taken, t, w, htr.append (.cons hs (.nil t)),
        ⟨w, .inl ⟨hit, rfl⟩, rfl, fun _ => rfl⟩, by rw [List.length_append, hlen]; rfl, hw.stands,
        hw.rest, (hcs.trans (List.append_nil _)).trans hcalls⟩
    · exact hf.elim

/-- Both sizes by `n` more than they are. -/
def LoopVars.shifted (v : LoopVars) (n : Nat) : LoopVars :=
  { v with heapcount := v.heapcount + n, heapsize := v.heapsize + n }

/-- The last block goes where `heapcount` says. -/
theorem last_shifted (lib : Library) (hp : p.ServesAll 10000) {t : State} {j : Nat}
    (hb : Building P (j + 1) t) (hlast : j + 2 = P.size)
    (hrest : t.inp.rest = (P.packet (j + 1)).bytes ++ tail) (n : Nat) :
    ∃ u c, Step p lib { t with v := t.v.shifted n } .taken u ∧ u.inp.rest = tail ∧
      u.asm.calls = t.asm.calls ++ [c] ∧
      c.heap.length = t.v.heapcount + n + (keptText (P.text (j + 1))).length + 4 := by
  have hdata : (iteration p lib { t with v := t.v.shifted n }).Ends
      (fun u => u.inp.rest = tail ∧ ∃ c, u.asm.calls = t.asm.calls ++ [c] ∧
        c.heap.length = t.v.heapcount + n + (keptText (P.text (j + 1))).length + 4)
      (fun _ _ => False) := by
    refine Flow.Ends.bind ((front_continues hp (P.packet_continues hb.lt) (s := { t with v := t.v.shifted n })
      hrest).mono (fun _ h => h) fun _ _ h => hb.linked h.idle) fun w hw => ?_
    obtain ⟨-, hd, hr⟩ := hw
    -- the same state with the sizes as they were
    have hcount : w.v.heapcount = t.v.heapcount + n := hr.heapcount
    have hsize : w.v.heapsize = t.v.heapsize + n := hr.heapsize
    have hback : Resumed t { w with v := { w.v with heapcount := t.v.heapcount, heapsize := t.v.heapsize } } :=
      ⟨hr.prod, hr.dataheap, hr.out, hr.calls, hr.pnginit, hr.ccb, rfl, rfl⟩
    have hd' : AtData (P.packet (j + 1)) tail
        { w with v := { w.v with heapcount := t.v.heapcount, heapsize := t.v.heapsize } } :=
      ⟨hd.rest, hd.holds, hd.sbnLen, hd.pdh, hd.goes, hd.nwstg⟩
    have hf' := (hb.toPartial.resumed hback).fits hb.lt hd' hr.ccb
    have hheader : 11 ≤ t.v.heapcount := hf'.header
    have hroom : t.v.heapcount + (P.text (j + 1)).length ≤ t.v.heapsize := hf'.room
    have hf : Fits (P.packet (j + 1)) (P.text (j + 1)) w :=
      ⟨hf'.ccb, hf'.isText, by omega, by omega, hf'.allocated, hf'.slot, hf'.follows⟩
    refine (data_takes (P.packet_wellFormed hb.lt) hd hf).mono (fun u hu => ?_) fun _ _ h => h
    have hnum : w.inp.pdh.dbno = j + 1 := by
      rw [hd.pdh]
      exact (P.packet_continues hb.lt).dbno
    have hnfrag : w.asm.prod.nfrag = P.nfrag := by
      rw [hr.prod]
      exact hb.nfrag
    cases hu with
    | more hc =>
      rw [hnfrag, hnum, P.complete_iff hb.lt] at hc
      exact absurd hlast hc
    | last _ hrest h =>
      obtain ⟨c, hcalls, hheap, -⟩ := h.calls
      refine ⟨hrest, c, hcalls.trans (by rw [hr.calls]), ?_⟩
      rw [hheap, length_load, hcount]
      rfl
  obtain ⟨u, hit, hu, c, hcalls, hlen⟩ | ⟨-, -, -, hf⟩ := hdata.cases
  · exact ⟨u, c, ⟨u, .inl ⟨hit, rfl⟩, rfl, fun _ => rfl⟩, hu, hcalls, hlen⟩
  · exact hf.elim

/-- So a product of more than one block is handed over in more than one length. -/
theorem handed_over_twice (lib : Library) (hp : p.ServesAll 10000) (P : NwstgProduct)
    (hk : ¬ KeptFor p P) (hidle : s.asm.prod.frags = [])
    (hrest : s.inp.rest = stream (inOrder [P]) ++ tail) :
    ∃ c d, HandsOver p lib s P tail c ∧ HandsOver p lib s P tail d ∧ c.heap ≠ d.heap := by
  have hlost : p.keepsVars = false := Bool.eq_false_iff.2 fun h => hk (.inl h)
  have hlong : 0 < P.rest.length := List.length_pos_iff.2 fun h => hk (.inr h)
  have hsize : P.size = P.rest.length + 1 := rfl
  obtain ⟨j, hj⟩ : ∃ j, j + 2 = P.size := ⟨P.rest.length - 1, by omega⟩
  obtain ⟨es, e, u, t, htr, hs, hlen, hb, htail, hcalls⟩ :=
    building_reached lib hp P hidle hrest j (by omega)
  rw [partsFrom_cons _ hb.lt, partsFrom_end _ (by omega)] at htail
  have hone : t.inp.rest = (P.packet (j + 1)).bytes ++ tail := by
    rw [htail, stream, List.flatMap_cons, List.flatMap_nil, List.append_nil]
  have hshift : ∀ n, ∃ c, HandsOver p lib s P tail c ∧
      c.heap.length = t.v.heapcount + n + (keptText (P.text (j + 1))).length + 4 := by
    intro n
    obtain ⟨w, c, hw, hwtail, hwcalls, hclen⟩ := last_shifted lib hp hb hj hone n
    refine ⟨c, ⟨es ++ [e, .taken], w, htr.append (.cons (hs.anyVars hlost _) (.cons hw (.nil w))), ?_,
      hwtail, by rw [hwcalls, hcalls]⟩, hclen⟩
    rw [List.length_append, hlen]
    exact hj
  obtain ⟨c, hc, hclen⟩ := hshift 0
  obtain ⟨d, hd, hdlen⟩ := hshift 1
  refine ⟨c, d, hc, hd, fun heq => ?_⟩
  rw [heq] at hclen
  omega

end Lost

/-- Both are handed over, and as one product whatever the variables held. -/
structure SentAlike (p : Program) (lib : Library) (s : State) (P : NwstgProduct)
    (tail : List UInt8) (s' : State) (Q : NwstgProduct) (tail' : List UInt8) : Prop where
  first : ∃ c, HandsOver p lib s P tail c
  second : ∃ c, HandsOver p lib s' Q tail' c
  identified : ∀ c c', HandsOver p lib s P tail c → HandsOver p lib s' Q tail' c' → Identified c c'

/-- Two transmissions of one text under one sequence number give the same heap and the
same signature, with one FOS trailer at the end, exactly if in both the last block
holds all trailers of the text and a byte before them, or there are none, and if
the variables of the loop are kept or both are of one block. -/
theorem identified_iff (hp : p.ServesAll 10000)
    (hseqno : P.seqno = Q.seqno) (hdata : P.data = Q.data)
    (hidle : s.asm.prod.frags = []) (hrest : s.inp.rest = stream (inOrder [P]) ++ tail)
    (hidle' : s'.asm.prod.frags = []) (hrest' : s'.inp.rest = stream (inOrder [Q]) ++ tail') :
    SentAlike p lib s P tail s' Q tail' ↔
      (p.keepsVars = true ∨ P.rest = [] ∧ Q.rest = []) ∧ P.TrailersInLast ∧ Q.TrailersInLast := by
  constructor
  · intro h
    obtain ⟨c, hc⟩ := h.first
    obtain ⟨c', hc'⟩ := h.second
    have hP : KeptFor p P := by
      by_contra hk
      obtain ⟨d, e, hd, he, hne⟩ := handed_over_twice lib hp P hk hidle hrest
      exact hne ((h.identified d c' hd hc').heap.trans (h.identified e c' he hc').heap.symm)
    have hQ : KeptFor p Q := by
      by_contra hk
      obtain ⟨d, e, hd, he, hne⟩ := handed_over_twice lib hp Q hk hidle' hrest'
      exact hne ((h.identified c d hc hd).heap.symm.trans (h.identified c e hc he).heap)
    refine ⟨?_, (h.identified c c' hc hc').trailersInLast (hc.call hp hP hidle hrest)
      (hc'.call hp hQ hidle' hrest').2⟩
    rcases hP with hk | hP
    · exact .inl hk
    · exact hQ.imp_right fun hQ => ⟨hP, hQ⟩
  · rintro ⟨hk, hP, hQ⟩
    have hkP : KeptFor p P := hk.imp_right And.left
    have hkQ : KeptFor p Q := hk.imp_right And.right
    have hstored : P.stored = Q.stored := by
      rw [P.stored_eq_iff.2 hP, Q.stored_eq_iff.2 hQ, hdata]
    have h11 := length_fosHeader P.seqno
    obtain ⟨c, hc, -⟩ := product_handed_over lib hp P hkP hidle hrest
    obtain ⟨c', hc', -⟩ := product_handed_over lib hp Q hkQ hidle' hrest'
    refine ⟨⟨c, hc⟩, ⟨c', hc'⟩, fun d d' hd hd' => ?_⟩
    obtain ⟨hheap, hmd5⟩ := hd.call hp hkP hidle hrest
    obtain ⟨hheap', hmd5'⟩ := hd'.call hp hkQ hidle' hrest'
    refine ⟨?_, ?_, ?_⟩
    · rw [hheap, hheap', hseqno, hstored]
    · rw [hmd5, hmd5', hstored]
    · rw [hheap, List.drop_left' (by simp [h11])]
      exact P.endsInOneTrailer_iff.2 hP

end Runs

section Instances

/-- The same texts in one block. -/
def wholePacket (text : List UInt8) : Packet where
  sbn := headPacket.sbn
  pdh := [20, 0, 0, 52, 0, 0, 0, 0, 0, UInt8.ofNat (text.length + 2), 1, 1, 0, 0, 0, 7]
  psh := [0, 0, 0, 36] ++ List.replicate 10 0 ++ [0, 1] ++ List.replicate 20 0
  block := [0, 1] ++ text

def oneBlock (text : List UInt8) (h : (wholePacket text).First 7 1) : NwstgProduct where
  seqno := 7
  nfrag := 1
  first := wholePacket text
  rest := []
  isFirst := h
  continues
    | _, h => absurd h (Nat.not_lt_zero _)
  count := .inl rfl

def wholeText : NwstgProduct :=
  oneBlock [65, 66, 13, 13, 10, 3] (by constructor <;> decide +kernel)

def wholeTrailer : NwstgProduct :=
  oneBlock [65, 13, 13, 10, 3] (by constructor <;> decide +kernel)

def sending (P : NwstgProduct) : State := State.fresh (stream (inOrder [P])) .blank

/-- A text in two blocks and in one, in a loop that keeps its variables and in one that does not. -/
theorem identified_iff_run :
    SentAlike readnoaaport .plain (sending textProduct) textProduct [] (sending wholeText) wholeText [] ∧
      ¬ SentAlike (pmStart 65536 false) .plain (sending textProduct) textProduct [] (sending wholeText) wholeText
        [] := by
  have hdata : textProduct.data = wholeText.data := by decide
  have hlast : textProduct.TrailersInLast ∧ wholeText.TrailersInLast := by decide
  have hsplit : ¬ ((pmStart 65536 false).keepsVars = true ∨ textProduct.rest = [] ∧ wholeText.rest = []) := by
    decide
  constructor
  · exact (identified_iff (P := textProduct) (Q := wholeText) (readnoaaport_servesAll 10000) rfl
      hdata rfl (List.append_nil _).symm rfl (List.append_nil _).symm).2 ⟨.inl rfl, hlast⟩
  · intro halike
    exact hsplit ((identified_iff (P := textProduct) (Q := wholeText) (pmStart_servesAll (by decide)) rfl
      hdata rfl (List.append_nil _).symm rfl (List.append_nil _).symm).1 halike).1

/-- The trailer alone in the last block: it is doubled. -/
theorem split_not_identified :
    trailerProduct.seqno = wholeTrailer.seqno ∧ trailerProduct.data = wholeTrailer.data ∧
    ¬ ∃ c c', HandsOver readnoaaport .plain (sending trailerProduct) trailerProduct [] c ∧
      HandsOver readnoaaport .plain (sending wholeTrailer) wholeTrailer [] c' ∧
      Identified c c' := by
  refine ⟨rfl, by decide, ?_⟩
  rintro ⟨c, c', hc, hc', hsame⟩
  have hlast := hsame.trailersInLast
    (hc.call (readnoaaport_servesAll 10000) (.inl rfl) rfl (List.append_nil _).symm)
    (hc'.call (readnoaaport_servesAll 10000) (.inl rfl) rfl (List.append_nil _).symm).2
  exact absurd hlast.1 (by decide)

end Instances
end Noaaport
