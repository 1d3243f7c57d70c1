import Noaaport.Coverage
import Noaaport.Delivery
import Noaaport.Lib.Reassembly
import Mathlib.Data.List.Forall2

/-! Runs over whole packets of well-formed NWSTG products, lost, doubled and in any
order, against the reassembly of messages they stand for. -/
namespace Noaaport
open Lib Lib.Reassembly

/-- What the loop hands over for a product. -/
def NwstgProduct.stored (P : NwstgProduct) : List UInt8 :=
  P.upTo P.rest.length ++ keptText (P.text P.rest.length) ++ fosTrailer

/-- Between two blocks, or right before the first: the first `j` blocks are there. -/
structure Partial (P : NwstgProduct) (j : Nat) (t : State) : Prop where
  seqno : t.asm.prod.seqno = P.seqno
  nfrag : t.asm.prod.nfrag = P.nfrag
  last : ∀ f, t.asm.prod.frags.getLast? = some f → f.fragnum + 1 = j ∧ f.gen = t.asm.dataheap.gen
  allocated : t.asm.dataheap.allocated = true
  nextfrag : t.asm.dataheap.nextfrag = j
  maxfrags : P.nfrag < t.asm.dataheap.maxfrags
  heapcount : t.v.heapcount = 11 + (P.upTo j).length
  heapsize : t.v.heapsize = P.size * 4015 + 32
  heap : load t.asm.out.memheap.mem 11 (P.upTo j).length = P.upTo j
  md5 : t.asm.out.md5 = P.upTo j

structure Building (P : NwstgProduct) (j : Nat) (s : State) : Prop extends Partial P j s where
  pos : 0 < j
  lt : j < P.size
  linked : s.asm.prod.frags ≠ []

/-- A call that hands over the product as the loop stores it. -/
def Assembled (c : Call) (P : NwstgProduct) : Prop := c.heap.drop 11 = P.stored ∧ c.md5 = P.stored

section Block
variable {lib : Library} {tail : List UInt8} {P : NwstgProduct} {j : Nat} {t : State}

/-- The product has its last block, or one more. -/
inductive Advanced (P : NwstgProduct) (j : Nat) (tail : List UInt8) (t t' : State) : Prop where
  | last (hj : j + 1 = P.size) (rest : t'.inp.rest = tail) (idle : t'.asm.prod.frags = [])
      (calls : ∃ c, t'.asm.calls = t.asm.calls ++ [c] ∧ Assembled c P)
      (pnginit : t'.asm.pnginit = false)
  | more (hj : j + 1 ≠ P.size) (rest : t'.inp.rest = tail) (h : Building P (j + 1) t')
      (calls : t'.asm.calls = t.asm.calls) (pnginit : t'.asm.pnginit = t.asm.pnginit)

/-- `nfrag` is the number of blocks, or 0 for a single one. -/
theorem NwstgProduct.count_cases (P : NwstgProduct) :
    P.size = P.nfrag ∨ P.size = 1 ∧ P.nfrag = 0 := by
  have hsize : P.size = P.rest.length + 1 := rfl
  rcases P.count with h | ⟨h0, hnil⟩
  · exact .inl (by omega)
  · exact .inr ⟨by rw [hsize, hnil]; rfl, h0⟩

theorem NwstgProduct.complete_iff (P : NwstgProduct) {j : Nat} (hj : j < P.size) :
    P.nfrag = 0 ∨ P.nfrag = j + 1 ↔ j + 1 = P.size := by
  have hcount := P.count_cases
  omega

/-- The pool was made large enough for all the blocks. -/
theorem Partial.slot (hp : Partial P j t) (hj : j < P.size) :
    t.asm.dataheap.nextfrag < t.asm.dataheap.maxfrags := by
  have hmax := hp.maxfrags
  have hcount := P.count_cases
  rw [hp.nextfrag]
  omega

theorem Partial.fits (hp : Partial P j t) (hj : j < P.size) (hd : AtData (P.packet j) tail t)
    (hccb : t.asm.ccb.len = if j = 0 then P.first.ccbBytes else 0) :
    Fits (P.packet j) (P.text j) t := by
  have hup := P.length_upTo (Nat.le_of_lt hj)
  have htext := P.length_text hj
  have hdbno : t.inp.pdh.dbno = j ∧ t.inp.pdh.seqno = P.seqno := by
    rw [hd.pdh]
    cases j with
    | zero => exact ⟨P.packet_first.dbno, P.packet_first.seqno⟩
    | succ j => exact ⟨(P.packet_continues hj).dbno, (P.packet_continues hj).seqno⟩
  refine ⟨?_, ?_, ?_, ?_, hp.allocated, ?_, fun f hl => ?_⟩
  · rw [hccb]
    split_ifs with h0
    · subst h0
      exact P.isFirst.ccb
    · exact Nat.zero_le _
  · rw [hccb, NwstgProduct.text]
    split_ifs with h0
    · subst h0
      rfl
    · rfl
  · rw [hp.heapcount]
    omega
  · rw [hp.heapcount, hp.heapsize]
    omega
  · exact hp.slot hj
  · obtain ⟨hnum, hgen⟩ := hp.last f hl
    exact ⟨hgen, hdbno.1.trans hnum.symm, hdbno.2.trans hp.seqno.symm⟩

theorem Partial.extended {t' : State} (hp : Partial P j t) (hj : j + 1 < P.size)
    (hnum : t.inp.pdh.dbno = j) (h : Extended (P.text j) t t') : Building P (j + 1) t' := by
  have hlen : (P.upTo (j + 1)).length = (P.upTo j).length + (P.text j).length := by
    rw [P.upTo_succ, List.length_append]
  obtain ⟨f, hl, hf, hgen⟩ := h.last
  refine ⟨⟨?_, ?_, ?_, ?_, ?_, ?_, ?_, ?_, ?_, ?_⟩, Nat.succ_pos j, hj, ?_⟩
  · exact h.prod.1.trans hp.seqno
  · exact h.prod.2.trans hp.nfrag
  · intro f' hl'
    cases Option.some.inj (hl.symm.trans hl')
    exact ⟨by rw [hf, hnum], hgen⟩
  · rw [h.pool]
    exact hp.allocated
  · rw [h.pool]
    exact congrArg (· + 1) hp.nextfrag
  · rw [h.pool]
    exact hp.maxfrags
  · rw [h.heapcount, hp.heapcount, hlen, Nat.add_assoc]
  · rw [h.heapsize, hp.heapsize]
  · rw [h.heap, hp.heapcount, hlen, load_store_append, hp.heap, P.upTo_succ]
  · rw [h.md5, hp.md5, P.upTo_succ]
  · intro hnil
    rw [hnil] at hl
    cases hl

theorem Partial.completed {t' : State} (hp : Partial P j t) (hj : j + 1 = P.size)
    (h : Completed (P.text j) t t') : ∃ c, t'.asm.calls = t.asm.calls ++ [c] ∧ Assembled c P := by
  obtain ⟨c, hcalls, hheap, hmd5⟩ := h.calls
  have hrest : P.rest.length = j := Nat.succ.inj hj.symm
  have hstored : P.stored = P.upTo j ++ keptText (P.text j) ++ fosTrailer := by
    rw [NwstgProduct.stored, hrest]
  refine ⟨c, hcalls, ?_, ?_⟩
  · rw [hheap, hp.heapcount, Nat.add_assoc 11, Nat.add_assoc 11, load_drop, Nat.zero_add,
      load_store_append, load_store_append, hp.heap, hstored]
  · rw [hmd5, hp.md5, hstored]

/-- The block that is due brings its product forward. -/
theorem Partial.advance (hp : Partial P j t) (hj : j < P.size) (hd : AtData (P.packet j) tail t)
    (hccb : t.asm.ccb.len = if j = 0 then P.first.ccbBytes else 0) :
    (data lib t).Ends (Advanced P j tail t) (fun _ _ => False) := by
  have hnum : t.inp.pdh.dbno = j := by
    rw [hd.pdh]
    cases j with
    | zero => exact P.packet_first.dbno
    | succ j => exact (P.packet_continues hj).dbno
  refine (data_takes (P.packet_wellFormed hj) hd (hp.fits hj hd hccb)).mono (fun t' h => ?_)
    fun _ _ h => h
  cases h with
  | more hc hrest h =>
    rw [hp.nfrag, hnum, P.complete_iff hj] at hc
    exact .more hc hrest (hp.extended (by omega) hnum h) h.calls h.pnginit
  | last hc hrest h =>
    rw [hp.nfrag, hnum, P.complete_iff hj] at hc
    exact .last hc hrest h.idle (hp.completed hc h) h.pnginit

/-- A product that has just been begun lacks all its blocks. -/
theorem Begun.toPartial {a : Asm} (h : Begun (P.packet 0) a t) : Partial P 0 t where
  seqno := by rw [h.prod, P.packet_first.seqno]
  nfrag := by rw [h.prod, P.packet_first.frags]
  last f hl := by
    rw [h.prod] at hl
    cases hl
  allocated := h.allocated
  nextfrag := h.nextfrag
  maxfrags := P.packet_first.frags ▸ h.maxfrags
  heapcount := h.heapcount
  heapsize := by
    have hsize : P.size = P.rest.length + 1 := rfl
    rw [h.heapsize, P.packet_first.frags]
    rcases P.count_cases with hn | ⟨hone, hn⟩
    · rw [if_neg (by omega), hn]
    · rw [if_pos hn, hone]
  heap := rfl
  md5 := h.md5

/-- A continuation record finds its product as it was left. -/
theorem Partial.resumed {s : State} (h : Partial P j s) (hr : Resumed s t) : Partial P j t where
  seqno := by rw [hr.prod, h.seqno]
  nfrag := by rw [hr.prod, h.nfrag]
  last f hl := by
    rw [hr.prod] at hl
    rw [hr.dataheap]
    exact h.last f hl
  allocated := by rw [hr.dataheap, h.allocated]
  nextfrag := by rw [hr.dataheap, h.nextfrag]
  maxfrags := by
    rw [hr.dataheap]
    exact h.maxfrags
  heapcount := hr.heapcount.trans h.heapcount
  heapsize := hr.heapsize.trans h.heapsize
  heap := by rw [hr.out, h.heap]
  md5 := by rw [hr.out, h.md5]

/-- A block of another product, or out of turn, drops the product in progress. -/
theorem Building.drop {Q : NwstgProduct} {k : Nat} (hp : Building Q k t) {n : Int}
    (hk : (P.packet (j + 1)).Continues n (j + 1)) (hd : AtData (P.packet (j + 1)) tail t)
    (hne : ¬ (n = Q.seqno ∧ j + 1 = k)) :
    data lib t = .exit (.again .nwstgSeq) (t.getData lib).reset := by
  have hg : (t.getData lib).v.goes = false := hd.goes
  have hpool : dsAlloc lib t.asm.dataheap = _ := dsAlloc_spec lib hp.allocated (hp.slot hp.lt)
  have hn0 : ¬ (t.getData lib).asm.prod.nfrag = 0 := by
    change ¬ t.asm.prod.nfrag = 0
    have hlt := hp.lt
    have hpos := hp.pos
    have hcount := Q.count_cases
    rw [hp.nfrag]
    omega
  obtain ⟨f, hl⟩ : ∃ f, t.asm.prod.frags.getLast? = some f :=
    ⟨_, List.getLast?_eq_some_getLast hp.linked⟩
  obtain ⟨hnum, hgen⟩ := hp.last f hl
  have hlives : (t.getData lib).asm.tailLives f = true := by
    rw [Asm.tailLives, State.getData, hpool]
    exact decide_eq_true hgen
  have hmiss : (t.getData lib).asm.prod.missing f (t.newFrag lib) = true := by
    refine decide_eq_true ?_
    by_contra hnot
    rw [not_or, not_not, not_not] at hnot
    obtain ⟨h1, h2⟩ := hnot
    have h1' : t.inp.pdh.dbno = f.fragnum + 1 := h1
    have h2' : t.inp.pdh.seqno = t.asm.prod.seqno := h2
    rw [hd.pdh, hk.dbno] at h1'
    rw [hd.pdh, hk.seqno, hp.seqno] at h2'
    exact hne ⟨h2', by omega⟩
  have hl' : (t.getData lib).asm.prod.frags.getLast? = some f := hl
  unfold data nwstgData
  simp only [hg, hl', hn0, hlives, hmiss, Bool.false_eq_true, Bool.true_eq_false, ↓reduceIte,
    Flow.bind_exit]

end Block

section Runs
variable {p : Program} {lib : Library} {s t : State} {P : NwstgProduct} {j : Nat}
  {st : Progress NwstgProduct} {tail : List UInt8}

/-- The loop as reassembly of messages, told apart by their sequence numbers. -/
abbrev assembly : Progress NwstgProduct → NwstgProduct × Nat → Progress NwstgProduct × List NwstgProduct :=
  Reassembly.step NwstgProduct.seqno NwstgProduct.size

def Stands (st : Progress NwstgProduct) (s : State) : Prop :=
  match st with
  | .idle => s.asm.prod.frags = []
  | .building P j => Building P j s

/-- What an iteration leaves of a packet: the rest of the stream, and the calls. -/
structure Served (s : State) (tail : List UInt8) (out : Progress NwstgProduct × List NwstgProduct)
    (e : Event) (t : State) : Prop where
  stands : Stands out.1 t
  rest : t.inp.rest = tail
  calls : ∃ cs, t.asm.calls = s.asm.calls ++ cs ∧ List.Forall₂ Assembled cs out.2
  pnginit : s.asm.pnginit = false → t.asm.pnginit = false
  fits : e ≠ .skipped .punt

theorem Advanced.served {a : State} (h : Advanced P j tail a t) (hcalls : a.asm.calls = s.asm.calls)
    (hpng : s.asm.pnginit = false → a.asm.pnginit = false) :
    Served s tail (Reassembly.advance NwstgProduct.size P (j + 1)) .taken t := by
  unfold Reassembly.advance
  cases h with
  | last hj hrest hidle hc hp =>
    rw [if_pos hj]
    obtain ⟨c, hcs, hass⟩ := hc
    exact ⟨hidle, hrest, ⟨[c], by rw [hcs, hcalls], .cons hass .nil⟩, fun _ => hp, nofun⟩
  | more hj hrest hb hc hp =>
    rw [if_neg hj]
    exact ⟨hb, hrest, ⟨[], by rw [hc, hcalls, List.append_nil], .nil⟩,
      fun h => hp.trans (hpng h), nofun⟩

theorem abandon_some (lib : Library) (h : s.asm.prod.frags = [] ∨ s.asm.pnginit = false) :
    ∃ a, s.asm.abandon lib = some a ∧ a.calls = s.asm.calls ∧
      (s.asm.pnginit = false → a.pnginit = false) := by
  unfold Asm.abandon
  by_cases hnil : s.asm.prod.frags = []
  · rw [if_pos hnil]
    exact ⟨_, rfl, rfl, id⟩
  · have hpng := h.resolve_left hnil
    rw [if_neg hnil, if_neg (by rw [hpng]; exact Bool.false_ne_true)]
    exact ⟨_, rfl, rfl, fun _ => hpng⟩

theorem first_serves (hp : p.ServesAll 10000)
    (hrest : s.inp.rest = (P.packet 0).bytes ++ tail)
    (hfirst : s.asm.prod.frags = [] ∨ s.asm.pnginit = false) :
    (iteration p lib s).Ends (Served s tail (Reassembly.advance NwstgProduct.size P 1) .taken)
      (fun _ _ => False) := by
  obtain ⟨a, ha, hcalls, hpng⟩ := abandon_some lib hfirst
  refine (front_first hp P.packet_first hrest ha).bind fun u hu => ?_
  obtain ⟨hd, hb⟩ := hu
  have hccb : u.asm.ccb.len = if 0 = 0 then P.first.ccbBytes else 0 := hb.ccb
  refine (hb.toPartial.advance (Nat.succ_pos _) hd hccb).mono (fun t ht => ?_) fun _ _ h => h
  exact ht.served (hb.calls.trans hcalls) fun h => hb.pnginit.trans (hpng h)

theorem orphan_serves (hp : p.ServesAll 10000) (hidle : s.asm.prod.frags = [])
    (hj : j + 1 < P.size) (hrest : s.inp.rest = (P.packet (j + 1)).bytes ++ tail) :
    (iteration p lib s).Ends (fun _ => False)
      (fun e t => e = .again .noHeader ∧ Served s tail (.idle, []) (.skipped .noHeader) t) := by
  refine Flow.Ends.bind ((front_continues hp (P.packet_continues hj) hrest).mono (fun _ h => h) ?_)
    fun u hu => absurd hidle hu.1
  intro e t ht
  have hr := ht.resumed
  refine ⟨ht.exit, ?_, ht.rest, ⟨[], ?_, .nil⟩, fun h => hr.pnginit.trans h, nofun⟩
  · change t.asm.prod.frags = []
    rw [hr.prod, hidle]
  · rw [hr.calls, List.append_nil]

theorem Building.resumed {k : Nat} (h : Building P k s) (hr : Resumed s t) : Building P k t :=
  ⟨h.toPartial.resumed hr, h.pos, h.lt, by rw [hr.prod]; exact h.linked⟩

theorem due_serves (hp : p.ServesAll 10000) (hb : Building P (j + 1) s)
    (hrest : s.inp.rest = (P.packet (j + 1)).bytes ++ tail) :
    (iteration p lib s).Ends
      (Served s tail (Reassembly.advance NwstgProduct.size P (j + 2)) .taken) (fun _ _ => False) := by
  refine Flow.Ends.bind ((front_continues hp (P.packet_continues hb.lt) hrest).mono (fun _ h => h)
    fun _ _ h => hb.linked h.idle) fun u hu => ?_
  obtain ⟨-, hd, hr⟩ := hu
  refine ((hb.toPartial.resumed hr).advance hb.lt hd hr.ccb).mono (fun t ht => ?_) fun _ _ h => h
  exact ht.served hr.calls fun h => hr.pnginit.trans h

theorem stray_serves (hp : p.ServesAll 10000) {Q : NwstgProduct} {k : Nat} (hb : Building Q k s)
    (hj : j + 1 < P.size) (hrest : s.inp.rest = (P.packet (j + 1)).bytes ++ tail)
    (hne : ¬ (P.seqno = Q.seqno ∧ j + 1 = k)) :
    (iteration p lib s).Ends (fun _ => False)
      (fun e t => e = .again .nwstgSeq ∧ Served s tail (.idle, []) (.skipped .nwstgSeq) t) := by
  refine Flow.Ends.bind ((front_continues hp (P.packet_continues hj) hrest).mono (fun _ h => h)
    fun _ _ h => absurd h.idle hb.linked) fun u hu => ?_
  obtain ⟨-, hd, hr⟩ := hu
  rw [(hb.resumed hr).drop (P.packet_continues hj) hd hne]
  refine ⟨rfl, rfl, hd.rest, ⟨[], ?_, .nil⟩, fun h => hr.pnginit.trans h, nofun⟩
  change u.asm.calls = _
  rw [hr.calls, List.append_nil]

theorem step_of_ends {out : Progress NwstgProduct × List NwstgProduct} {r : Reason}
    (h : (iteration p lib s).Ends (Served s tail out .taken)
      (fun e t => e = .again r ∧ Served s tail out (.skipped r) t)) :
    ∃ e t, Step p lib s e t ∧ Served s tail out e t := by
  rcases h.cases with ⟨t, hit, ht⟩ | ⟨e, t, hit, rfl, ht⟩
  · exact ⟨.taken, t, ⟨t, .inl ⟨hit, rfl⟩, rfl, fun _ => rfl⟩, ht⟩
  · exact ⟨.skipped r, t, ⟨t, .inr ⟨r, hit, rfl⟩, rfl, fun _ => rfl⟩, ht⟩

/-- One packet, one iteration: the loop goes the way of the reassembly. What is under
way plays no part in block 0. -/
theorem step_serves (lib : Library) (hp : p.ServesAll 10000) (hst : j ≠ 0 → Stands st s) (hj : j < P.size)
    (hrest : s.inp.rest = (P.packet j).bytes ++ tail)
    (hfirst : j = 0 → s.asm.prod.frags = [] ∨ s.asm.pnginit = false)
    (hdist : ∀ Q k, st = .building Q k → P.seqno = Q.seqno → P = Q) :
    ∃ e t, Step p lib s e t ∧ Served s tail (assembly st (P, j)) e t := by
  cases j with
  | zero =>
    have hout : assembly st (P, 0) = Reassembly.advance NwstgProduct.size P 1 := by
      cases st <;> rfl
    rw [hout]
    exact step_of_ends (r := .noHeader)
      ((first_serves hp hrest (hfirst rfl)).mono (fun _ h => h) fun _ _ h => h.elim)
  | succ j =>
    have hst := hst (Nat.succ_ne_zero j)
    cases st with
    | idle =>
      exact step_of_ends ((orphan_serves hp hst hj hrest).mono (fun _ h => h.elim) fun _ _ h => h)
    | building Q k =>
      by_cases h : P.seqno = Q.seqno ∧ j + 1 = k
      · obtain rfl := hdist Q k rfl h.1
        obtain rfl := h.2
        have hout : assembly (.building P (j + 1)) (P, j + 1) =
            Reassembly.advance NwstgProduct.size P (j + 2) := if_pos ⟨rfl, rfl⟩
        rw [hout]
        exact step_of_ends (r := .noHeader)
          ((due_serves hp hst hrest).mono (fun _ h => h) fun _ _ h => h.elim)
      · have hout : assembly (.building Q k) (P, j + 1) = (.idle, []) := if_neg h
        rw [hout]
        exact step_of_ends
          ((stray_serves hp hst hj hrest h).mono (fun _ h => h.elim) fun _ _ h => h)

/-- The packets named by product and block, one behind the other. -/
def stream (xs : List (NwstgProduct × Nat)) : List UInt8 :=
  xs.flatMap fun x => (x.1.packet x.2).bytes

/-- From one state the loop goes one way, the indeterminate variables apart. -/
theorem Step.same {e e' : Event} {t' : State} (h : Step p lib s e t) (h' : Step p lib s e' t') :
    e = e' ∧ t' = { t with v := t'.v } ∧ (p.keepsVars = true → t' = t) := by
  obtain ⟨u, hor, ht, hv⟩ := h
  obtain ⟨u', hor', ht', hv'⟩ := h'
  have hu : e = e' ∧ u = u' := by
    rcases hor with ⟨hit, rfl⟩ | ⟨r, hit, rfl⟩
    · rcases hor' with ⟨hit', rfl⟩ | ⟨r', hit', rfl⟩
      · exact ⟨rfl, Flow.go.inj (hit.symm.trans hit')⟩
      · exact nomatch hit.symm.trans hit'
    · rcases hor' with ⟨hit', rfl⟩ | ⟨r', hit', rfl⟩
      · exact nomatch hit.symm.trans hit'
      · obtain ⟨he, hs⟩ := Flow.exit.inj (hit.symm.trans hit')
        cases he
        exact ⟨rfl, hs⟩
  obtain ⟨rfl, rfl⟩ := hu
  refine ⟨rfl, ?_, fun hk => ?_⟩
  · rw [ht', ht]
  · rw [ht, ht', hv hk, hv' hk]

theorem Step.unique (hk : p.keepsVars = true) {e e' : Event} {t' : State}
    (h : Step p lib s e t) (h' : Step p lib s e' t') : e = e' ∧ t = t' :=
  ⟨(h.same h').1, ((h.same h').2.2 hk).symm⟩

/-- Nothing happens at the end of the stream. -/
theorem Step.rest_ne_nil {e : Event} (h : Step p lib s e t) : s.inp.rest ≠ [] := by
  intro hnil
  have hsync : (sync p s.inp).Ends (fun _ => False) (fun e _ => e = .stop ∨ e = .blocked) := by
    refine Flow.Ends.bind ((Input.read_ends ..).mono (fun _ h => h) fun _ _ h => h.2) fun j hj => ?_
    obtain ⟨-, -, hlen⟩ := hj
    rw [hnil] at hlen
    exact absurd hlen (by decide)
  have hit : (iteration p lib s).Ends (fun _ => False) (fun e _ => e = .stop ∨ e = .blocked) := by
    have hwithin : ((sync p s.inp).within s.setInp).Ends (fun _ => False)
        (fun e _ => e = .stop ∨ e = .blocked) := Flow.Ends.within hsync
    have hfront : (front p lib s).Ends (fun _ => False) (fun e _ => e = .stop ∨ e = .blocked) := by
      refine Flow.Ends.bind (P := fun _ => False) ?_ fun _ h => h.elim
      exact Flow.Ends.bind hwithin fun _ h => h.elim
    exact Flow.Ends.bind hfront fun _ h => h.elim
  obtain ⟨u, ⟨hu, -⟩ | ⟨r, hu, -⟩, -⟩ := h
  · exact hit.go hu
  · rcases hit.exit hu with h | h <;> cases h

theorem exists_of_forall₂ {α β : Type*} {R : α → β → Prop} {as : List α} {bs : List β}
    (h : List.Forall₂ R as bs) {a : α} (ha : a ∈ as) : ∃ b ∈ bs, R a b := by
  induction h with
  | nil => cases ha
  | cons hr _ ih =>
    rcases List.mem_cons.1 ha with rfl | ha
    · exact ⟨_, List.mem_cons_self, hr⟩
    · obtain ⟨b, hb, hab⟩ := ih ha
      exact ⟨b, List.mem_cons_of_mem _ hb, hab⟩

theorem forall₂_iff_of {α β : Type*} {R S : α → β → Prop} {C : β → Prop} {as : List α}
    {bs : List β} (h : List.Forall₂ R as bs) (hiff : ∀ a b, R a b → (S a b ↔ C b)) :
    List.Forall₂ S as bs ↔ ∀ b ∈ bs, C b := by
  induction h with
  | nil => exact iff_of_true .nil nofun
  | cons hr _ ih => rw [List.forall₂_cons, List.forall_mem_cons, hiff _ _ hr, ih]

/-- What holds between packets of the products `sent`. Where the variables are lost,
nothing holds of a product in progress; it stays so if no packet goes on with it. -/
structure Midway (p : Program) (sent : Set NwstgProduct) (s : State) : Prop where
  ahead : ∃ st xs, (p.keepsVars = true → Stands st s) ∧ s.inp.rest = stream xs ∧
    (∀ x ∈ xs, x.1 ∈ sent ∧ x.2 < x.1.size) ∧ (p.keepsVars = true ∨ ∀ x ∈ xs, x.2 = 0) ∧
    ∀ P j, st = .building P j → P ∈ sent
  pnginit : s.asm.pnginit = false
  calls : ∀ c ∈ s.asm.calls, ∃ P ∈ sent, Assembled c P

theorem Midway.step {sent : Set NwstgProduct} (hp : p.ServesAll 10000)
    (hdist : ∀ P ∈ sent, ∀ Q ∈ sent, P.seqno = Q.seqno → P = Q) {e : Event} (h : Midway p sent s)
    (hs : Step p lib s e t) : Midway p sent t := by
  obtain ⟨st, xs, hst, hrest, hxs, hkept, hsent⟩ := h.ahead
  cases xs with
  | nil => exact absurd hrest hs.rest_ne_nil
  | cons x xs =>
    obtain ⟨P, j⟩ := x
    obtain ⟨hP, hj⟩ := hxs (P, j) List.mem_cons_self
    have hrest' : s.inp.rest = (P.packet j).bytes ++ stream xs := hrest
    have hst' : j ≠ 0 → Stands st s :=
      fun h0 => hst (hkept.resolve_right fun hall => h0 (hall (P, j) List.mem_cons_self))
    obtain ⟨e', t', hs', hserved⟩ := step_serves lib hp hst' hj hrest'
      (fun _ => .inr h.pnginit) (fun Q k hq heq => hdist P hP Q (hsent Q k hq) heq)
    obtain ⟨rfl, hsame, hkeep⟩ := hs'.same hs
    obtain ⟨hnext, hout⟩ := step_from NwstgProduct.seqno NwstgProduct.size (C := (· ∈ sent))
      (x := (P, j)) hP hsent
    have hasm : t.asm = t'.asm := by rw [hsame]
    have hinp : t.inp = t'.inp := by rw [hsame]
    refine ⟨⟨_, xs, fun hk => hkeep hk ▸ hserved.stands, hinp ▸ hserved.rest,
      fun x hx => hxs x (List.mem_cons_of_mem _ hx),
      hkept.imp_right fun hall x hx => hall x (List.mem_cons_of_mem _ hx), hnext⟩,
      hasm ▸ hserved.pnginit h.pnginit, ?_⟩
    obtain ⟨cs, hcs, hall⟩ := hserved.calls
    intro c hc
    rw [hasm, hcs] at hc
    rcases List.mem_append.1 hc with hc | hc
    · exact h.calls c hc
    · obtain ⟨Q, hQ, hass⟩ := exists_of_forall₂ hall hc
      exact ⟨Q, hout Q hQ, hass⟩

/-- A text that does not end in nothing but trailers is stored as it should be. -/
theorem NwstgProduct.stored_eq_body_iff (P : NwstgProduct) :
    P.stored = P.body ↔ ¬ TrailersOnly (P.text P.rest.length) := by
  unfold NwstgProduct.stored NwstgProduct.body keptText
  split_ifs with h
  · refine iff_of_false (fun heq => ?_) (not_not.2 h)
    have hlen := congrArg List.length heq
    simp only [h.2, List.length_append, fosTrailer, List.length_cons, List.length_nil] at hlen
    omega
  · exact iff_of_true rfl h

theorem Assembled.body_iff {c : Call} (h : Assembled c P) :
    c.heap.drop 11 = P.body ∧ c.md5 = P.body ↔ ¬ TrailersOnly (P.text P.rest.length) := by
  rw [h.1, h.2, and_self, P.stored_eq_body_iff]

/-- Whatever is lost, doubled or comes out of order: what is handed over is one of
the products that were sent, as long as the last block of none of these consists
of FOS trailers only, and as the variables of the loop are kept from packet to
packet or no packet has to go on with a product. -/
theorem handed_over_was_sent (hp : p.ServesAll 10000) (sent : Set NwstgProduct)
    (hdist : ∀ P ∈ sent, ∀ Q ∈ sent, P.seqno = Q.seqno → P = Q)
    (hlast : ∀ P ∈ sent, ¬ TrailersOnly (P.text P.rest.length))
    (xs : List (NwstgProduct × Nat)) (hxs : ∀ x ∈ xs, x.1 ∈ sent ∧ x.2 < x.1.size)
    (hkept : p.keepsVars = true ∨ ∀ x ∈ xs, x.2 = 0)
    (h0 : Initial s) (hs : s.inp.rest = stream xs) {es : List Event}
    (h : Trace (Step p lib) s es t) :
    ∀ c ∈ t.asm.calls, ∃ P ∈ sent, c.heap.drop 11 = P.body := by
  have hmid : Midway p sent t := h.invariant (fun _ _ _ hm hst => hm.step hp hdist hst)
    ⟨⟨.idle, xs, fun _ => h0.frags, hs, hxs, hkept, by rintro P j ⟨⟩⟩, h0.pnginit,
      by rw [h0.calls.1]; rintro _ ⟨⟩⟩
  intro c hc
  obtain ⟨P, hP, hheap, -⟩ := hmid.calls c hc
  exact ⟨P, hP, hheap.trans (P.stored_eq_body_iff.2 (hlast P hP))⟩

theorem carries_block (hp : p.ServesAll 10000) (hj : j < P.size)
    (hrest : s.inp.rest = (P.packet j).bytes ++ tail) :
    Carries p lib (fun n => n = P.seqno) s := by
  cases j with
  | zero =>
    have hk := P.packet_first
    have hpsh : (P.packet 0).psh ≠ [] :=
      List.ne_nil_of_length_pos (Nat.lt_of_lt_of_le (by decide) hk.psh_length)
    exact carries_packet hp hk.toWellFormed (.inl hpsh) hrest hk.seqno
  | succ j =>
    have hk := P.packet_continues hj
    exact carries_packet hp hk.toWellFormed (.inr hk.transtype) hrest hk.seqno

/-- Packets that disturb no other product. -/
theorem run_serves (lib : Library) (hp : p.ServesAll 10000) {xs : List (NwstgProduct × Nat)}
    (hxs : ∀ x ∈ xs, x.2 < x.1.size) (hst : Stands st s)
    (hord : Orderly NwstgProduct.seqno NwstgProduct.size st xs)
    (hrest : s.inp.rest = stream xs ++ tail) :
    ∃ es t, Trace (Guarded (Carries p lib fun n => ∃ x ∈ xs, n = x.1.seqno) (Step p lib)) s es t ∧
      es.length = xs.length ∧ .skipped .punt ∉ es ∧
      Stands (run NwstgProduct.seqno NwstgProduct.size st xs).1 t ∧ t.inp.rest = tail ∧
      ∃ cs, t.asm.calls = s.asm.calls ++ cs ∧
        List.Forall₂ Assembled cs (run NwstgProduct.seqno NwstgProduct.size st xs).2 := by
  induction xs generalizing s st with
  | nil => exact ⟨[], s, .nil s, rfl, nofun, hst, hrest, [], by rw [List.append_nil], .nil⟩
  | cons x xs ih =>
    obtain ⟨P, j⟩ := x
    have hrest' : s.inp.rest = (P.packet j).bytes ++ (stream xs ++ tail) := by
      rw [hrest, stream, List.flatMap_cons, List.append_assoc]
      rfl
    have hfirst : j = 0 → s.asm.prod.frags = [] ∨ s.asm.pnginit = false := by
      intro h0
      rcases hord.1 with ⟨-, rfl⟩ | ⟨hne, -⟩
      · exact .inl hst
      · exact absurd h0 hne
    have hdist : ∀ Q k, st = .building Q k → P.seqno = Q.seqno → P = Q := by
      rintro Q k rfl -
      rcases hord.1 with ⟨-, hidle⟩ | ⟨-, k', hb⟩
      · cases hidle
      · cases hb
        rfl
    obtain ⟨e, u, hs, hserved⟩ :=
      step_serves lib hp (fun _ => hst) (hxs (P, j) List.mem_cons_self) hrest' hfirst hdist
    obtain ⟨es, t, htr, hlen, hfits, hstand, htail, cs, hcs, hall⟩ :=
      ih (fun x hx => hxs x (List.mem_cons_of_mem _ hx)) hserved.stands hord.2 hserved.rest
    obtain ⟨ds, hds, hall'⟩ := hserved.calls
    have hcarry : Carries p lib (fun n => ∃ x ∈ (P, j) :: xs, n = x.1.seqno) s := by
      refine (carries_block hp (hxs (P, j) List.mem_cons_self) hrest').mono ?_ fun _ _ h => h
      exact fun t ht => ⟨ht.1, (P, j), List.mem_cons_self, ht.2⟩
    have hlater : ∀ s, Carries p lib (fun n => ∃ x ∈ xs, n = x.1.seqno) s →
        Carries p lib (fun n => ∃ x ∈ (P, j) :: xs, n = x.1.seqno) s := by
      refine fun s h => h.mono (fun t ht => ⟨ht.1, ?_⟩) fun _ _ h => h
      obtain ⟨x, hx, hn⟩ := ht.2
      exact ⟨x, List.mem_cons_of_mem _ hx, hn⟩
    refine ⟨e :: es, t, .cons ⟨hcarry, hs⟩ (htr.guard_mono hlater), congrArg (· + 1) hlen, ?_, hstand,
      htail, ds ++ cs, ?_, ?_⟩
    · rw [List.mem_cons, not_or]
      exact ⟨hserved.fits.symm, hfits⟩
    · rw [hcs, hds, List.append_assoc]
    · exact List.rel_append hall' hall

/-- The packets of whole products, each in order. -/
def inOrder (Ps : List NwstgProduct) : List (NwstgProduct × Nat) :=
  Ps.flatMap (parts NwstgProduct.size)

/-- The packets are gone, none was punted, and there is one call for each product,
in order, with its text behind the FOS header and in the MD5 context. -/
def Delivers (p : Program) (lib : Library) (s : State) (Ps : List NwstgProduct)
    (tail : List UInt8) : Prop :=
  ∃ es t cs, Trace (Step p lib) s es t ∧ es.length = (inOrder Ps).length ∧
    .skipped .punt ∉ es ∧ t.inp.rest = tail ∧ t.asm.prod.frags = [] ∧
    t.asm.calls = s.asm.calls ++ cs ∧
    List.Forall₂ (fun c P => c.heap.drop 11 = P.body ∧ c.md5 = P.body) cs Ps

/-- What the loop makes of them decides. -/
theorem delivers_iff_bodies (lib : Library) (hp : p.ServesAll 10000) (hk : p.keepsVars = true)
    (Ps : List NwstgProduct) (hidle : s.asm.prod.frags = [])
    (hrest : s.inp.rest = stream (inOrder Ps) ++ tail) :
    ∃ cs, List.Forall₂ Assembled cs Ps ∧ (Delivers p lib s Ps tail ↔
      List.Forall₂ (fun c P => c.heap.drop 11 = P.body ∧ c.md5 = P.body) cs Ps) := by
  have hsize : ∀ P ∈ Ps, 0 < P.size := fun P _ => Nat.succ_pos _
  have hxs : ∀ x ∈ inOrder Ps, x.2 < x.1.size := by
    intro x hx
    obtain ⟨P, -, hx⟩ := List.mem_flatMap.1 hx
    exact mem_parts NwstgProduct.size hx
  have hdet : ∀ s e t e' t', Step p lib s e t → Step p lib s e' t' → e = e' ∧ t = t' :=
    fun _ _ _ _ _ h h' => h.unique hk h'
  obtain ⟨es, t, htr, hlen, hfits, hstand, htail, cs, hcs, hall⟩ :=
    run_serves lib hp hxs (show Stands .idle s from hidle) (orderly_messages _ _ Ps hsize) hrest
  have hrun := run_messages NwstgProduct.seqno NwstgProduct.size Ps hsize
  rw [inOrder, hrun] at hstand hall
  refine ⟨cs, hall, ?_, ?_⟩
  · rintro ⟨es', t', cs', htr', hlen', -, -, -, hcs', hall'⟩
    obtain ⟨-, rfl⟩ := htr.unguarded.unique hdet htr' (hlen.trans hlen'.symm)
    exact List.append_cancel_left (hcs.symm.trans hcs') ▸ hall'
  · exact fun hbody => ⟨es, t, cs, htr.unguarded, hlen, hfits, htail, hstand, hcs, hbody⟩

/-- From any idle state, products that arrive complete and in order are handed over
one by one if and only if none has a last block of FOS trailers only. -/
theorem delivers_iff (hp : p.ServesAll 10000) (hk : p.keepsVars = true)
    (Ps : List NwstgProduct) (hidle : s.asm.prod.frags = [])
    (hrest : s.inp.rest = stream (inOrder Ps) ++ tail) :
    Delivers p lib s Ps tail ↔ ∀ P ∈ Ps, ¬ TrailersOnly (P.text P.rest.length) := by
  obtain ⟨cs, hall, hiff⟩ := delivers_iff_bodies lib hp hk Ps hidle hrest
  rw [hiff, forall₂_iff_of hall fun c P h => h.body_iff]

end Runs

section Instances

/-- Block 0 of 2; the CCB has two bytes. -/
def headPacket : Packet where
  sbn := [255, 0, 20, 0, 3, 5, 0, 0, 0, 0, 0, 1, 0, 1, 1, 29]
  pdh := [20, 0, 0, 52, 0, 0, 0, 0, 0, 3, 1, 1, 0, 0, 0, 7]
  psh := [0, 0, 0, 36] ++ List.replicate 10 0 ++ [0, 2] ++ List.replicate 20 0
  block := [0, 1, 65]

def tailPacket (block : List UInt8) : Packet where
  sbn := [255, 0, 20, 0, 3, 5, 0, 0, 0, 0, 0, 2, 0, 1, 1, 30]
  pdh := [20, 1, 0, 16, 0, 1, 0, 0, 0, UInt8.ofNat block.length, 1, 1, 0, 0, 0, 7]
  psh := []
  block := block

theorem headPacket_first : headPacket.First 7 2 := by
  constructor <;> decide +kernel

def twoBlocks (block : List UInt8) (h : (tailPacket block).Continues 7 1) : NwstgProduct where
  seqno := 7
  nfrag := 2
  first := headPacket
  rest := [tailPacket block]
  isFirst := headPacket_first
  continues
    | 0, _ => h
  count := .inl rfl

/-- The last block is text and a trailer. -/
def textProduct : NwstgProduct := twoBlocks [66, 13, 13, 10, 3] (by constructor <;> decide +kernel)

/-- The last block is a trailer. -/
def trailerProduct : NwstgProduct := twoBlocks [13, 13, 10, 3] (by constructor <;> decide +kernel)

theorem textProduct_last : ¬ TrailersOnly (textProduct.text textProduct.rest.length) := by
  decide

/-- Block 1 comes before block 0, and block 0 comes twice. -/
def disordered : List (NwstgProduct × Nat) := [1, 0, 0, 1].map fun j => (textProduct, j)

theorem handed_over_was_sent_run :
    ∃ es t, Trace (Step readnoaaport .plain) (State.fresh (stream disordered) .blank) es t ∧
      t.asm.calls.length = 1 ∧ ∀ c ∈ t.asm.calls, c.heap.drop 11 = textProduct.body := by
  obtain ⟨es, h⟩ := iterate_trace readnoaaport .plain 4 (State.fresh (stream disordered) .blank)
  have hxs : ∀ x ∈ disordered, x.1 ∈ ({textProduct} : Set NwstgProduct) ∧ x.2 < x.1.size := by
    intro x hx
    obtain ⟨j, hj, rfl⟩ := List.mem_map.1 hx
    have hlt : ∀ j ∈ [1, 0, 0, 1], j < 2 := by decide
    exact ⟨rfl, hlt j hj⟩
  refine ⟨es, _, h, by decide +kernel, fun c hc => ?_⟩
  obtain ⟨P, rfl, hP⟩ := handed_over_was_sent (readnoaaport_servesAll 10000) {textProduct}
    (by rintro P rfl Q rfl -; rfl) (by rintro P rfl; exact textProduct_last) disordered hxs
    (.inl rfl) (State.fresh_initial ..) rfl h c hc
  exact hP

theorem trailer_doubled :
    ∃ es t, Trace (Step readnoaaport .plain)
        (State.fresh (stream [(trailerProduct, 0), (trailerProduct, 1)]) .blank) es t ∧
      ∃ c ∈ t.asm.calls, c.heap.drop 11 ≠ trailerProduct.body := by
  obtain ⟨es, h⟩ := iterate_trace readnoaaport .plain 2
    (State.fresh (stream [(trailerProduct, 0), (trailerProduct, 1)]) .blank)
  refine ⟨es, _, h, ?_⟩
  decide +kernel

theorem delivers_iff_run :
    Delivers readnoaaport .plain (State.fresh (stream (inOrder (List.replicate 2 textProduct))) .blank)
      (List.replicate 2 textProduct) [] := by
  refine (delivers_iff (readnoaaport_servesAll 10000) rfl _ rfl (List.append_nil _).symm).2 ?_
  intro P hP
  exact List.eq_of_mem_replicate hP ▸ textProduct_last

theorem not_delivers_trailer_block :
    ¬ Delivers readnoaaport .plain (State.fresh (stream (inOrder [trailerProduct])) .blank)
      [trailerProduct] [] := by
  obtain ⟨cs, hall, hiff⟩ := delivers_iff_bodies .plain (readnoaaport_servesAll 10000) rfl
    [trailerProduct] (s := State.fresh (stream (inOrder [trailerProduct])) .blank) rfl
    (List.append_nil _).symm
  rw [hiff]
  intro hbody
  cases hall with
  | cons h =>
    cases hbody with
    | cons hb =>
      have heq : trailerProduct.stored = trailerProduct.body := h.1.symm.trans hb.1
      exact absurd heq (by decide)

end Instances
end Noaaport
