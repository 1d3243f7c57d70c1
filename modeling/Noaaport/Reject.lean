import Noaaport.DataPhase

/-! Packets that are passed over while a product is in progress: what they leave
of the state it will be inserted from. -/
namespace Noaaport
open Lib

/-- The members of `psh` that the insertion of a product reads. -/
structure Psh.SameProduct (psh psh' : Psh) : Prop where
  pcat : psh'.pcat = psh.pcat
  ptype : psh'.ptype = psh.ptype
  frags : psh'.frags = psh.frags
  metadata : psh'.metadata = psh.metadata
  metaoff : psh'.metaoff = psh.metaoff
  ccbmode : psh'.ccbmode = psh.ccbmode
  ccbsubmode : psh'.ccbsubmode = psh.ccbsubmode

theorem Psh.SameProduct.refl (psh : Psh) : psh.SameProduct psh :=
  ⟨rfl, rfl, rfl, rfl, rfl, rfl, rfl⟩

/-- Everything the product in progress will be inserted from is as it was. -/
structure Undisturbed (s t : State) : Prop where
  prod : t.asm.prod = s.asm.prod
  heap : t.asm.out.memheap = s.asm.out.memheap
  md5 : t.asm.out.md5 = s.asm.out.md5
  heapcount : t.v.heapcount = s.v.heapcount
  prodName : t.v.prodName = s.v.prodName
  psh : s.asm.psh.SameProduct t.asm.psh

/-- Behind the PDH: the packet's PSH, to be refused for its length, differs from
that of the product in progress; or a packet without PSH, of the transfer type
that ends a product, comes while `psh.frags` is set. -/
def Disturbs (p : Program) (u : State) : Prop :=
  u.inp.pdh.pshlen ≠ 0 ∧ PshRejected p u ∧ ¬ u.asm.psh.SameProduct u.readPsh ∨
    u.inp.pdh.pshlen = 0 ∧ u.inp.pdh.transtype &&& 4 > 0 ∧ u.asm.psh.frags ≠ 0

/-- The same of an iteration: of its packet and the state it finds. -/
def KeepsPsh (p : Program) (s : State) : Prop :=
  (((sync p s.inp).within s.setInp).bind (definition p)).Ends (fun u => ¬ Disturbs p u)
    (fun _ _ => True)

section Exit
variable {p : Program} {lib : Library} {s u t : State} {e : Exit} {r : Reason}

theorem Untouched.undisturbed (h : Untouched s t) : Undisturbed s t where
  prod := by rw [h.asm]
  heap := by rw [h.asm]
  md5 := by rw [h.asm]
  heapcount := h.heapcount
  prodName := h.prodName
  psh := by
    rw [h.asm]
    exact .refl _

/-- Behind the PDH nothing has been touched yet. -/
theorem Defined.since {i : Input} (h : Defined (s.setInp i) u) : Untouched s u :=
  ⟨h.asm, h.untouched.heapcount, h.untouched.heapsize, h.untouched.prodName⟩

theorem Untouched.undisturbed_iff (h : Untouched s u) : Undisturbed u t ↔ Undisturbed s t := by
  constructor
  · intro hu
    obtain ⟨h1, h2, h3, h4, h5, h6⟩ := hu
    rw [h.asm] at h1 h2 h3 h6
    rw [h.heapcount] at h4
    rw [h.prodName] at h5
    exact ⟨h1, h2, h3, h4, h5, h6⟩
  · intro hs
    obtain ⟨h1, h2, h3, h4, h5, h6⟩ := hs
    rw [← h.asm] at h1 h2 h3 h6
    rw [← h.heapcount] at h4
    rw [← h.prodName] at h5
    exact ⟨h1, h2, h3, h4, h5, h6⟩

theorem HeaderExit.undisturbed_iff (h : HeaderExit p lib u (.again r) t)
    (hp : u.inp.pdh.pshlen ≠ 0) (hne : t.asm.prod.frags ≠ []) :
    Undisturbed u t ↔ ¬ Disturbs p u := by
  cases h with
  | untouched h hrej =>
    refine iff_of_true h.undisturbed ?_
    rintro (⟨-, hr, -⟩ | ⟨h0, -⟩)
    · exact hrej hr
    · exact hp h0
  | rejected _ hrej ha hv =>
    constructor
    · intro hun hd
      have hpsh := hun.psh
      rw [ha] at hpsh
      rcases hd with ⟨-, -, hd⟩ | ⟨h0, -⟩
      · exact hd hpsh
      · exact hp h0
    · intro hd
      have hpsh : u.asm.psh.SameProduct u.readPsh := by
        by_contra hdiff
        exact hd (.inl ⟨hp, hrej, hdiff⟩)
      exact ⟨by rw [ha], by rw [ha], by rw [ha], by rw [hv], by rw [hv], by rw [ha]; exact hpsh⟩
  | fault he => cases he
  | started a _ hst => exact absurd hst.frags hne

/-- A packet without PSH: all that can differ is the number of fragments. -/
theorem undisturbed_iff_frags (h0 : u.inp.pdh.pshlen = 0) (hprod : t.asm.prod = u.asm.prod)
    (hout : t.asm.out = u.asm.out) (hcount : t.v.heapcount = u.v.heapcount)
    (hname : t.v.prodName = u.v.prodName) (hpsh : t.asm.psh = u.continued.asm.psh) :
    Undisturbed u t ↔ ¬ Disturbs p u := by
  have hfr : u.asm.psh.SameProduct u.continued.asm.psh ↔
      ¬ (u.inp.pdh.transtype &&& 4 > 0 ∧ u.asm.psh.frags ≠ 0) := by
    by_cases hlast : u.inp.pdh.transtype &&& 4 > 0
    · simp only [State.continued, hlast, ↓reduceIte, true_and, not_not]
      constructor
      · exact fun h => h.frags.symm
      · exact fun h => ⟨rfl, rfl, h.symm, rfl, rfl, rfl, rfl⟩
    · simp only [State.continued, hlast, ↓reduceIte, false_and, not_false_eq_true, iff_true]
      exact .refl _
  constructor
  · intro hun hd
    rcases hd with ⟨hp, -⟩ | ⟨-, hd⟩
    · exact hp h0
    · have h := hun.psh
      rw [hpsh] at h
      exact hfr.1 h hd
  · intro hd
    refine ⟨hprod, by rw [hout], by rw [hout], hcount, hname, ?_⟩
    rw [hpsh]
    exact hfr.2 fun h => hd (.inr ⟨h0, h⟩)

theorem rerouteChannel4_untouched (s : State) : Untouched s s.rerouteChannel4 := by
  unfold State.rerouteChannel4
  split_ifs
  · exact ⟨rfl, rfl, rfl, rfl⟩
  · exact .refl s

theorem ContinuationExit.undisturbed_iff (h : ContinuationExit u e t)
    (h0 : u.inp.pdh.pshlen = 0) : Undisturbed u t ↔ ¬ Disturbs p u := by
  have hv := rerouteChannel4_untouched u
  refine undisturbed_iff_frags h0 (by rw [h.asm]; rfl) (by rw [h.asm]; rfl) ?_ ?_ (by rw [h.asm])
  · rw [h.vars]
    exact hv.heapcount
  · rw [h.vars]
    exact hv.prodName

/-- What the block exits leave of the state at "Get the data". -/
theorem DataExit.kept (h : DataExit lib s (.again r) t) (hne : t.asm.prod.frags ≠ []) :
    t.asm.prod = s.asm.prod ∧ t.asm.out = s.asm.out ∧ t.v.heapcount = s.v.heapcount ∧
      t.v.prodName = s.v.prodName ∧ t.asm.psh = s.asm.psh := by
  cases h with
  | goes _ h =>
    cases h with
    | missing => exact absurd rfl hne
    | noImage => exact ⟨rfl, rfl, rfl, rfl, rfl⟩
    | stuck _ _ h => exact absurd rfl (h r)
  | nwstg _ h =>
    cases h with
    | missing => exact absurd rfl hne
    | punt => exact ⟨rfl, rfl, rfl, rfl, rfl⟩
    | stuck _ _ h => exact absurd rfl (h r)

theorem keepsPsh_iff {i : Input} (hs : sync p s.inp = .go i)
    (hu : definition p (s.setInp i) = .go u) : KeepsPsh p s ↔ ¬ Disturbs p u := by
  unfold KeepsPsh
  rw [hs, Flow.within_go, Flow.bind_go, hu]
  rfl

/-- An iteration that is broken off and leaves a product in progress (so has
neither started one nor dropped it) leaves what it will be inserted from alone
exactly when its packet keeps `psh`. -/
theorem undisturbed_iff_keepsPsh (h : iteration p lib s = .exit (.again r) t)
    (hne : t.asm.prod.frags ≠ []) : Undisturbed s t ↔ KeepsPsh p s := by
  have hcase := (iteration_ends p lib s).exit h r rfl
  cases hcase with
  | early _ _ hx =>
    cases hx with
    | untouched hun hno =>
      refine iff_of_true hun.undisturbed ?_
      unfold KeepsPsh
      cases hs : sync p s.inp with
      | exit => trivial
      | go i =>
        rw [Flow.within_go, Flow.bind_go]
        cases hu : definition p (s.setInp i) with
        | exit => trivial
        | go u => exact absurd hu (hno i hs u)
    | header i u hs hu hd hp hx =>
      have hun := hd.since
      rw [keepsPsh_iff hs hu, ← hun.undisturbed_iff]
      exact hx.undisturbed_iff hp hne
    | continuation i u hs hu hd hp hx =>
      have hun := hd.since
      rw [keepsPsh_iff hs hu, ← hun.undisturbed_iff]
      exact hx.undisturbed_iff hp
  | refused _ w _ hw hf hx =>
    obtain ⟨hprod, hout, hcount, hname, hpsh⟩ := hx.kept hne
    cases hf with
    | header i u hs hu hd hp hgo =>
      -- the product has just been started: it has no fragment yet
      obtain ⟨a, -, hst⟩ := hgo.started
      rw [hprod] at hne
      exact absurd hst.frags hne
    | continuation i u hs hu hd hp hgo =>
      have hun := hd.since
      have hv := rerouteChannel4_untouched u
      rw [keepsPsh_iff hs hu, ← hun.undisturbed_iff]
      refine undisturbed_iff_frags hp ?_ ?_ ?_ ?_ ?_
      · rw [hprod, hgo.asm]
        rfl
      · rw [hout, hgo.asm]
        rfl
      · rw [hcount, hgo.vars, hv.heapcount]
      · rw [hname, hgo.vars, hv.prodName]
      · rw [hpsh, hgo.asm]

end Exit

/-- The first of two blocks; its product is of category 1. -/
def firstPacket : List UInt8 :=
  [255, 0, 20, 0, 3, 5, 0, 0, 0, 0, 0, 1, 0, 1, 1, 29] ++
    [20, 0, 0, 52, 0, 0, 0, 0, 0, 1, 1, 1, 0, 0, 0, 7] ++
    [0, 0, 0, 36] ++ List.replicate 7 0 ++ [1] ++ List.replicate 2 0 ++ [0, 2] ++
    List.replicate 20 0 ++ [65]

/-- A PSH of category 2 that says it is longer than it is. -/
def wrongLengthPacket : List UInt8 :=
  [255, 0, 20, 0, 3, 5, 0, 0, 0, 0, 0, 1, 0, 1, 1, 29] ++
    [20, 0, 0, 52, 0, 0, 0, 0, 0, 1, 1, 1, 0, 0, 0, 8] ++
    [0, 0, 0, 40] ++ List.replicate 7 0 ++ [2] ++ List.replicate 24 0 ++ [65]

theorem reject_disturbs :
    ∃ es s r t, Trace (Step readnoaaport .plain)
      (State.fresh (firstPacket ++ wrongLengthPacket) .blank) es s ∧
      iteration readnoaaport .plain s = .exit (.again r) t ∧
      s.asm.prod.frags ≠ [] ∧ t.asm.prod = s.asm.prod ∧ ¬ Undisturbed s t := by
  obtain ⟨es, h⟩ := iterate_trace readnoaaport .plain 1
    (State.fresh (firstPacket ++ wrongLengthPacket) .blank)
  have hev : (iterate readnoaaport .plain 1
        (State.fresh (firstPacket ++ wrongLengthPacket) .blank)).asm.psh.pcat = 1 ∧
      (iterate readnoaaport .plain 1
        (State.fresh (firstPacket ++ wrongLengthPacket) .blank)).asm.prod.frags ≠ [] ∧
      (iteration readnoaaport .plain (iterate readnoaaport .plain 1
        (State.fresh (firstPacket ++ wrongLengthPacket) .blank))).Ends (fun _ => False)
        (fun e t => e = .again .pshLen ∧ t.asm.psh.pcat = 2 ∧ t.asm.prod =
          (iterate readnoaaport .plain 1
            (State.fresh (firstPacket ++ wrongLengthPacket) .blank)).asm.prod) := by
    decide +kernel
  generalize iterate readnoaaport .plain 1
    (State.fresh (firstPacket ++ wrongLengthPacket) .blank) = s at h hev
  obtain ⟨h1, hne, hends⟩ := hev
  cases hit : iteration readnoaaport .plain s with
  | go t => exact (hends.go hit).elim
  | exit e t =>
    obtain ⟨rfl, h2, hprod⟩ := hends.exit hit
    refine ⟨es, s, _, t, h, hit, hne, hprod, fun hun => ?_⟩
    have hpcat := hun.psh.pcat
    rw [h1, h2] at hpcat
    exact absurd hpcat (by decide)

/-- The PDH of another version. -/
def wrongVersionPacket : List UInt8 :=
  [255, 0, 20, 0, 3, 5, 0, 0, 0, 0, 0, 1, 0, 1, 1, 29] ++
    [36, 2, 0, 16, 0, 1, 0, 0, 0, 1, 1, 1, 0, 0, 0, 7]

theorem undisturbed_iff_keepsPsh_run :
    ∃ s t, s.asm.prod.frags ≠ [] ∧
      iteration readnoaaport .plain s = .exit (.again .badVersion) t ∧
      (Undisturbed s t ↔ KeepsPsh readnoaaport s) := by
  have hev : (iterate readnoaaport .plain 1
        (State.fresh (firstPacket ++ wrongVersionPacket) .blank)).asm.prod.frags ≠ [] ∧
      (iteration readnoaaport .plain (iterate readnoaaport .plain 1
        (State.fresh (firstPacket ++ wrongVersionPacket) .blank))).Ends (fun _ => False)
        (fun e t => e = .again .badVersion ∧ t.asm.prod.frags ≠ []) := by
    decide +kernel
  generalize iterate readnoaaport .plain 1
    (State.fresh (firstPacket ++ wrongVersionPacket) .blank) = s at hev
  obtain ⟨hne, hends⟩ := hev
  cases hit : iteration readnoaaport .plain s with
  | go t => exact (hends.go hit).elim
  | exit e t =>
    obtain ⟨rfl, hkept⟩ := hends.exit hit
    exact ⟨s, t, hne, hit, undisturbed_iff_keepsPsh hit hkept⟩

end Noaaport
