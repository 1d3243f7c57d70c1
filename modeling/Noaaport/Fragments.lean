import Noaaport.DataPhase

/-! The fragment list: as long as nothing but block 0 begins a product, and no
GOES continuation claims to be block 0, it is 0, 1, … of one product. -/
namespace Noaaport
open Lib

/-- Fragments 0, 1, … of the product, each in its place. -/
structure Contiguous (prod : Prodstore) : Prop where
  fragnum : prod.frags.map Datastore.fragnum = List.range prod.frags.length
  seqno : ∀ f ∈ prod.frags, f.seqno = prod.seqno

/-- Handed over complete. -/
structure Call.Complete (c : Call) : Prop where
  contiguous : Contiguous c.prod
  all : c.prod.nfrag = 0 ∧ c.prod.frags.length = 1 ∨ c.prod.frags.length = c.prod.nfrag

section Append
variable {prod : Prodstore} {f : Datastore}

theorem Contiguous.nil (h : prod.frags = []) : Contiguous prod :=
  ⟨by rw [h]; rfl, by rw [h]; exact nofun⟩

theorem Contiguous.tail (h : Contiguous prod) {tail : Datastore}
    (ht : prod.frags.getLast? = some tail) : tail.fragnum + 1 = prod.frags.length := by
  have hl := congrArg List.getLast? h.fragnum
  have hpos : prod.frags ≠ [] := by
    intro hnil
    rw [hnil] at ht
    cases ht
  have hlen := List.length_pos_iff.2 hpos
  rw [List.getLast?_map, ht, List.getLast?_range, if_neg (by omega)] at hl
  have he := Option.some.inj hl
  omega

/-- The block after the tail, or block 0 of a new list, keeps it contiguous. -/
theorem Contiguous.append (h : Contiguous prod) (hn : f.fragnum = prod.frags.length)
    (hs : f.seqno = prod.seqno) : Contiguous { prod with frags := prod.frags ++ [f] } where
  fragnum := by
    simp only [List.map_append, List.map_cons, List.map_nil, List.length_append,
      List.length_singleton, List.range_succ, h.fragnum, hn]
  seqno g hg := by
    rcases List.mem_append.1 hg with hg | hg
    · exact h.seqno g hg
    · rwa [List.mem_singleton.1 hg]

theorem accepts_next (h : Contiguous prod) (hne : prod.frags ≠ []) (ha : prod.accepts f) :
    f.fragnum = prod.frags.length ∧ f.seqno = prod.seqno := by
  obtain ⟨tail, ht⟩ : ∃ tail, prod.frags.getLast? = some tail :=
    ⟨_, List.getLast?_eq_some_getLast hne⟩
  have hm := ha tail ht
  have hl := h.tail ht
  simp only [Prodstore.missing, decide_eq_false_iff_not, not_or, not_not] at hm
  omega

end Append

/-- What holds at the top of the loop. -/
structure FragInv (a : Asm) : Prop where
  contiguous : Contiguous a.prod
  nfrag : a.prod.frags ≠ [] → a.prod.nfrag ≠ 0
  calls : ∀ c ∈ a.calls, c.Complete

/-- At "Get the data": a header record on the NWSTG path that is stored is block 0,
and a GOES record for the product in progress is not. -/
def BlockNumbered (lib : Library) (s : State) : Prop :=
  ¬ (s.v.goes = false ∧ s.asm.prod.frags = [] ∧ s.inp.pdh.dbno ≠ 0 ∧
      (s.getData lib).fits (s.newFrag lib)) ∧
    ¬ (s.v.goes = true ∧ s.asm.prod.frags ≠ [] ∧ s.inp.pdh.dbno = 0)

/-- The same of an iteration: of its packet and the state it finds. -/
def FirstBlocks (p : Program) (lib : Library) (s : State) : Prop :=
  (front p lib s).Ends (BlockNumbered lib) (fun _ _ => True)

section Front
variable {p : Program} {lib : Library} {s t : State}

/-- A header record leaves an empty list for its own product, a continuation
record the list as it was. -/
theorem FrontGo.prod (h : FrontGo p lib s t) :
    t.asm.calls = s.asm.calls ∧
      (t.asm.prod.frags = [] ∧ t.asm.prod.seqno = t.inp.pdh.seqno ∨
        t.asm.prod = s.asm.prod ∧ t.asm.prod.frags ≠ []) := by
  cases h with
  | header i u hs _ hd _ h =>
    obtain ⟨a, ha, hst⟩ := h.started
    refine ⟨?_, .inl ⟨hst.frags, ?_⟩⟩
    · rw [hst.calls, (Asm.abandon_handed ha).1, hd.asm]
      rfl
    · rw [hst.seqno, h.block.pdh]
  | continuation i u hs _ hd _ h =>
    have hprod : t.asm.prod = u.asm.prod := by rw [h.asm]; rfl
    refine ⟨?_, .inr ⟨?_, ?_⟩⟩
    · rw [h.asm]
      change u.asm.calls = _
      rw [hd.asm]
      rfl
    · rw [hprod, hd.asm]
      rfl
    · rw [hprod]
      exact h.linked

theorem FrontExit.prod {r : Reason} (h : FrontExit p lib s (.again r) t) :
    t.asm.calls = s.asm.calls ∧ (t.asm.prod = s.asm.prod ∨ t.asm.prod.frags = []) := by
  cases h with
  | untouched h => exact ⟨by rw [h.asm], .inl (by rw [h.asm])⟩
  | header i u hs hu hd _ h =>
    have hu' : u.asm = s.asm := hd.asm
    cases h with
    | untouched h _ => exact ⟨by rw [h.asm, hu'], .inl (by rw [h.asm, hu'])⟩
    | rejected _ _ ha _ => exact ⟨by rw [ha, hu'], .inl (by rw [ha, hu'])⟩
    | fault he => cases he
    | started a ha hst => exact ⟨by rw [hst.calls, (Asm.abandon_handed ha).1, hu'], .inr hst.frags⟩
  | continuation i u hs hu hd _ h =>
    have hu' : u.asm = s.asm := hd.asm
    constructor
    · rw [h.asm]
      change u.asm.calls = _
      rw [hu']
    · left
      rw [h.asm]
      change u.asm.prod = _
      rw [hu']

theorem FragInv.frontGo (hi : FragInv s.asm) (h : FrontGo p lib s t) :
    FragInv t.asm ∧ (t.asm.prod.frags = [] → t.asm.prod.seqno = t.inp.pdh.seqno) := by
  obtain ⟨hc, ⟨hnil, hseq⟩ | ⟨hp, hne⟩⟩ := h.prod
  · exact ⟨⟨.nil hnil, fun h => absurd hnil h, by rw [hc]; exact hi.calls⟩, fun _ => hseq⟩
  · refine ⟨⟨by rw [hp]; exact hi.contiguous, by rw [hp]; exact hi.nfrag, ?_⟩,
      fun h => absurd h hne⟩
    rw [hc]
    exact hi.calls

theorem FragInv.frontExit {r : Reason} (hi : FragInv s.asm)
    (h : FrontExit p lib s (.again r) t) : FragInv t.asm := by
  obtain ⟨hc, hp | hnil⟩ := h.prod
  · exact ⟨by rw [hp]; exact hi.contiguous, by rw [hp]; exact hi.nfrag, by rw [hc]; exact hi.calls⟩
  · exact ⟨.nil hnil, fun h => absurd hnil h, by rw [hc]; exact hi.calls⟩

end Front

section Data
variable {lib : Library} {s m l t : State} {r : Reason}

/-- The end of the body: the list with the new fragment is kept or handed over. -/
theorem FragInv.finish (hi : FragInv s.asm) (hm : Copied (s.getData lib) m)
    (hl : Linked (s.newFrag lib) m l) (hf : FinishGo (s.newFrag lib) l t)
    (hn : s.inp.pdh.dbno = s.asm.prod.frags.length)
    (hq : s.inp.pdh.seqno = s.asm.prod.seqno) : FragInv t.asm := by
  have hmp : m.asm.prod = s.asm.prod := by rw [hm.asm]; rfl
  have hmc : m.asm.calls = s.asm.calls := by rw [hm.asm]; rfl
  have hlp : l.asm.prod =
      { s.asm.prod with frags := s.asm.prod.frags ++ [m.linkedFrag (s.newFrag lib)] } := by
    rw [hl.asm, hmp]
  have hlc : l.asm.calls = s.asm.calls := by rw [hl.asm, hmc]
  have hcon : Contiguous l.asm.prod := by
    rw [hlp]
    exact hi.contiguous.append hn hq
  have hlen : l.asm.prod.frags.length = s.inp.pdh.dbno + 1 := by
    rw [hlp, hn]
    exact List.length_append
  cases hf with
  | more hc h =>
    subst h
    refine ⟨hcon, fun _ h0 => ?_, by rw [hlc]; exact hi.calls⟩
    simp [Prodstore.completedBy, h0] at hc
  | handed hc h _ =>
    refine ⟨.nil (by rw [h.prod]), fun hne => absurd (by rw [h.prod]) hne, ?_⟩
    obtain ⟨c, hcalls, hcp⟩ := h.calls
    rw [hcalls, hlc]
    intro c' hc'
    rcases List.mem_append.1 hc' with hc' | hc'
    · exact hi.calls c' hc'
    · rw [List.mem_singleton.1 hc']
      refine ⟨by rw [hcp]; exact hcon, ?_⟩
      simp only [Prodstore.completedBy, decide_eq_true_eq] at hc
      rw [hcp]
      rcases hc with h0 | hc
      · -- only the first fragment meets a product without a fragment count
        refine .inl ⟨h0, ?_⟩
        have hs0 : s.asm.prod.nfrag = 0 := by rw [hlp] at h0; exact h0
        have hnil : s.asm.prod.frags = [] := by
          by_contra hne
          exact hi.nfrag hne hs0
        rw [hlen, hn, hnil]
        rfl
      · exact .inr (hlen.trans hc.symm)

theorem FragInv.dataGo (hi : FragInv s.asm) (hb : BlockNumbered lib s)
    (hq : s.asm.prod.frags = [] → s.asm.prod.seqno = s.inp.pdh.seqno) (h : DataGo lib s t) :
    FragInv t.asm := by
  cases h with
  | goes hg m l hm hl hf =>
    by_cases hnil : s.asm.prod.frags = []
    · have h0 : s.inp.pdh.dbno = 0 := hm.first hnil
      exact hi.finish hm.copied hl hf (by rw [h0, hnil]; rfl) (hq hnil).symm
    · have ha : s.asm.prod.accepts (s.newFrag lib) :=
        hm.accepts.resolve_left fun h0 => hb.2 ⟨hg, hnil, h0⟩
      obtain ⟨h1, h2⟩ := accepts_next hi.contiguous hnil ha
      exact hi.finish hm.copied hl hf h1 h2
  | nwstg hg m l hm hl hf =>
    by_cases hnil : s.asm.prod.frags = []
    · have h0 : s.inp.pdh.dbno = 0 := by
        by_contra hne
        exact hb.1 ⟨hg, hnil, hne, hm.fits⟩
      exact hi.finish hm.copied hl hf (by rw [h0, hnil]; rfl) (hq hnil).symm
    · have ha : s.asm.prod.accepts (s.newFrag lib) :=
        hm.accepts.resolve_left (hi.nfrag hnil)
      obtain ⟨h1, h2⟩ := accepts_next hi.contiguous hnil ha
      exact hi.finish hm.copied hl hf h1 h2

theorem FragInv.dataExit (hi : FragInv s.asm) (h : DataExit lib s (.again r) t) :
    FragInv t.asm := by
  have hreset : FragInv (s.getData lib).reset.asm :=
    ⟨.nil rfl, fun h => absurd rfl h, hi.calls⟩
  have hsame : FragInv (s.getData lib).asm := ⟨hi.contiguous, hi.nfrag, hi.calls⟩
  cases h with
  | goes _ h =>
    cases h with
    | missing => exact hreset
    | noImage => exact hsame
    | stuck _ _ h => exact absurd rfl (h r)
  | nwstg _ h =>
    cases h with
    | missing => exact hreset
    | punt => exact hsame
    | stuck _ _ h => exact absurd rfl (h r)

end Data

section Run
variable {p : Program} {lib : Library} {s t : State} {es : List Event}

theorem FragInv.step {e : Event} (hi : FragInv s.asm) (hc : FirstBlocks p lib s)
    (h : Step p lib s e t) : FragInv t.asm := by
  obtain ⟨t', hcase, ht⟩ := step_cases h
  rw [ht]
  cases hcase with
  | taken u t' hu hf hd =>
    obtain ⟨hu', hq⟩ := hi.frontGo hf
    exact hu'.dataGo (hc.go hu) hq hd
  | refused r u t' hu hf hd => exact (hi.frontGo hf).1.dataExit hd
  | early r t' hx => exact hi.frontExit hx

/-- Over any stream, whatever the loop variables hold between iterations: while
products begin with block 0 and only then, the list is contiguous and only
complete products are handed over. -/
theorem fragments_contiguous (h0 : Initial s)
    (h : Trace (Guarded (FirstBlocks p lib) (Step p lib)) s es t) :
    Contiguous t.asm.prod ∧ ∀ c ∈ t.asm.calls, c.Complete := by
  have hi := h.invariant (P := fun s => FragInv s.asm) (fun s e t hi hs => hi.step hs.1 hs.2)
    ⟨.nil h0.frags, fun hne => absurd h0.frags hne, by rw [h0.calls.1]; exact nofun⟩
  exact ⟨hi.contiguous, hi.calls⟩

end Run

/-- One block, complete at once. -/
def singlePacket : List UInt8 :=
  [255, 0, 20, 0, 3, 5, 0, 0, 0, 0, 0, 1, 0, 1, 1, 29] ++
    [20, 0, 0, 52, 0, 0, 0, 0, 0, 1, 1, 1, 0, 0, 0, 7] ++
    [0, 0, 0, 36] ++ List.replicate 32 0 ++ [65]

/-- Block 0 of so many, one byte behind a CCB of two. -/
def blockZero (frags : UInt8) : List UInt8 :=
  [255, 0, 20, 0, 3, 5, 0, 0, 0, 0, 0, 1, 0, 1, 1, 29] ++
    [20, 0, 0, 52, 0, 0, 0, 0, 0, 1, 1, 1, 0, 0, 0, 7] ++
    [0, 0, 0, 36] ++ List.replicate 10 0 ++ [0, frags] ++ List.replicate 20 0 ++ [65]

/-- A block in a continuation record. -/
def blockMore (dbno : UInt8) : List UInt8 :=
  [255, 0, 20, 0, 3, 5, 0, 0, 0, 0, 0, 2, 0, 1, 1, 30] ++
    [20, 2, 0, 16, 0, dbno, 0, 0, 0, 1, 1, 1, 0, 0, 0, 7] ++ [66]

def twoBlockStream : List UInt8 := blockZero 2 ++ blockMore 1

/-- A product of two blocks is handed over complete. -/
theorem fragments_contiguous_run : ∃ t : State, t.asm.calls.map (fun c => c.prod.frags.length) = [2] ∧
    Contiguous t.asm.prod ∧ ∀ c ∈ t.asm.calls, c.Complete := by
  have hnumbered : ∀ k < 2, (front readnoaaport .plain
      (iterate readnoaaport .plain k (State.fresh twoBlockStream .blank))).Ends
        (fun t => t.v.goes = false ∧ (t.asm.prod.frags = [] → t.inp.pdh.dbno = 0)) (fun _ _ => False) := by
    decide +kernel
  have hfirst : ∀ k < 2, FirstBlocks readnoaaport .plain
      (iterate readnoaaport .plain k (State.fresh twoBlockStream .blank)) := fun k hk =>
    (hnumbered k hk).mono (fun t h => ⟨fun hc => hc.2.2.1 (h.2 hc.2.1), fun hc => by simp [h.1] at hc⟩)
      fun _ _ _ => trivial
  obtain ⟨es, h⟩ := iterate_guarded readnoaaport .plain hfirst
  exact ⟨_, by decide +kernel, fragments_contiguous (State.fresh_initial ..) h⟩

/-- A header record that says it is block 5 of 6. -/
def lateHeaderPacket : List UInt8 :=
  [255, 0, 20, 0, 3, 5, 0, 0, 0, 0, 0, 1, 0, 1, 1, 29] ++
    [20, 0, 0, 52, 0, 5, 0, 0, 0, 1, 1, 1, 0, 0, 0, 7] ++
    [0, 0, 0, 36] ++ List.replicate 10 0 ++ [0, 6] ++ List.replicate 20 0 ++ [65]

theorem fragments_not_contiguous :
    ∃ es t, Trace (Step readnoaaport .plain) (State.fresh lateHeaderPacket .blank) es t ∧
      ∃ c ∈ t.asm.calls, ¬ c.Complete := by
  obtain ⟨es, h⟩ := iterate_trace readnoaaport .plain 1 (State.fresh lateHeaderPacket .blank)
  refine ⟨es, _, h, ?_⟩
  have hc : (iterate readnoaaport .plain 1 (State.fresh lateHeaderPacket .blank)).asm.calls.map
      (fun c => c.prod.frags.map Datastore.fragnum) = [[5]] := by
    decide +kernel
  cases hcalls : (iterate readnoaaport .plain 1 (State.fresh lateHeaderPacket .blank)).asm.calls with
  | nil => rw [hcalls] at hc; cases hc
  | cons c cs =>
    rw [hcalls] at hc
    refine ⟨c, List.mem_cons_self .., fun hcon => ?_⟩
    have hfr : c.prod.frags.map Datastore.fragnum = [5] := (List.cons.inj hc).1
    have hcg := hcon.contiguous.fragnum
    rw [hfr] at hcg
    have hlen := congrArg List.length hcg
    rw [List.length_range] at hlen
    rw [← hlen] at hcg
    exact absurd hcg (by decide)

end Noaaport
