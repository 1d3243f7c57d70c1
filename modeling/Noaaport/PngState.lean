import Noaaport.DataPhase

/-! The PNG writer: as long as an image is not dropped in the middle and its blocks
come on its own channel, `PNGINIT` says whether the product in progress is an
image whose writer is open. -/
namespace Noaaport
open Lib

/-- The writer stands open for the product under way, on the current heap. -/
structure WriterOpen (o : Output) : Prop where
  isOpen : o.png.ptr.isSome = true
  opened : o.opened = o.product
  prodmap : o.png.prodmap = o.memheap.id

/-- `PNGINIT = 1` iff the product in progress is an uncompressed GOES product whose
writer is open on the current heap. -/
def PngState (a : Asm) : Prop :=
  a.pnginit = true ↔ a.prod.frags ≠ [] ∧ a.out.image = true ∧ WriterOpen a.out

/-- `pngout_init` found no open writer, `pngout_end` the product's own, and
`png_get_prodlen` gave the length of an image, the product's own. -/
def PngEvent.Good : PngEvent → Prop
  | .init _ wasOpen => wasOpen = false
  | .finish product opened => opened = product
  | .prodlen product mapped image => mapped = product ∧ image = true

/-- The writer alone. -/
structure WriterInv (pnginit : Bool) (o : Output) : Prop where
  closed : pnginit = false → o.png.ptr.isSome = false
  isOpen : pnginit = true → WriterOpen o ∧ o.mapped = o.product ∧ o.image = true
  log : ∀ e ∈ o.pngLog, e.Good

structure PngInv (a : Asm) : Prop where
  writer : WriterInv a.pnginit a.out
  idle : a.prod.frags = [] → a.pnginit = false
  image : a.prod.frags ≠ [] → a.out.image = true → a.pnginit = true

theorem PngInv.state {a : Asm} (h : PngInv a) : PngState a := by
  constructor
  · intro hp
    refine ⟨fun hnil => ?_, (h.writer.isOpen hp).2.2, (h.writer.isOpen hp).1⟩
    rw [h.idle hnil] at hp
    cases hp
  · rintro ⟨hne, hi, -⟩
    exact h.image hne hi

section Writer
variable {lib : Library} {o o' : Output} {b : Bool}

theorem WriterInv.same (h : WriterInv b o) (hs : SamePng o o') : WriterInv b o' where
  closed hb := hs.isOpen.trans (h.closed hb)
  isOpen hb := by
    obtain ⟨hw, hm, hi⟩ := h.isOpen hb
    refine ⟨⟨hs.isOpen.trans hw.isOpen, ?_, ?_⟩, ?_, hs.image.trans hi⟩
    · rw [hs.opened, hs.product, hw.opened]
    · rw [hs.prodmap, hs.heap, hw.prodmap]
    · rw [hs.mapped, hs.product, hm]
  log := by
    rw [hs.log]
    exact h.log

theorem WriterInv.opened (h : WriterInv false o) (ho : ImageOpened o o') (hi : o.image = true) :
    WriterInv true o' where
  closed hb := nomatch hb
  isOpen _ :=
    ⟨⟨ho.isOpen, ho.opened.trans ho.product.symm, ho.prodmap⟩,
      ho.mapped.trans ho.product.symm, ho.image.trans hi⟩
  log e he := by
    rw [ho.log] at he
    rcases List.mem_append.1 he with he | he
    · exact h.log e he
    · rw [List.mem_singleton.1 he]
      exact h.closed rfl

theorem WriterInv.ended {ev : List PngEvent} (h : WriterInv b o) (ho : WriterEnded o o' ev)
    (hev : ∀ e ∈ ev, e.Good) : WriterInv false o' where
  closed _ := by rw [ho.closed]; rfl
  isOpen hb := nomatch hb
  log e he := by
    rw [ho.log] at he
    rcases List.mem_append.1 he with he | he
    · exact h.log e he
    · exact hev e he

/-- Abandoning a product closes its writer. -/
theorem PngInv.abandon {a c : Asm} (h : PngInv a) (hc : a.abandon lib = some c) :
    c.pnginit = false ∧ WriterInv false c.out := by
  unfold Asm.abandon at hc
  split_ifs at hc with hnil hp
  · cases hc
    have hf := h.idle hnil
    exact ⟨hf, hf ▸ h.writer⟩
  · obtain ⟨out, hout, rfl⟩ := Option.map_eq_some_iff.1 hc
    refine ⟨rfl, h.writer.ended (pngoutEnd_ended hout).1 fun e he => ?_⟩
    rw [List.mem_singleton.1 he]
    exact (h.writer.isOpen hp).1.opened
  · cases hc
    have hf : a.pnginit = false := by simpa using hp
    exact ⟨hf, hf ▸ h.writer⟩

theorem PngInv.started {s t : State} {a : Asm} {n : Int} (h : PngInv s.asm)
    (ha : s.asm.abandon lib = some a) (hst : Started a n t) : PngInv t.asm := by
  obtain ⟨hp, hw⟩ := h.abandon ha
  have hf : t.asm.pnginit = false := hst.pnginit.trans hp
  refine ⟨?_, fun _ => hf, fun hne => absurd hst.frags hne⟩
  rw [hf]
  exact ⟨fun _ => by rw [hst.png]; exact hw.closed rfl, nofun, by rw [hst.log]; exact hw.log⟩

end Writer

/-- The block completes its product on the NWSTG path. -/
def State.completesNwstg (lib : Library) (s : State) : Prop :=
  s.v.goes = false ∧ s.asm.prod.completedBy (s.newFrag lib) = true ∧
    (s.asm.prod.nfrag = 0 ∨ s.asm.prod.accepts (s.newFrag lib)) ∧
    (s.getData lib).fits (s.newFrag lib)

/-- At "Get the data": no image is dropped for a missing block, no block 0 of an
image comes for a product in progress, no image ends on the NWSTG path. -/
structure ImageSafe (lib : Library) (s : State) : Prop where
  kept : s.asm.pnginit = true → ¬ s.drops lib
  first : ¬ (s.v.goes = true ∧ s.v.prodCompressed = false ∧ s.inp.pdh.dbno = 0 ∧
    s.asm.prod.frags ≠ [])
  path : s.asm.pnginit = true → ¬ s.completesNwstg lib

def ImagesIntact (p : Program) (lib : Library) (s : State) : Prop :=
  (front p lib s).Ends (ImageSafe lib) (fun _ _ => True)

section Front
variable {p : Program} {lib : Library} {s t : State}

theorem PngInv.frontGo (hi : PngInv s.asm) (h : FrontGo p lib s t) :
    PngInv t.asm ∧
      (t.asm.prod.frags = [] → t.asm.out.image = (t.v.goes && !t.v.prodCompressed)) := by
  cases h with
  | header i u hs _ hd _ h =>
    obtain ⟨a, ha, hst⟩ := h.started
    have hu : u.asm = s.asm := hd.asm
    rw [hu] at ha
    exact ⟨hi.started ha hst, fun _ => h.image⟩
  | continuation i u hs _ hd _ h =>
    have hu : u.asm = s.asm := hd.asm
    have hprod : t.asm.prod = s.asm.prod := by rw [h.asm, ← hu]; rfl
    have hout : t.asm.out = s.asm.out := by rw [h.asm, ← hu]; rfl
    have hpng : t.asm.pnginit = s.asm.pnginit := by rw [h.asm, ← hu]; rfl
    refine ⟨⟨?_, ?_, ?_⟩, fun hnil => ?_⟩
    · rw [hpng, hout]
      exact hi.writer
    · rw [hprod, hpng]
      exact hi.idle
    · rw [hprod, hout, hpng]
      exact hi.image
    · rw [hprod, ← hu] at hnil
      exact absurd hnil h.linked

theorem PngInv.frontExit {r : Reason} (hi : PngInv s.asm)
    (h : FrontExit p lib s (.again r) t) : PngInv t.asm := by
  cases h with
  | untouched h => rwa [h.asm]
  | header i u hs hu hd _ h =>
    have hu' : u.asm = s.asm := hd.asm
    cases h with
    | untouched h _ => rwa [h.asm, hu']
    | rejected _ _ ha _ =>
      rw [ha, hu']
      exact ⟨hi.writer, hi.idle, hi.image⟩
    | fault he => cases he
    | started a ha hst => exact (hu' ▸ hi : PngInv u.asm).started ha hst
  | continuation i u hs hu hd _ h =>
    have hu' : u.asm = s.asm := hd.asm
    rw [h.asm]
    have hiu : PngInv u.asm := hu' ▸ hi
    exact ⟨hiu.writer, hiu.idle, hiu.image⟩

end Front

section Data
variable {lib : Library} {s m l t : State} {r : Reason}

theorem WriterInv.finish {pfrag : Datastore} (hw : WriterInv l.asm.pnginit l.asm.out)
    (hne : l.asm.prod.frags ≠ []) (hi : l.asm.out.image = true → l.asm.pnginit = true)
    (hpath : l.v.goes = false → l.asm.pnginit = true → l.asm.prod.completedBy pfrag = false)
    (h : FinishGo pfrag l t) : PngInv t.asm := by
  cases h with
  | more hc h =>
    subst h
    exact ⟨hw, fun hnil => absurd hnil hne, fun _ => hi⟩
  | handed hc h he =>
    have hnil : t.asm.prod.frags = [] := by rw [h.prod]
    refine ⟨?_, fun _ => h.pnginit, fun hne' => absurd hnil hne'⟩
    rw [h.pnginit]
    cases he with
    | same hn ho =>
      have hf : l.asm.pnginit = false := by
        by_contra hp
        have hp' : l.asm.pnginit = true := by simpa using hp
        cases hg : l.v.goes with
        | true => exact hn ⟨hg, hp'⟩
        | false =>
          rw [hpath hg hp'] at hc
          cases hc
      exact (hf ▸ hw : WriterInv false l.asm.out).same ho
    | ended hg hp ho =>
      obtain ⟨hopen, hmap, himg⟩ := hw.isOpen hp
      refine hw.ended ho fun e he => ?_
      simp only [List.mem_cons, List.not_mem_nil, or_false] at he
      rcases he with rfl | rfl
      · exact hopen.opened
      · exact ⟨hmap, himg⟩

theorem linked_ne_nil {pfrag : Datastore} (hl : Linked pfrag m l) : l.asm.prod.frags ≠ [] := by
  rw [hl.asm]
  exact List.append_ne_nil_of_right_ne_nil _ (List.cons_ne_nil _ _)

theorem PngInv.dataGo (hi : PngInv s.asm) (hs : ImageSafe lib s)
    (himg : s.asm.prod.frags = [] → s.asm.out.image = (s.v.goes && !s.v.prodCompressed))
    (h : DataGo lib s t) : PngInv t.asm := by
  cases h with
  | goes hg m l hm hl hf =>
    have hlo : l.asm.out = m.asm.out := by rw [hl.asm]
    have hlp : l.asm.pnginit = m.asm.pnginit := by rw [hl.asm]
    have hlg : l.v.goes = true := by rw [hl.goes, hm.copied.goes]; exact hg
    cases hm.image with
    | same hc hp ho =>
      have hp' : m.asm.pnginit = s.asm.pnginit := hp
      have hi' : m.asm.out.image = s.asm.out.image := ho.image
      refine WriterInv.finish ?_ (linked_ne_nil hl) ?_ (fun h => ?_) hf
      · rw [hlo, hlp, hp']
        exact hi.writer.same ho
      · rw [hlo, hlp, hp', hi']
        by_cases hnil : s.asm.prod.frags = []
        · -- the first block of an image is not compressed, so it opens the writer
          have hcomp : s.v.prodCompressed = true := hc (hm.first hnil)
          intro ht
          rw [himg hnil, hg, hcomp] at ht
          cases ht
        · exact hi.image hnil
      · rw [hlg] at h
        cases h
    | opened h0 hc hp ho =>
      have hnil : s.asm.prod.frags = [] := by
        by_contra hne
        exact hs.first ⟨hg, hc, h0, hne⟩
      have hw : WriterInv false s.asm.out := hi.idle hnil ▸ hi.writer
      have hc' : s.v.prodCompressed = false := hc
      refine WriterInv.finish ?_ (linked_ne_nil hl) ?_ (fun h => ?_) hf
      · rw [hlo, hlp, hp]
        exact hw.opened ho (by rw [himg hnil, hg, hc']; rfl)
      · rw [hlp]
        exact fun _ => hp
      · rw [hlg] at h
        cases h
  | nwstg hg m l hm hl hf =>
    have hlo : l.asm.out = m.asm.out := by rw [hl.asm]
    have hlp : l.asm.pnginit = s.asm.pnginit := by rw [hl.asm]; exact hm.pnginit
    have hi' : m.asm.out.image = s.asm.out.image := hm.png.image
    refine WriterInv.finish ?_ (linked_ne_nil hl) ?_ (fun _ hp => ?_) hf
    · rw [hlo, hlp]
      exact hi.writer.same hm.png
    · rw [hlo, hlp, hi']
      by_cases hnil : s.asm.prod.frags = []
      · intro ht
        rw [himg hnil, hg] at ht
        cases ht
      · exact hi.image hnil
    · rw [hlp] at hp
      by_contra hc
      have hcl : l.asm.prod.completedBy (s.newFrag lib) = true := by simpa using hc
      have hcs : s.asm.prod.completedBy (s.newFrag lib) = true := by
        rw [hl.asm, hm.copied.asm] at hcl
        exact hcl
      exact hs.path hp ⟨hg, hcs, hm.accepts, hm.fits⟩

theorem PngInv.dropped (hi : PngInv s.asm) (hs : ImageSafe lib s) (hd : s.drops lib) :
    PngInv (s.getData lib).reset.asm := by
  have hf : s.asm.pnginit = false := by
    by_contra hp
    exact hs.kept (by simpa using hp) hd
  exact ⟨hi.writer, fun _ => hf, fun hne => absurd rfl hne⟩

theorem PngInv.dataExit (hi : PngInv s.asm) (hs : ImageSafe lib s)
    (h : DataExit lib s (.again r) t) : PngInv t.asm := by
  have hsame : PngInv (s.getData lib).asm := ⟨hi.writer, hi.idle, hi.image⟩
  cases h with
  | goes hg h =>
    cases h with
    | missing tail hl h0 hm =>
      exact hi.dropped hs ⟨(Prodstore.not_accepts_iff hl).2 hm, by rw [if_pos hg]; exact h0⟩
    | noImage => exact hsame
    | stuck _ _ h => exact absurd rfl (h r)
  | nwstg hg h =>
    cases h with
    | missing tail hl h0 hm =>
      exact hi.dropped hs ⟨(Prodstore.not_accepts_iff hl).2 hm, by rw [if_neg (by simp [hg])]; exact h0⟩
    | punt => exact hsame
    | stuck _ _ h => exact absurd rfl (h r)

end Data

theorem Initial.png {s : State} (h0 : Initial s) : PngInv s.asm where
  writer :=
    { closed := fun _ => by
        rw [h0.writer]
        rfl
      isOpen := fun hp => by
        rw [h0.pnginit] at hp
        cases hp
      log := by
        rw [h0.calls.2.2]
        exact nofun }
  idle _ := h0.pnginit
  image hne := absurd h0.frags hne

section Run
variable {p : Program} {lib : Library} {s t : State} {es : List Event}

theorem PngInv.step {e : Event} (hi : PngInv s.asm) (hc : ImagesIntact p lib s)
    (h : Step p lib s e t) : PngInv t.asm := by
  obtain ⟨t', hcase, ht⟩ := step_cases h
  rw [ht]
  cases hcase with
  | taken u t' hu hf hd =>
    obtain ⟨hu', himg⟩ := hi.frontGo hf
    exact hu'.dataGo (hc.go hu) himg hd
  | refused r u t' hu hf hd => exact (hi.frontGo hf).1.dataExit (hc.go hu) hd
  | early r t' hx => exact hi.frontExit hx

/-- In every run in which images stay intact, `PNGINIT` tells the state of the
writer at the top of the loop, and every call of `png_io.c` is for the product
under way. -/
theorem pnginit_iff_writer_open (h0 : Initial s)
    (h : Trace (Guarded (ImagesIntact p lib) (Step p lib)) s es t) :
    PngState t.asm ∧ ∀ e ∈ t.asm.out.pngLog, e.Good := by
  have hi := h.invariant (P := fun s => PngInv s.asm) (fun s e t hi hs => hi.step hs.1 hs.2)
    h0.png
  exact ⟨hi.state, hi.writer.log⟩

end Run

/-- The first of two blocks of an image, one pixel wide and high. -/
def imagePacket : List UInt8 :=
  [255, 0, 20, 0, 3, 1, 0, 0, 0, 0, 0, 1, 0, 1, 1, 25] ++
    [20, 0, 0, 52, 0, 0, 0, 0, 0, 21, 1, 1, 0, 0, 0, 7] ++
    [0, 0, 0, 36] ++ List.replicate 10 0 ++ [0, 2] ++ List.replicate 20 0 ++
    [10] ++ List.replicate 16 0 ++ [0, 1, 0, 1]

theorem pnginit_iff_writer_open_run :
    ∃ t : State, t.asm.pnginit = true ∧ PngState t.asm ∧ ∀ e ∈ t.asm.out.pngLog, e.Good := by
  have hfront : (front readnoaaport .plain (State.fresh imagePacket .blank)).Ends
      (fun t => t.asm.pnginit = false ∧ t.asm.prod.frags = []) (fun _ _ => False) := by
    decide +kernel
  have hintact : ImagesIntact readnoaaport .plain (State.fresh imagePacket .blank) :=
    hfront.mono (fun t h =>
        ⟨fun hp => by simp [h.1] at hp, fun hf => hf.2.2.2 h.2, fun hp => by simp [h.1] at hp⟩)
      fun _ _ _ => trivial
  obtain ⟨es, h⟩ := iterate_guarded (n := 1) (s := State.fresh imagePacket .blank) readnoaaport .plain
    fun k hk => by
      obtain rfl : k = 0 := by omega
      exact hintact
  exact ⟨_, by decide +kernel, pnginit_iff_writer_open (State.fresh_initial ..) h⟩

/-- Block 5 where block 1 is due. -/
def strayImagePacket : List UInt8 :=
  [255, 0, 20, 0, 3, 1, 0, 0, 0, 0, 0, 1, 0, 1, 1, 25] ++
    [20, 2, 0, 16, 0, 5, 0, 0, 0, 1, 1, 1, 0, 0, 0, 7] ++ [65]

/-- A missing block drops the product and leaves its writer open. -/
theorem writer_left_open :
    ∃ es t, Trace (Step readnoaaport .plain)
      (State.fresh (imagePacket ++ strayImagePacket) .blank) es t ∧ ¬ PngState t.asm := by
  obtain ⟨es, h⟩ :=
    iterate_trace readnoaaport .plain 2 (State.fresh (imagePacket ++ strayImagePacket) .blank)
  refine ⟨es, _, h, fun hs => ?_⟩
  have hev :
      (iterate readnoaaport .plain 2
        (State.fresh (imagePacket ++ strayImagePacket) .blank)).asm.pnginit = true ∧
      (iterate readnoaaport .plain 2
        (State.fresh (imagePacket ++ strayImagePacket) .blank)).asm.prod.frags = [] := by
    decide +kernel
  exact (hs.1 hev.1).1 hev.2

end Noaaport
