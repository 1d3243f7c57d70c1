import Noaaport.Phases

/-! What an iteration can do from "Get the data" on: to the fragment list, to the
calls of `process_prod` and to the PNG writer. -/
namespace Noaaport
open Lib

section Png
variable {lib : Library} {o o' o'' : Output}

/-- The writer, the block it puts out to and the record of its use stay. -/
structure SamePng (o o' : Output) : Prop where
  isOpen : o'.png.ptr.isSome = o.png.ptr.isSome
  prodmap : o'.png.prodmap = o.png.prodmap
  heap : o'.memheap.id = o.memheap.id
  product : o'.product = o.product
  image : o'.image = o.image
  opened : o'.opened = o.opened
  mapped : o'.mapped = o.mapped
  log : o'.pngLog = o.pngLog

theorem SamePng.refl (o : Output) : SamePng o o := ⟨rfl, rfl, rfl, rfl, rfl, rfl, rfl, rfl⟩

theorem SamePng.trans (h : SamePng o o') (h' : SamePng o' o'') : SamePng o o'' where
  isOpen := h'.isOpen.trans h.isOpen
  prodmap := h'.prodmap.trans h.prodmap
  heap := h'.heap.trans h.heap
  product := h'.product.trans h.product
  image := h'.image.trans h.image
  opened := h'.opened.trans h.opened
  mapped := h'.mapped.trans h.mapped
  log := h'.log.trans h.log

theorem SamePng.append (o : Output) (n : Nat) (bs : List UInt8) : SamePng o (o.append n bs) :=
  ⟨rfl, rfl, rfl, rfl, rfl, rfl, rfl, rfl⟩

theorem pngHeader_same {bs : List UInt8} (h : pngHeader o bs = some o') : SamePng o o' := by
  unfold pngHeader at h
  split_ifs at h
  cases h
  exact ⟨rfl, rfl, rfl, rfl, rfl, rfl, rfl, rfl⟩

theorem pngwrite_same {buf : Buffer} {n : Nat} (h : pngwrite lib o buf n = some o') :
    SamePng o o' := by
  unfold pngwrite at h
  split at h
  · cases h
  next q hq =>
  simp only at h
  split at h
  · cases h
  · have hs := pngHeader_same h
    exact ⟨hs.isOpen.trans (by simp [hq]), hs.prodmap, hs.heap, hs.product, hs.image, hs.opened,
      hs.mapped, hs.log⟩

theorem writeScanlines_same {buf : Buffer} {n nx : Nat} {rows : List Nat}
    (h : writeScanlines lib buf n nx rows o = some o') : SamePng o o' := by
  induction rows generalizing o with
  | nil =>
    cases h
    exact .refl _
  | cons r rows ih =>
    obtain ⟨o₁, h₁, h₂⟩ := Option.bind_eq_some_iff.1 h
    exact (pngwrite_same h₁).trans (ih h₂)

/-- A writer has been opened for the product under way, on the current heap. -/
structure ImageOpened (o o' : Output) : Prop where
  isOpen : o'.png.ptr.isSome = true
  prodmap : o'.png.prodmap = o'.memheap.id
  product : o'.product = o.product
  image : o'.image = o.image
  opened : o'.opened = o.product
  mapped : o'.mapped = o.product
  log : o'.pngLog = o.pngLog ++ [.init o.product o.png.ptr.isSome]

theorem pngoutInit_opened {bs : List UInt8} {width height : Nat}
    (h : (pngHeader (pngSetMemheap o) bs).bind (fun o => pngoutInit lib o width height) =
      some o') : ImageOpened o o' := by
  obtain ⟨o₁, h₁, h₂⟩ := Option.bind_eq_some_iff.1 h
  have hs₁ := pngHeader_same h₁
  have hs₂ := pngHeader_same h₂
  refine ⟨hs₂.isOpen, ?_, hs₂.product.trans hs₁.product, hs₂.image.trans hs₁.image,
    hs₂.opened.trans hs₁.product, hs₂.mapped.trans hs₁.mapped, hs₂.log.trans ?_⟩
  · rw [hs₂.prodmap, hs₂.heap]
    exact hs₁.prodmap.trans hs₁.heap.symm
  · change o₁.pngLog ++ [.init o₁.product o₁.png.ptr.isSome] = _
    rw [hs₁.log, hs₁.product, hs₁.isOpen]
    rfl

/-- The writer has been taken down; `ev` is what is put on record. -/
structure WriterEnded (o o' : Output) (ev : List PngEvent) : Prop where
  wasOpen : o.png.ptr.isSome = true
  closed : o'.png.ptr = none
  product : o'.product = o.product
  image : o'.image = o.image
  log : o'.pngLog = o.pngLog ++ ev

theorem pngoutEnd_ended (h : pngoutEnd lib o = some o') :
    WriterEnded o o' [.finish o.product o.opened] ∧ o'.mapped = o.mapped := by
  unfold pngoutEnd at h
  split at h
  · cases h
  next q hq =>
  have hopen : o.png.ptr.isSome = true := by simp [hq]
  split_ifs at h
  · split at h
    · cases h
    · obtain ⟨o₁, h₁, rfl⟩ := Option.map_eq_some_iff.1 h
      have hs := pngHeader_same h₁
      refine ⟨⟨hopen, rfl, hs.product, hs.image, ?_⟩, hs.mapped⟩
      change o₁.pngLog ++ [.finish o₁.product o₁.opened] = _
      rw [hs.log, hs.product, hs.opened]
  · cases h
    exact ⟨⟨hopen, rfl, rfl, rfl, rfl⟩, rfl⟩

end Png

section Copy
variable {lib : Library} {pfrag : Datastore} {s t : State}

/-- Only the output, `PNGINIT` and the loop's own numbers have changed. -/
structure Copied (s t : State) : Prop where
  inp : t.inp = s.inp
  goes : t.v.goes = s.v.goes
  nwstg : t.v.nwstg = s.v.nwstg
  asm : t.asm = { s.asm with out := t.asm.out, pnginit := t.asm.pnginit }

theorem Copied.refl (s : State) : Copied s s := ⟨rfl, rfl, rfl, rfl⟩

/-- The fragment has no predecessor, or the one it should have. -/
def Prodstore.accepts (prod : Prodstore) (pfrag : Datastore) : Prop :=
  ∀ tail, prod.frags.getLast? = some tail → prod.missing tail pfrag = false

/-- A block that does not follow is missing its predecessor. -/
theorem Prodstore.not_accepts_iff {prod : Prodstore} {pfrag tail : Datastore}
    (hl : prod.frags.getLast? = some tail) :
    ¬ prod.accepts pfrag ↔ prod.missing tail pfrag = true := by
  have hiff : prod.accepts pfrag ↔ prod.missing tail pfrag = false := by
    refine ⟨fun ha => ha tail hl, fun hm tail' hl' => ?_⟩
    cases Option.some.inj (hl.symm.trans hl')
    exact hm
  rw [hiff, Bool.not_eq_false]

/-- The block does not follow the tail of the list where that is checked. -/
def State.drops (lib : Library) (s : State) : Prop :=
  ¬ s.asm.prod.accepts (s.newFrag lib) ∧
    if s.v.goes = true then s.inp.pdh.dbno ≠ 0 else s.asm.prod.nfrag ≠ 0

/-- What a GOES block does to the writer. -/
inductive GoesImage (pfrag : Datastore) (s t : State) : Prop where
  | same (hc : pfrag.fragnum = 0 → s.v.prodCompressed = true)
      (hp : t.asm.pnginit = s.asm.pnginit) (ho : SamePng s.asm.out t.asm.out)
  | opened (h0 : pfrag.fragnum = 0) (hc : s.v.prodCompressed = false) (hp : t.asm.pnginit = true)
      (ho : ImageOpened s.asm.out t.asm.out)

structure GoesGo (pfrag : Datastore) (s t : State) : Prop where
  copied : Copied s t
  image : GoesImage pfrag s t
  first : s.asm.prod.frags = [] → pfrag.fragnum = 0
  accepts : pfrag.fragnum = 0 ∨ s.asm.prod.accepts pfrag

inductive GoesExit (pfrag : Datastore) (s : State) : Exit → State → Prop where
  | missing (tail : Datastore) (hl : s.asm.prod.frags.getLast? = some tail)
      (h0 : pfrag.fragnum ≠ 0) (hm : s.asm.prod.missing tail pfrag = true) :
      GoesExit pfrag s (.again .goesSeq) s.reset
  | noImage : GoesExit pfrag s (.again .pngInit) s
  | stuck (e : Exit) (t : State) (h : ∀ r, e ≠ .again r) : GoesExit pfrag s e t

theorem copyCompressed_copied (s : State) :
    Copied s s.copyCompressed ∧ s.copyCompressed.asm.pnginit = s.asm.pnginit ∧
      SamePng s.asm.out s.copyCompressed.asm.out :=
  ⟨⟨rfl, rfl, rfl, rfl⟩, rfl, .append ..⟩

theorem goesFirst_ends (h0 : pfrag.fragnum = 0) :
    (goesFirst lib s).Ends (fun t => Copied s t ∧ GoesImage pfrag s t)
      (fun e _ => ∀ r, e ≠ .again r) := by
  have hcopy := copyCompressed_copied s
  refine Flow.ends_ite (fun hc => ⟨hcopy.1, .same (fun _ => hc) hcopy.2.1 hcopy.2.2⟩) fun hc => ?_
  split
  · nofun
  · next out hout =>
    exact ⟨⟨rfl, rfl, rfl, rfl⟩, .opened h0 (by simpa using hc) rfl (pngoutInit_opened hout)⟩

theorem goesNext_ends (h0 : pfrag.fragnum ≠ 0) :
    (goesNext lib s).Ends (fun t => Copied s t ∧ GoesImage pfrag s t)
      (fun e _ => ∀ r, e ≠ .again r) := by
  have hcopy := copyCompressed_copied s
  refine Flow.ends_ite
    (fun _ => ⟨hcopy.1, .same (fun h => absurd h h0) hcopy.2.1 hcopy.2.2⟩) fun _ => ?_
  refine Flow.ends_ite (fun _ => nofun) fun _ => ?_
  split
  · nofun
  · next out hout => exact ⟨⟨rfl, rfl, rfl, rfl⟩, .same (fun h => absurd h h0) rfl (writeScanlines_same hout)⟩

theorem goesData_ends :
    (goesData lib pfrag s).Ends (GoesGo pfrag s) (GoesExit pfrag s) := by
  unfold goesData
  refine Flow.Ends.bind (P := GoesGo pfrag s) ?_ fun t h =>
    ⟨⟨h.copied.inp, h.copied.goes, h.copied.nwstg, h.copied.asm⟩, ?_, h.first, h.accepts⟩
  · refine Flow.ends_ite (fun hpos => ?_) fun hpos => ?_
    · split
      · exact .stuck _ _ nofun
      next tail htail =>
      refine Flow.ends_ite (fun _ => .stuck _ _ nofun) fun _ => ?_
      refine Flow.ends_ite (fun hm => .missing tail htail (by omega) hm) fun hm => ?_
      refine Flow.ends_ite (fun _ => .noImage) fun _ => ?_
      refine (goesNext_ends (by omega)).mono (fun t h => ⟨h.1, h.2, ?_, .inr ?_⟩) fun e t h => .stuck e t h
      · intro hnil
        rw [hnil] at htail
        cases htail
      · intro tail' htail'
        cases Option.some.inj (htail.symm.trans htail')
        simpa using hm
    · have h0 : pfrag.fragnum = 0 := by omega
      exact (goesFirst_ends h0).mono (fun t h => ⟨h.1, h.2, fun _ => h0, .inl h0⟩)
        fun e t h => .stuck e t h
  · cases h.image with
    | same hc hp ho => exact .same hc hp ho
    | opened h0 hc hp ho => exact .opened h0 hc hp ho

/-- There is room for the block. -/
def State.fits (s : State) (pfrag : Datastore) : Prop :=
  s.v.heapcount + s.strippedLen pfrag ≤ s.v.heapsize

structure NwstgGo (pfrag : Datastore) (s t : State) : Prop where
  copied : Copied s t
  pnginit : t.asm.pnginit = s.asm.pnginit
  png : SamePng s.asm.out t.asm.out
  accepts : s.asm.prod.nfrag = 0 ∨ s.asm.prod.accepts pfrag
  fits : s.fits pfrag

inductive NwstgExit (pfrag : Datastore) (s : State) : Exit → State → Prop where
  | missing (tail : Datastore) (hl : s.asm.prod.frags.getLast? = some tail)
      (h0 : s.asm.prod.nfrag ≠ 0) (hm : s.asm.prod.missing tail pfrag = true) :
      NwstgExit pfrag s (.again .nwstgSeq) s.reset
  | punt : NwstgExit pfrag s (.again .punt) (s.setDatalen (s.strippedLen pfrag))
  | stuck (e : Exit) (t : State) (h : ∀ r, e ≠ .again r) : NwstgExit pfrag s e t

theorem nwstgCopy_ends (ha : s.asm.prod.nfrag = 0 ∨ s.asm.prod.accepts pfrag) :
    (nwstgCopy pfrag s).Ends (NwstgGo pfrag s) (NwstgExit pfrag s) := by
  refine Flow.ends_ite (fun _ => .punt) fun hf => ?_
  exact ⟨⟨rfl, rfl, rfl, rfl⟩, rfl, .append .., ha, not_lt.1 hf⟩

theorem nwstgData_ends :
    (nwstgData pfrag s).Ends (NwstgGo pfrag s) (NwstgExit pfrag s) := by
  unfold nwstgData
  split
  · next hnil =>
    exact nwstgCopy_ends (.inr fun tail htail => by rw [hnil] at htail; cases htail)
  next tail htail =>
  refine Flow.ends_ite (fun h0 => nwstgCopy_ends (.inl h0)) fun h0 => ?_
  refine Flow.ends_ite (fun _ => .stuck _ _ nofun) fun _ => ?_
  refine Flow.ends_ite (fun hm => .missing tail htail h0 hm) fun hm => ?_
  refine nwstgCopy_ends (.inr fun tail' htail' => ?_)
  cases Option.some.inj (htail.symm.trans htail')
  simpa using hm

end Copy

section Link
variable {lib : Library} {pfrag : Datastore} {s t : State}

/-- The fragment as it is linked. -/
def State.linkedFrag (s : State) (pfrag : Datastore) : Datastore :=
  { pfrag with recsiz := s.v.deflen }

structure Linked (pfrag : Datastore) (s t : State) : Prop where
  inp : t.inp = s.inp
  goes : t.v.goes = s.v.goes
  nwstg : t.v.nwstg = s.v.nwstg
  asm : t.asm = { s.asm with
    prod := { s.asm.prod with frags := s.asm.prod.frags ++ [s.linkedFrag pfrag] } }

theorem link_ends :
    (link pfrag s).Ends (Linked pfrag s) (fun e _ => ∀ r, e ≠ .again r) := by
  unfold link
  split
  · exact ⟨rfl, rfl, rfl, rfl⟩
  · exact Flow.ends_ite (fun _ => ⟨rfl, rfl, rfl, rfl⟩) fun _ => nofun

theorem process_spec (lib : Library) (s : State) :
    (s.process lib).asm.prod = { s.asm.prod with frags := [] } ∧
      (s.process lib).asm.calls = s.asm.calls ++ [s.call] ∧
      (s.process lib).asm.pnginit = false ∧ (s.process lib).asm.out = s.asm.out :=
  ⟨rfl, rfl, rfl, rfl⟩

theorem nwstgEnd_spec (s : State) :
    (nwstgEnd s).asm.prod = s.asm.prod ∧ (nwstgEnd s).asm.calls = s.asm.calls ∧
      SamePng s.asm.out (nwstgEnd s).asm.out := by
  unfold nwstgEnd
  split_ifs
  · exact ⟨rfl, rfl, .append ..⟩
  · exact ⟨rfl, rfl, .refl _⟩

/-- A product has been handed to `process_prod`. -/
structure Handed (s t : State) : Prop where
  prod : t.asm.prod = { s.asm.prod with frags := [] }
  calls : ∃ c, t.asm.calls = s.asm.calls ++ [c] ∧ c.prod = s.asm.prod
  pnginit : t.asm.pnginit = false

theorem handed_process (lib : Library) (s : State) :
    Handed s ((if s.v.nwstg then nwstgEnd s else s).process lib) ∧
      SamePng s.asm.out ((if s.v.nwstg then nwstgEnd s else s).process lib).asm.out := by
  split_ifs
  · obtain ⟨hp, hc, ho⟩ := nwstgEnd_spec s
    obtain ⟨h1, h2, h3, h4⟩ := process_spec lib (nwstgEnd s)
    exact ⟨⟨by rw [h1, hp], ⟨_, by rw [h2, hc], hp⟩, h3⟩, by rw [h4]; exact ho⟩
  · exact ⟨⟨rfl, ⟨s.call, rfl, rfl⟩, rfl⟩, .refl _⟩

/-- How the writer is left: an open one is closed for a GOES product only. -/
inductive EndImage (s t : State) : Prop where
  | same (h : ¬ (s.v.goes = true ∧ s.asm.pnginit = true)) (ho : SamePng s.asm.out t.asm.out)
  | ended (hg : s.v.goes = true) (hp : s.asm.pnginit = true)
      (ho : WriterEnded s.asm.out t.asm.out
        [.finish s.asm.out.product s.asm.out.opened,
          .prodlen s.asm.out.product s.asm.out.mapped s.asm.out.image])

inductive FinishGo (pfrag : Datastore) (s t : State) : Prop where
  | more (hc : s.asm.prod.completedBy pfrag = false) (h : t = s)
  | handed (hc : s.asm.prod.completedBy pfrag = true) (h : Handed s t) (hi : EndImage s t)

theorem finish_ends :
    (finish lib pfrag s).Ends (FinishGo pfrag s) (fun e _ => ∀ r, e ≠ .again r) := by
  refine Flow.ends_ite (fun hc => ?_) fun hc => .more (by simpa using hc) rfl
  cases hg : s.v.goes with
  | false =>
    have h := handed_process lib s
    exact .handed hc h.1 (.same (by simp [hg]) h.2)
  | true =>
    unfold goesEnd
    cases hp : s.asm.pnginit with
    | false =>
      have h := handed_process lib s
      exact .handed hc h.1 (.same (by simp [hp]) h.2)
    | true =>
      simp only [↓reduceIte]
      split
      · nofun
      next out hout =>
      obtain ⟨hw, hm⟩ := pngoutEnd_ended hout
      obtain ⟨h, hsame⟩ := handed_process lib
        { s.setOut (pngGetProdlen out).2 with
          v := { s.v with heapcount := (pngGetProdlen out).1 } }
      refine .handed hc ⟨h.prod, h.calls, h.pnginit⟩ (.ended hg hp ⟨hw.wasOpen, ?_, ?_, ?_, ?_⟩)
      · simpa [State.setOut, pngGetProdlen, hw.closed] using hsame.isOpen
      · exact hsame.product.trans hw.product
      · exact hsame.image.trans hw.image
      · refine hsame.log.trans ?_
        change out.pngLog ++ [.prodlen out.product out.mapped out.image] = _
        rw [hw.log, hw.product, hm, hw.image, List.append_assoc]
        rfl

end Link

section Data
variable {lib : Library} {s t : State}

/-- "Get the data" to the end of the body: copied, linked, perhaps complete. -/
inductive DataGo (lib : Library) (s t : State) : Prop where
  | goes (hg : s.v.goes = true) (m l : State) (hm : GoesGo (s.newFrag lib) (s.getData lib) m)
      (hl : Linked (s.newFrag lib) m l) (hf : FinishGo (s.newFrag lib) l t)
  | nwstg (hg : s.v.goes = false) (m l : State) (hm : NwstgGo (s.newFrag lib) (s.getData lib) m)
      (hl : Linked (s.newFrag lib) m l) (hf : FinishGo (s.newFrag lib) l t)

inductive DataExit (lib : Library) (s : State) (e : Exit) (t : State) : Prop where
  | goes (hg : s.v.goes = true) (h : GoesExit (s.newFrag lib) (s.getData lib) e t)
  | nwstg (hg : s.v.goes = false) (h : NwstgExit (s.newFrag lib) (s.getData lib) e t)

theorem data_ends (lib : Library) (s : State) :
    (data lib s).Ends (DataGo lib s) (DataExit lib s) := by
  have hg' : (s.getData lib).v.goes = s.v.goes := rfl
  unfold data
  cases hg : s.v.goes with
  | true =>
    simp only [hg', hg, ↓reduceIte]
    refine Flow.Ends.bind (goesData_ends.mono (fun _ h => h) fun e t h => .goes hg h) fun m hm => ?_
    refine Flow.Ends.bind (link_ends.mono (fun _ h => h) fun e t h => .goes hg (.stuck e t h))
      fun l hl => ?_
    exact finish_ends.mono (fun t h => .goes hg m l hm hl h) fun e t h => .goes hg (.stuck e t h)
  | false =>
    simp only [hg', hg, Bool.false_eq_true, ↓reduceIte]
    refine Flow.Ends.bind (nwstgData_ends.mono (fun _ h => h) fun e t h => .nwstg hg h)
      fun m hm => ?_
    refine Flow.Ends.bind (link_ends.mono (fun _ h => h) fun e t h => .nwstg hg (.stuck e t h))
      fun l hl => ?_
    exact finish_ends.mono (fun t h => .nwstg hg m l hm hl h) fun e t h => .nwstg hg (.stuck e t h)

end Data

section Step
variable {p : Program} {lib : Library} {s t : State} {e : Event}

/-- An iteration after which the loop goes on. -/
inductive StepCase (p : Program) (lib : Library) (s : State) : Event → State → Prop where
  | taken (u t : State) (hu : front p lib s = .go u) (hf : FrontGo p lib s u)
      (h : DataGo lib u t) : StepCase p lib s .taken t
  | refused (r : Reason) (u t : State) (hu : front p lib s = .go u) (hf : FrontGo p lib s u)
      (h : DataExit lib u (.again r) t) : StepCase p lib s (.skipped r) t
  | early (r : Reason) (t : State) (h : FrontExit p lib s (.again r) t) :
      StepCase p lib s (.skipped r) t

theorem iteration_ends (p : Program) (lib : Library) (s : State) :
    (iteration p lib s).Ends (StepCase p lib s .taken)
      (fun e t => ∀ r, e = .again r → StepCase p lib s (.skipped r) t) := by
  have hfront := front_ends p lib s
  unfold iteration
  cases hu : front p lib s with
  | exit e u =>
    rintro r rfl
    exact .early r u (hfront.exit hu)
  | go u =>
    rw [Flow.bind_go]
    refine (data_ends lib u).mono (fun t h => .taken u t hu (hfront.go hu) h) ?_
    rintro e t h r rfl
    exact .refused r u t hu (hfront.go hu) h

theorem step_cases (h : Step p lib s e t) : ∃ t', StepCase p lib s e t' ∧ t.asm = t'.asm := by
  obtain ⟨t', hor, ht, -⟩ := h
  refine ⟨t', ?_, by rw [ht]⟩
  rcases hor with ⟨hit, rfl⟩ | ⟨r, hit, rfl⟩
  · exact (iteration_ends p lib s).go hit
  · exact (iteration_ends p lib s).exit hit r rfl

/-- Where the variables are lost, any may stand at the end of a step. -/
theorem Step.anyVars (hk : p.keepsVars = false) (h : Step p lib s e t) (v : LoopVars) :
    Step p lib s e { t with v } := by
  obtain ⟨u, hit, ht, -⟩ := h
  exact ⟨u, hit, by rw [ht], fun hkept => absurd (hk.symm.trans hkept) Bool.false_ne_true⟩

end Step
end Noaaport
