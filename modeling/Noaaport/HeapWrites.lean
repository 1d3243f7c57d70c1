import Noaaport.DataPhase
import Noaaport.Lib.Writes
import Noaaport.PacketBuffer

/-! The writes of an iteration to `memheap`, site by site, and that it makes no others. -/
namespace Noaaport
open Lib

section Png
variable (lib : Library) (o : Output)

/-- What libpng puts out for rows of the buffer, until it gives up. -/
def rowChunks (buf : Buffer) (dataoff nx : Nat) : List Nat → PngStruct → List (List UInt8)
  | [], _ => []
  | nscan :: rows, q =>
    let row := load buf (dataoff + nscan * nx) q.width
    match lib.pngWriteRow q row with
    | none => []
    | some bs => bs :: rowChunks buf dataoff nx rows { q with rows := q.rows ++ [row] }

def Output.rowWrites (buf : Buffer) (dataoff nx : Nat) (rows : List Nat) : List (Write UInt8) :=
  match o.png.ptr with
  | none => []
  | some q =>
    if o.png.prodmap = o.memheap.id then inRow o.png.prodoff (rowChunks lib buf dataoff nx rows q)
    else []

/-- What `png_write_end` puts out, where it is called. -/
def endChunk : Option PngStruct → List UInt8
  | none => []
  | some q => if lib.haveIdat q then (lib.pngWriteEnd q).getD [] else []

def Output.endWrites : List (Write UInt8) :=
  if o.png.prodmap = o.memheap.id then [⟨o.png.prodoff, endChunk lib o.png.ptr⟩] else []

end Png

section Sites
variable (lib : Library)

/-- The block of a product that is abandoned unfinished: the end of its image. -/
def abandonWrites (p : Program) (s : State) : List (Write UInt8) :=
  match packet p s with
  | .exit _ _ => []
  | .go t =>
    if t.inp.pdh.pshlen = 0 then []
    else
      match acceptPsh p t with
      | .exit _ _ => []
      | .go u => if u.asm.prod.frags ≠ [] ∧ u.asm.pnginit then u.asm.out.endWrites lib else []

/-- `sprintf` of the FOS header. -/
def State.headerWrites (s : State) : List (Write UInt8) :=
  if s.inp.pdh.pshlen ≠ 0 ∧ s.v.nwstg then [⟨0, fosHeader s.inp.pdh.seqno ++ [0]⟩] else []

/-- The first block of an image and what libpng puts behind it. -/
def State.imageStart (s : State) : List (List UInt8) :=
  [s.block, lib.pngWriteInfo s.asm.pdb.nx (s.asm.pdb.ny + 1)]

def State.firstWrites (s : State) : List (Write UInt8) :=
  if s.v.prodCompressed then [⟨s.v.heapcount, s.block⟩] else inRow 0 (s.imageStart lib)

def State.nextWrites (s : State) : List (Write UInt8) :=
  if s.v.prodCompressed then [⟨s.v.heapcount, s.block⟩]
  else if s.asm.pdb.nx = 0 ∧ s.inp.pdh.dbsize > 0 then []
  else
    s.asm.out.rowWrites lib s.inp.buf s.v.dataoff s.asm.pdb.nx
      (scanlines s.asm.pdb.nx s.inp.pdh.dbsize s.inp.pdh.recordsPerBlock)

/-- A GOES block after the first is taken. -/
def State.takesNext (s : State) (pfrag : Datastore) : Bool :=
  match s.asm.prod.frags.getLast? with
  | none => false
  | some tail =>
    s.asm.tailLives tail && !s.asm.prod.missing tail pfrag && (s.asm.pnginit || s.v.prodCompressed)

def State.goesWrites (s : State) (pfrag : Datastore) : List (Write UInt8) :=
  if pfrag.fragnum > 0 then if s.takesNext pfrag then s.nextWrites lib else []
  else s.firstWrites lib

def State.nwstgWrites (s : State) (pfrag : Datastore) : List (Write UInt8) :=
  match nwstgData pfrag s with
  | .exit _ _ => []
  | .go m => [⟨m.v.heapcount, m.block⟩]

/-- The end of the image, or the FOS trailer. -/
def State.finishWrites (s : State) (pfrag : Datastore) : List (Write UInt8) :=
  if s.asm.prod.completedBy pfrag then
    if s.v.goes then if s.asm.pnginit then s.asm.out.endWrites lib else []
    else if s.v.heapcount > 4 then [⟨s.v.heapcount, fosTrailer⟩]
    else []
  else []

/-- From "Get the data" to the linking of the block. -/
def State.linkData (s : State) : Flow :=
  (if s.v.goes then goesData lib (s.newFrag lib) (s.getData lib)
    else nwstgData (s.newFrag lib) (s.getData lib)).bind (link (s.newFrag lib))

def State.dataWrites (s : State) : List (Write UInt8) :=
  (if s.v.goes then (s.getData lib).goesWrites lib (s.newFrag lib)
    else (s.getData lib).nwstgWrites (s.newFrag lib)) ++
  match s.linkData lib with
  | .exit _ _ => []
  | .go l => l.finishWrites lib (s.newFrag lib)

/-- All of an iteration, in order. -/
def iterationWrites (p : Program) (s : State) : List (Write UInt8) :=
  abandonWrites lib p s ++
  match front p lib s with
  | .exit _ _ => []
  | .go t => t.headerWrites ++ t.dataWrites lib

end Sites

section PngReplay
variable {lib : Library} {o o' : Output}

/-- A write through `png_header`, which is one to the heap. -/
theorem pngHeader_replay {bs : List UInt8} (h : pngHeader o bs = some o') :
    o.png.prodmap = o.memheap.id ∧ o'.memheap.id = o.memheap.id ∧
      o'.memheap.mem = store o.memheap.mem o.png.prodoff bs ∧
      o'.png = { o.png with prodoff := o.png.prodoff + bs.length } := by
  unfold pngHeader at h
  split_ifs at h with hmap
  cases h
  exact ⟨hmap, rfl, rfl, rfl⟩

theorem writeScanlines_replay {buf : Buffer} {a nx : Nat} {rows : List Nat}
    (h : writeScanlines lib buf a nx rows o = some o') :
    o'.memheap.mem = replay o.memheap.mem (o.rowWrites lib buf a nx rows) := by
  induction rows generalizing o with
  | nil =>
    cases h
    unfold Output.rowWrites
    split
    · rfl
    · split_ifs <;> rfl
  | cons r rows ih =>
    obtain ⟨o₁, h₁, h₂⟩ := Option.bind_eq_some_iff.1 h
    unfold pngwrite at h₁
    split at h₁
    · cases h₁
    next q hq =>
    dsimp only at h₁
    split at h₁
    · cases h₁
    next bs hbs =>
    obtain ⟨hmap, hid, hmem, hpng⟩ := pngHeader_replay h₁
    have hid' : o₁.memheap.id = o.memheap.id := hid
    have hmap' : o.png.prodmap = o.memheap.id := hmap
    rw [ih h₂, hmem]
    simp only [Output.rowWrites, hq, hpng, hid', hmap', ↓reduceIte, rowChunks, hbs, inRow, replay_cons]

theorem pngoutEnd_replay (h : pngoutEnd lib o = some o') :
    o'.memheap.mem = replay o.memheap.mem (o.endWrites lib) := by
  unfold pngoutEnd at h
  unfold Output.endWrites endChunk
  cases hq : o.png.ptr with
  | none =>
    rw [hq] at h
    cases h
  | some q =>
    rw [hq] at h
    dsimp only at h ⊢
    by_cases hidat : lib.haveIdat q
    · rw [if_pos hidat] at h
      simp only [hidat, ↓reduceIte]
      cases hbs : lib.pngWriteEnd q with
      | none =>
        rw [hbs] at h
        cases h
      | some bs =>
        rw [hbs] at h
        obtain ⟨o₁, h₁, rfl⟩ := Option.map_eq_some_iff.1 h
        obtain ⟨hmap, -, hmem, -⟩ := pngHeader_replay h₁
        rw [if_pos hmap]
        exact hmem
    · rw [if_neg hidat] at h
      cases h
      simp only [hidat, Bool.false_eq_true, ↓reduceIte]
      split_ifs
      · exact (store_nil _ _).symm
      · rfl

/-- Setting `prodmap` to the heap, every write of `png_io.c` goes there. -/
theorem imageStart_replay {bs : List UInt8} {width height : Nat}
    (h : (pngHeader (pngSetMemheap o) bs).bind (fun o => pngoutInit lib o width height) = some o') :
    o'.memheap.mem = replay o.memheap.mem (inRow 0 [bs, lib.pngWriteInfo width height]) := by
  obtain ⟨o₁, h₁, h₂⟩ := Option.bind_eq_some_iff.1 h
  obtain ⟨-, -, hmem₁, hpng₁⟩ := pngHeader_replay h₁
  obtain ⟨-, -, hmem₂, -⟩ := pngHeader_replay h₂
  have hoff : o₁.png.prodoff = bs.length := by
    rw [hpng₁]
    exact Nat.zero_add _
  change o'.memheap.mem = store o₁.memheap.mem o₁.png.prodoff _ at hmem₂
  rw [hmem₂, hmem₁, hoff, inRow, inRow, inRow, Nat.zero_add]
  rfl

end PngReplay

section DataReplay
variable {lib : Library} {pfrag : Datastore} {s t : State}

def State.mem (s : State) : Mem UInt8 := s.asm.out.memheap.mem

/-- A flow that leaves `m` in the heap, unless what comes then is undefined. -/
def Leaves (x : Flow) (m : Mem UInt8) : Prop :=
  x.Ends (fun t => t.mem = m) fun e t => (∃ r, e = .again r) → t.mem = m

theorem goesFirst_replay : Leaves (goesFirst lib s) (replay s.mem (s.firstWrites lib)) := by
  unfold goesFirst State.firstWrites
  split_ifs
  · exact rfl
  · split
    · rintro ⟨r, hr⟩
      cases hr
    next out hout => exact imageStart_replay hout

theorem goesNext_replay : Leaves (goesNext lib s) (replay s.mem (s.nextWrites lib)) := by
  unfold goesNext State.nextWrites
  split_ifs
  · exact rfl
  · rintro ⟨r, hr⟩
    cases hr
  · split
    · rintro ⟨r, hr⟩
      cases hr
    next out hout => exact writeScanlines_replay hout

theorem Leaves.bind {x : Flow} {f : State → Flow} {m m' : Mem UInt8} (h : Leaves x m)
    (hf : ∀ t, x = .go t → t.mem = m → Leaves (f t) m')
    (he : ∀ e t, x = .exit e t → t.mem = m → m = m') : Leaves (x.bind f) m' := by
  cases x with
  | go t => exact hf t rfl h
  | exit e t => exact fun hr => (h hr).trans (he e t rfl (h hr))

theorem Leaves.again {m : Mem UInt8} {e : Exit} (h : t.mem = m) : Leaves (.exit e t) m := fun _ => h

theorem Leaves.lost {m : Mem UInt8} {e : Exit} (h : ∀ r, e ≠ .again r) : Leaves (.exit e t) m := by
  rintro ⟨r, hr⟩
  exact absurd hr (h r)

theorem goesData_replay : Leaves (goesData lib pfrag s) (replay s.mem (s.goesWrites lib pfrag)) := by
  unfold goesData State.goesWrites
  refine Leaves.bind (m := replay s.mem (if pfrag.fragnum > 0 then
    if s.takesNext pfrag then s.nextWrites lib else [] else s.firstWrites lib)) ?_ (fun t _ h => h)
    fun _ _ _ _ => rfl
  by_cases hpos : pfrag.fragnum > 0
  · rw [if_pos hpos, if_pos hpos]
    cases htail : s.asm.prod.frags.getLast? with
    | none => exact .lost nofun
    | some tail =>
      have htakes : s.takesNext pfrag = (s.asm.tailLives tail &&
          !s.asm.prod.missing tail pfrag && (s.asm.pnginit || s.v.prodCompressed)) := by
        rw [State.takesNext, htail]
      rw [htakes]
      dsimp only
      cases hlives : s.asm.tailLives tail with
      | false => exact .lost nofun
      | true =>
        cases hmissing : s.asm.prod.missing tail pfrag with
        | true => exact .again rfl
        | false =>
          by_cases himage : s.asm.pnginit = false ∧ s.v.prodCompressed = false
          · rw [himage.1, himage.2]
            exact .again rfl
          · have hgo : (s.asm.pnginit || s.v.prodCompressed) = true := by
              cases hp : s.asm.pnginit <;> cases hz : s.v.prodCompressed <;> simp_all
            simpa [himage, hgo] using goesNext_replay
  · rw [if_neg hpos, if_neg hpos]
    exact goesFirst_replay

theorem nwstgCopy_replay : (nwstgCopy pfrag s).Ends
    (fun t => t.mem = replay s.mem [⟨t.v.heapcount, t.block⟩]) fun _ t => t.mem = s.mem := by
  refine Flow.ends_ite (fun _ => rfl) fun _ => ?_
  rfl

theorem nwstgData_replay :
    Leaves (nwstgData pfrag s) (replay s.mem (s.nwstgWrites pfrag)) := by
  have hends : (nwstgData pfrag s).Ends (fun t => t.mem = replay s.mem [⟨t.v.heapcount, t.block⟩])
      fun _ t => t.mem = s.mem := by
    unfold nwstgData
    split
    · exact nwstgCopy_replay
    · refine Flow.ends_ite (fun _ => nwstgCopy_replay) fun _ => ?_
      refine Flow.ends_ite (fun _ => rfl) fun _ => ?_
      exact Flow.ends_ite (fun _ => rfl) fun _ => nwstgCopy_replay
  unfold State.nwstgWrites
  cases hm : nwstgData pfrag s with
  | go t => exact hends.go hm
  | exit e t => exact .again (hends.exit hm)

theorem link_replay : (link pfrag s).Ends (fun t => t.mem = s.mem) fun e _ => ∀ r, e ≠ .again r := by
  unfold link
  split
  · rfl
  · exact Flow.ends_ite (fun _ => rfl) fun _ => nofun

theorem nwstgEnd_replay : (nwstgEnd s).mem =
    replay s.mem (if s.v.heapcount > 4 then [⟨s.v.heapcount, fosTrailer⟩] else []) := by
  unfold nwstgEnd
  split_ifs
  · rfl
  · rfl

theorem finish_replay (hk : s.OneKind) :
    Leaves (finish lib pfrag s) (replay s.mem (s.finishWrites lib pfrag)) := by
  unfold finish State.finishWrites
  by_cases hc : s.asm.prod.completedBy pfrag = true
  · rw [if_pos hc, if_pos hc]
    cases hg : s.v.goes with
    | false =>
      have hn : s.v.nwstg = true := by rwa [State.OneKind, hg] at hk
      simp only [Bool.false_eq_true, ↓reduceIte, Flow.bind_go, hn]
      exact nwstgEnd_replay
    | true =>
      have hn : s.v.nwstg = false := by rwa [State.OneKind, hg] at hk
      unfold goesEnd
      simp only [↓reduceIte]
      split_ifs
      · split
        · exact .lost (by rintro _ ⟨⟩)
        next out hout =>
        rw [Flow.bind_go]
        simp only [State.setOut, hn, Bool.false_eq_true, ↓reduceIte]
        change out.memheap.mem = _
        exact pngoutEnd_replay hout
      · rw [Flow.bind_go]
        simp only [hn, Bool.false_eq_true, ↓reduceIte]
        rfl
  · rw [if_neg hc, if_neg hc]
    rfl

theorem linkData_replay (lib : Library) (s : State) : Leaves (s.linkData lib) (replay s.mem
    (if s.v.goes then (s.getData lib).goesWrites lib (s.newFrag lib)
      else (s.getData lib).nwstgWrites (s.newFrag lib))) := by
  unfold State.linkData
  refine Leaves.bind (m := replay s.mem (if s.v.goes then
    (s.getData lib).goesWrites lib (s.newFrag lib)
    else (s.getData lib).nwstgWrites (s.newFrag lib))) ?_ (fun t _ ht => ?_) fun _ _ _ _ => rfl
  · split_ifs
    · exact goesData_replay
    · exact nwstgData_replay
  · rw [← ht]
    exact link_replay.mono (fun _ h => h) fun e t h => (.lost h : Leaves (.exit e t) _)

theorem linkData_channels (lib : Library) (s : State) :
    (s.linkData lib).Ends (fun l => l.v.goes = s.v.goes ∧ l.v.nwstg = s.v.nwstg) fun _ _ => True := by
  unfold State.linkData
  refine Flow.Ends.bind (P := fun m => m.v.goes = s.v.goes ∧ m.v.nwstg = s.v.nwstg) ?_ fun m hm => ?_
  · split_ifs
    · exact goesData_ends.mono (fun _ h => ⟨h.copied.goes, h.copied.nwstg⟩) fun _ _ _ => trivial
    · exact nwstgData_ends.mono (fun _ h => ⟨h.copied.goes, h.copied.nwstg⟩) fun _ _ _ => trivial
  · exact link_ends.mono (fun _ h => ⟨h.goes.trans hm.1, h.nwstg.trans hm.2⟩) fun _ _ _ => trivial

theorem data_eq (s : State) : data lib s = (s.linkData lib).bind (finish lib (s.newFrag lib)) := by
  unfold data State.linkData
  rw [Flow.bind_assoc]
  rfl

theorem data_replay (hk : s.OneKind) : Leaves (data lib s) (replay s.mem (s.dataWrites lib)) := by
  have hlink := linkData_replay lib s
  have hkinds := linkData_channels lib s
  rw [data_eq]
  unfold State.dataWrites
  rw [replay_append]
  refine hlink.bind (fun l hl hmem => ?_) fun e t he _ => by rw [he]; rfl
  rw [hl, ← hmem]
  obtain ⟨hgoes, hnwstg⟩ := hkinds.go hl
  refine finish_replay ?_
  rw [State.OneKind, hgoes, hnwstg]
  exact hk

end DataReplay

section FrontReplay
variable {p : Program} {lib : Library} {s t u : State}

theorem abandon_replay {a b : Asm} (h : a.abandon lib = some b) :
    b.out.memheap.mem = replay a.out.memheap.mem
      (if a.prod.frags ≠ [] ∧ a.pnginit then a.out.endWrites lib else []) := by
  unfold Asm.abandon at h
  split_ifs at h with hnil hpng
  · cases h
    rw [if_neg (fun hw => hw.1 hnil)]
    rfl
  · obtain ⟨out, hout, rfl⟩ := Option.map_eq_some_iff.1 h
    rw [if_pos ⟨hnil, hpng⟩]
    exact pngoutEnd_replay hout
  · cases h
    rw [if_neg (fun hw => hpng hw.2)]
    rfl

theorem openProduct_replay (hk : s.OneKind) : (openProduct lib s).Ends
    (fun t => t.OneKind ∧ t.inp.pdh = s.inp.pdh ∧ t.mem = replay s.mem
      (if t.v.nwstg then [⟨0, fosHeader t.inp.pdh.seqno ++ [0]⟩] else []))
    (fun _ t => t.mem = s.mem) := by
  cases hg : s.v.goes with
  | true =>
    have hn : s.v.nwstg = false := by rwa [State.OneKind, hg] at hk
    unfold openProduct
    rw [if_pos hg]
    refine Flow.Ends.bind (P := fun t => t.v.nwstg = false ∧ t.v.goes = true ∧
      t.inp.pdh = s.inp.pdh ∧ t.mem = s.mem) ?_ fun t ht => ?_
    · refine Flow.ends_ite (fun _ => rfl) fun _ => ⟨hn, hg, rfl, ?_⟩
      unfold State.mem State.alloc prodalloc
      dsimp only
      split_ifs <;> rfl
    · obtain ⟨h1, h2, h3, h4⟩ := ht
      simp only [h1, Bool.false_eq_true, ↓reduceIte, Flow.ends_go, replay_nil]
      exact ⟨by rw [State.OneKind, h1, h2]; rfl, h3, h4⟩
  | false =>
    have hn : s.markImage.v.nwstg = true := by rwa [State.OneKind, hg] at hk
    unfold openProduct
    simp only [hg, hn, Bool.false_eq_true, ↓reduceIte, Flow.bind_go, Flow.ends_go]
    refine ⟨hk, rfl, ?_⟩
    have hn' : (nwstgHeader lib s.markImage).v.nwstg = true := hn
    rw [if_pos hn']
    unfold nwstgHeader State.storeFosHeader State.mem State.alloc prodalloc
    dsimp only
    split_ifs <;> rfl

theorem packet_ends (p : Program) (s : State) :
    (packet p s).Ends (fun t => Untouched s t ∧ t.OneKind) fun _ t => Untouched s t := by
  unfold packet
  cases sync p s.inp with
  | exit e i => exact ⟨rfl, rfl, rfl, rfl⟩
  | go i =>
    refine (definition_ends p (s.setInp i)).mono (fun t h => ⟨?_, h.oneKind⟩) fun e t h => ?_
    · exact ⟨h.asm, h.untouched.heapcount, h.untouched.heapsize, h.untouched.prodName⟩
    · exact ⟨h.asm, h.heapcount, h.heapsize, h.prodName⟩

/-- Only the PSH may have been decoded. -/
structure PshOnly (s u : State) : Prop where
  asm : u.asm = { s.asm with psh := u.asm.psh }
  vars : u.v = s.v
  pdh : u.inp.pdh = s.inp.pdh

theorem acceptPsh_ends (p : Program) (s : State) :
    (acceptPsh p s).Ends (PshOnly s) fun _ => PshOnly s := by
  refine Flow.Ends.bind ((State.read_ends ..).mono (fun _ h => h) ?_) ?_
  · rintro e t ⟨rfl, -⟩
    exact ⟨rfl, rfl, rfl⟩
  · rintro t ⟨rfl, -, -⟩
    refine Flow.ends_ite (fun _ => ⟨rfl, rfl, rfl⟩) fun _ => ?_
    exact Flow.ends_ite (fun _ => ⟨rfl, rfl, rfl⟩) fun _ => ⟨rfl, rfl, rfl⟩

theorem startProduct_replay (hk : s.OneKind) (hpsh : s.inp.pdh.pshlen ≠ 0) :
    (startProduct p lib s).Ends
      (fun t => t.OneKind ∧ t.mem = replay s.mem
        ((if s.asm.prod.frags ≠ [] ∧ s.asm.pnginit then s.asm.out.endWrites lib else []) ++
          t.headerWrites))
      fun e t => (∃ r, e = .again r) → t.mem = replay s.mem
        (if s.asm.prod.frags ≠ [] ∧ s.asm.pnginit then s.asm.out.endWrites lib else []) := by
  unfold startProduct
  split
  · rintro ⟨r, hr⟩
    cases hr
  next a ha =>
  have hmem : (s.begin lib a).mem = replay s.mem
      (if s.asm.prod.frags ≠ [] ∧ s.asm.pnginit then s.asm.out.endWrites lib else []) :=
    show a.out.memheap.mem = _ from abandon_replay ha
  refine Flow.Ends.bind ((State.read_ends ..).mono (fun _ h => h) ?_) ?_
  · rintro e t ⟨rfl, -⟩ -
    exact hmem
  · rintro t ⟨rfl, -, -⟩
    have hinp := resetHeap_inp ((s.begin lib a).setInp ((s.begin lib a).inp.take
      (s.begin lib a).inp.dataOff ((s.begin lib a).inp.pdh.dbsize : Int).toNat))
    have hreset (u : State) : u.rerouteChannel4.resetHeap.mem = u.mem := by
      simp only [State.mem, State.resetHeap, rerouteChannel4_asm]
    have hkind : ((s.begin lib a).setInp ((s.begin lib a).inp.take (s.begin lib a).inp.dataOff
        ((s.begin lib a).inp.pdh.dbsize : Int).toNat)).rerouteChannel4.resetHeap.OneKind :=
      State.OneKind.reroute (s := (s.begin lib a).setInp _) hk
    refine (openProduct_replay hkind).mono ?_ ?_
    · rintro t ⟨hkt, hpdh, ht⟩
      refine ⟨hkt, ?_⟩
      rw [ht, hreset, replay_append]
      have hpdh' : t.inp.pdh = s.inp.pdh := by
        rw [hpdh, hinp]
        rfl
      unfold State.headerWrites
      rw [hpdh']
      simp only [hpsh, ne_eq, not_false_eq_true, true_and]
      exact congrArg (replay · _) hmem
    · rintro e t ht -
      rw [ht, hreset]
      exact hmem

theorem front_replay (p : Program) (lib : Library) (s : State) : (front p lib s).Ends
    (fun t => t.OneKind ∧ t.mem = replay s.mem (abandonWrites lib p s ++ t.headerWrites))
    fun e t => (∃ r, e = .again r) → t.mem = replay s.mem (abandonWrites lib p s) := by
  have hpacket := packet_ends p s
  rw [front_eq]
  unfold abandonWrites
  cases ht : packet p s with
  | exit e t =>
    have hsame : t.mem = s.mem := by rw [State.mem, (hpacket.exit ht).asm]; rfl
    exact fun _ => hsame
  | go t =>
    obtain ⟨hut, hk⟩ := hpacket.go ht
    have hsame : t.mem = s.mem := by rw [State.mem, hut.asm]; rfl
    rw [Flow.bind_go]
    by_cases hpsh : t.inp.pdh.pshlen = 0
    · rw [if_neg (not_not.2 hpsh)]
      dsimp only
      rw [if_pos hpsh]
      have hcont (u : State) (hu : u.asm = t.continued.asm) : u.mem = s.mem := by
        rw [State.mem, hu]
        exact hsame
      refine (continuationRecord_ends hpsh).mono (fun u hu => ⟨?_, ?_⟩) fun e u hu _ => hcont u hu.asm
      · have hv := hk.reroute
        rwa [State.OneKind, ← hu.vars] at hv
      · rw [hcont u hu.asm]
        unfold State.headerWrites
        rw [hu.block.pdh, if_neg fun h => h.1 hpsh]
        rfl
    · rw [if_pos hpsh]
      dsimp only
      rw [if_neg hpsh]
      have hpsh' := acceptPsh_ends p t
      cases hu : acceptPsh p t with
      | exit e u =>
        have hmem : u.mem = s.mem := by rw [State.mem, (hpsh'.exit hu).asm]; exact hsame
        exact fun _ => hmem
      | go u =>
        obtain ⟨hasm, hv, hpdh⟩ := hpsh'.go hu
        have hmem : u.mem = s.mem := by rw [State.mem, hasm]; exact hsame
        rw [Flow.bind_go, ← hmem]
        refine startProduct_replay ?_ ?_
        · rwa [State.OneKind, hv]
        · rwa [hpdh]

/-- The writes listed for an iteration are all it makes to the heap, and in this order. -/
theorem iteration_replay (p : Program) (lib : Library) (s : State) :
    Leaves (iteration p lib s) (replay s.mem (iterationWrites lib p s)) := by
  have hfront := front_replay p lib s
  unfold iteration iterationWrites
  cases ht : front p lib s with
  | exit e t =>
    rw [List.append_nil]
    exact hfront.exit ht
  | go t =>
    obtain ⟨hk, hmem⟩ := hfront.go ht
    rw [← List.append_assoc, replay_append, ← hmem]
    exact data_replay hk

/-- If they lie below `n`, an iteration changes no byte of the heap from there on. -/
theorem iteration_beyond (p : Program) {lib : Library} {s : State} {n k : Nat}
    (h : Below n (iterationWrites lib p s)) (hk : n ≤ k) :
    (iteration p lib s).Ends (fun t => t.mem k = s.mem k)
      fun e t => (∃ r, e = .again r) → t.mem k = s.mem k := by
  have hkept : replay s.mem (iterationWrites lib p s) k = s.mem k := h.replay_eq hk
  refine (iteration_replay p lib s).mono (fun t ht => ?_) fun e t ht hagain => ?_
  · rw [ht, hkept]
  · rw [ht hagain, hkept]

end FrontReplay
end Noaaport
