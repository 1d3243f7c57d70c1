import Noaaport.HeapBounds

/-! The bounds of `memheap` on the GOES path, which tests no length: when what a product appends
ends below what `prodalloc` returned. -/
namespace Noaaport
open Lib

/-- `k` bytes from `a` on end at `n` at most. -/
def EndsIn (n a k : Nat) : Prop := k = 0 ∨ a + k ≤ n

section After
variable (lib : Library) (s : State) (pfrag : Datastore)

/-- The rows of an image's block, and what libpng makes of them. -/
def State.rows : List Nat := scanlines s.asm.pdb.nx s.inp.pdh.dbsize s.inp.pdh.recordsPerBlock

def State.rowOutput (q : PngStruct) : List (List UInt8) :=
  rowChunks lib s.inp.buf s.v.dataoff s.asm.pdb.nx s.rows q

/-- The writer and the cursor of `png_io.c` behind a block that has been taken. -/
def State.pngAfter : Png :=
  if s.v.prodCompressed then s.asm.out.png
  else if pfrag.fragnum = 0 then
    { ptr := some { width := s.asm.pdb.nx, height := s.asm.pdb.ny + 1, rows := [] }
      prodmap := s.asm.out.memheap.id
      prodoff := (s.imageStart lib).flatten.length }
  else
    match s.asm.out.png.ptr with
    | none => s.asm.out.png
    | some q =>
      { s.asm.out.png with
        ptr := some { q with
          rows := q.rows ++
            s.rows.map fun nscan => load s.inp.buf (s.v.dataoff + nscan * s.asm.pdb.nx) q.width }
        prodoff := s.asm.out.png.prodoff + (s.rowOutput lib q).flatten.length }

def State.pnginitAfter : Bool :=
  s.asm.pnginit || (pfrag.fragnum = 0 && !s.v.prodCompressed)

/-- The path takes the block: it is block 0, or it follows. -/
def State.TakesGoes : Prop := pfrag.fragnum = 0 ∨ s.takesNext pfrag = true

/-- Every row of the block goes out. -/
def State.RowsGoOut : Prop :=
  s.rows = [] ∨ s.asm.out.png.prodmap = s.asm.out.memheap.id ∧
    ∃ q, s.asm.out.png.ptr = some q ∧ (s.rowOutput lib q).length = s.rows.length

/-- The block is taken, written and linked behind a tail that can be read. -/
structure State.LinksGoes : Prop where
  takes : s.TakesGoes pfrag
  rows : s.v.prodCompressed = false → pfrag.fragnum ≠ 0 →
    ¬ (s.asm.pdb.nx = 0 ∧ s.inp.pdh.dbsize > 0) ∧ s.RowsGoOut lib
  tail : ∀ tail, s.asm.prod.frags.getLast? = some tail → s.asm.tailLives tail = true

/-- What the block and, where it is the last one, the end of the image append ends at `n` at most. -/
structure GoesFits (n : Nat) : Prop where
  compressed : s.v.prodCompressed = true → s.TakesGoes pfrag → EndsIn n s.v.heapcount s.v.datalen
  first : s.v.prodCompressed = false → pfrag.fragnum = 0 →
    EndsIn n 0 (s.imageStart lib).flatten.length
  rows : s.v.prodCompressed = false → pfrag.fragnum ≠ 0 → s.takesNext pfrag = true →
    ¬ (s.asm.pdb.nx = 0 ∧ s.inp.pdh.dbsize > 0) →
    s.asm.out.png.prodmap = s.asm.out.memheap.id → ∀ q, s.asm.out.png.ptr = some q →
    EndsIn n s.asm.out.png.prodoff (s.rowOutput lib q).flatten.length
  last : s.LinksGoes lib pfrag → s.asm.prod.completedBy pfrag = true →
    s.pnginitAfter pfrag = true → (s.pngAfter lib pfrag).prodmap = s.asm.out.memheap.id →
    EndsIn n (s.pngAfter lib pfrag).prodoff (endChunk lib (s.pngAfter lib pfrag).ptr).length

end After

section Rows
variable {lib : Library} {o o' : Output}

/-- The rows go out one behind the other. -/
theorem writeScanlines_png {buf : Buffer} {a nx : Nat} {rows : List Nat} {q : PngStruct}
    (hq : o.png.ptr = some q) (h : writeScanlines lib buf a nx rows o = some o') :
    o'.png = { o.png with
      ptr := some { q with rows := q.rows ++ rows.map fun nscan => load buf (a + nscan * nx) q.width }
      prodoff := o.png.prodoff + (rowChunks lib buf a nx rows q).flatten.length } := by
  induction rows generalizing o q with
  | nil =>
    cases h
    simp only [List.map_nil, List.append_nil, rowChunks, List.flatten_nil, List.length_nil,
      Nat.add_zero, ← hq]
  | cons r rows ih =>
    obtain ⟨o₁, h₁, h₂⟩ := Option.bind_eq_some_iff.1 h
    unfold pngwrite at h₁
    rw [hq] at h₁
    dsimp only at h₁
    split at h₁
    · cases h₁
    next bs hbs =>
    obtain ⟨-, -, -, hpng⟩ := pngHeader_replay h₁
    rw [ih (by rw [hpng]) h₂, hpng]
    simp only [rowChunks, hbs, List.flatten_cons, List.length_append, List.map_cons,
      List.append_assoc, List.cons_append, List.nil_append, Nat.add_assoc]

theorem writeScanlines_none {buf : Buffer} {a nx : Nat} {rows : List Nat} (hq : o.png.ptr = none)
    (h : writeScanlines lib buf a nx rows o = some o') : o' = o := by
  cases rows with
  | nil => exact (Option.some.inj h).symm
  | cons r rows =>
    obtain ⟨o₁, h₁, -⟩ := Option.bind_eq_some_iff.1 h
    unfold pngwrite at h₁
    rw [hq] at h₁
    cases h₁

/-- They all go out if there are none, or libpng takes each of them on the current heap. -/
theorem writeScanlines_isSome {buf : Buffer} {a nx : Nat} {rows : List Nat} :
    (writeScanlines lib buf a nx rows o).isSome = true ↔
      rows = [] ∨ o.png.prodmap = o.memheap.id ∧
        ∃ q, o.png.ptr = some q ∧ (rowChunks lib buf a nx rows q).length = rows.length := by
  induction rows generalizing o with
  | nil => exact ⟨fun _ => .inl rfl, fun _ => rfl⟩
  | cons r rows ih =>
    rw [writeScanlines]
    unfold pngwrite
    cases hq : o.png.ptr with
    | none =>
      refine ⟨fun h => (Bool.false_ne_true h).elim, ?_⟩
      rintro (h | ⟨-, q, h, -⟩)
      · cases h
      · cases h
    | some q =>
      dsimp only
      cases hbs : lib.pngWriteRow q (load buf (a + r * nx) q.width) with
      | none =>
        refine ⟨fun h => (Bool.false_ne_true h).elim, ?_⟩
        rintro (h | ⟨-, q', hq', hlen⟩)
        · cases h
        · cases hq'
          rw [rowChunks, hbs] at hlen
          cases hlen
      | some bs =>
        dsimp only
        unfold pngHeader
        dsimp only
        by_cases hmap : o.png.prodmap = o.memheap.id
        · rw [if_pos hmap, Option.bind_some, ih]
          simp only [hmap, rowChunks, hbs, List.length_cons, Nat.add_right_cancel_iff, true_and,
            Option.some.injEq, exists_eq_left', reduceCtorEq, false_or]
          exact ⟨fun h => h.elim (fun h => by rw [h]; rfl) id, .inr⟩
        · rw [if_neg hmap]
          refine ⟨fun h => (Bool.false_ne_true h).elim, ?_⟩
          rintro (h | ⟨h, -⟩)
          · cases h
          · exact absurd h hmap

/-- Setting `prodmap` comes first, so an image can always be begun. -/
theorem imageStart_isSome (lib : Library) (o : Output) (bs : List UInt8) (width height : Nat) :
    ((pngHeader (pngSetMemheap o) bs).bind fun o => pngoutInit lib o width height).isSome = true := by
  have hmap : (pngSetMemheap o).png.prodmap = (pngSetMemheap o).memheap.id := rfl
  unfold pngoutInit pngHeader
  simp only [hmap, ↓reduceIte, Option.bind_some, Option.isSome_some]

/-- A new image: its header block and what `png_write_info` puts out. -/
theorem imageStart_png {bs : List UInt8} {width height : Nat}
    (h : (pngHeader (pngSetMemheap o) bs).bind (fun o => pngoutInit lib o width height) = some o') :
    o'.memheap.id = o.memheap.id ∧ o'.png =
      { ptr := some { width, height, rows := [] }
        prodmap := o.memheap.id
        prodoff := ([bs, lib.pngWriteInfo width height].flatten).length } := by
  obtain ⟨o₁, h₁, h₂⟩ := Option.bind_eq_some_iff.1 h
  obtain ⟨-, hid₁, -, hpng₁⟩ := pngHeader_replay h₁
  obtain ⟨-, hid₂, -, hpng₂⟩ := pngHeader_replay h₂
  refine ⟨hid₂.trans hid₁, ?_⟩
  rw [hpng₂]
  simp only [hpng₁, pngSetMemheap, List.flatten_cons, List.flatten_nil, List.append_nil,
    List.length_append, Nat.zero_add]

end Rows

section Goes
variable {lib : Library} {pfrag : Datastore} {s t : State} {n : Nat}

/-- The block as it is linked, as far as what comes later depends on it. -/
structure GoesTaken (lib : Library) (pfrag : Datastore) (s m : State) : Prop where
  png : m.asm.out.png = s.pngAfter lib pfrag
  heap : m.asm.out.memheap.id = s.asm.out.memheap.id
  pnginit : m.asm.pnginit = s.pnginitAfter pfrag
  nfrag : m.asm.prod.nfrag = s.asm.prod.nfrag
  goes : m.v.goes = s.v.goes
  heapcount : m.v.heapcount = s.v.heapcount + if s.v.prodCompressed then s.v.datalen else 0

theorem goesFirst_taken (h0 : pfrag.fragnum = 0) :
    (goesFirst lib s).Ends (fun m => GoesTaken lib pfrag s m ∧ m.asm.prod = s.asm.prod ∧
      m.asm.dataheap = s.asm.dataheap) fun _ _ => False := by
  refine Flow.ends_ite (fun hc => ?_) fun hc => ?_
  · refine ⟨⟨?_, rfl, ?_, rfl, rfl, ?_⟩, rfl, rfl⟩
    · rw [State.pngAfter, if_pos hc]
      rfl
    · rw [State.pnginitAfter, hc]
      simp [State.copyCompressed, State.setOut]
    · rw [if_pos hc]
      rfl
  · have hc' : s.v.prodCompressed = false := by simpa using hc
    split
    · next hout => exact absurd (imageStart_isSome ..) (by rw [hout]; exact Bool.false_ne_true)
    next out hout =>
    obtain ⟨hid, hpng⟩ := imageStart_png hout
    refine ⟨⟨?_, hid, ?_, rfl, rfl, ?_⟩, rfl, rfl⟩
    · rw [State.pngAfter, if_neg hc, if_pos h0]
      exact hpng
    · rw [State.pnginitAfter, hc', h0]
      simp
    · rw [if_neg hc]
      rfl

theorem goesNext_taken (h0 : pfrag.fragnum ≠ 0) :
    (goesNext lib s).Ends
      (fun m => (GoesTaken lib pfrag s m ∧ m.asm.prod = s.asm.prod ∧
          m.asm.dataheap = s.asm.dataheap) ∧
        (s.v.prodCompressed = false →
          ¬ (s.asm.pdb.nx = 0 ∧ s.inp.pdh.dbsize > 0) ∧ s.RowsGoOut lib))
      fun e _ => (∀ r, e ≠ .again r) ∧ s.v.prodCompressed = false ∧
        ((s.asm.pdb.nx = 0 ∧ s.inp.pdh.dbsize > 0) ∨ ¬ s.RowsGoOut lib) := by
  have hinit : s.asm.pnginit = s.pnginitAfter pfrag := by
    rw [State.pnginitAfter]
    simp [h0]
  refine Flow.ends_ite (fun hc => ⟨⟨⟨?_, rfl, hinit, rfl, rfl, ?_⟩, rfl, rfl⟩, fun hf => ?_⟩)
    fun hc => ?_
  · rw [State.pngAfter, if_pos hc]
    rfl
  · rw [if_pos hc]
    rfl
  · exact absurd (hc.symm.trans hf) (by decide)
  have hc' : s.v.prodCompressed = false := by simpa using hc
  refine Flow.ends_ite (fun hnx => ⟨fun _ => by rintro ⟨⟩, hc', .inl hnx⟩) fun hnx => ?_
  split
  · next hout =>
    refine ⟨fun _ => by rintro ⟨⟩, hc', .inr fun hrows => ?_⟩
    have hsome := writeScanlines_isSome.2 hrows
    rw [State.rows, hout] at hsome
    cases hsome
  next out hout =>
  refine ⟨⟨⟨?_, (writeScanlines_same hout).heap, hinit, rfl, rfl, ?_⟩, rfl, rfl⟩, fun _ => ⟨hnx, ?_⟩⟩
  · rw [State.pngAfter, if_neg hc, if_neg h0]
    cases hq : s.asm.out.png.ptr with
    | none => rw [State.setOut, writeScanlines_none hq hout]
    | some q => exact writeScanlines_png hq hout
  · rw [if_neg hc]
    rfl
  · exact writeScanlines_isSome.1 (Option.isSome_iff_exists.2 ⟨out, hout⟩)

/-- The block is refused, and the list of its product dropped or left as it is. -/
structure GoesRefused (pfrag : Datastore) (s t : State) : Prop where
  takes : ¬ s.TakesGoes pfrag
  state : t = s.reset ∨ t = s

theorem goesData_taken :
    (goesData lib pfrag s).Ends
      (fun m => (GoesTaken lib pfrag s m ∧ m.asm.prod = s.asm.prod ∧
          m.asm.dataheap = s.asm.dataheap) ∧ m.v.deflen = 0 ∧ s.TakesGoes pfrag ∧
        (s.v.prodCompressed = false → pfrag.fragnum ≠ 0 →
          ¬ (s.asm.pdb.nx = 0 ∧ s.inp.pdh.dbsize > 0) ∧ s.RowsGoOut lib))
      fun e t => ¬ s.LinksGoes lib pfrag ∧ ∀ r, e = .again r → GoesRefused pfrag s t := by
  refine Flow.Ends.bind (P := fun m => (GoesTaken lib pfrag s m ∧ m.asm.prod = s.asm.prod ∧
      m.asm.dataheap = s.asm.dataheap) ∧ s.TakesGoes pfrag ∧
    (s.v.prodCompressed = false → pfrag.fragnum ≠ 0 →
      ¬ (s.asm.pdb.nx = 0 ∧ s.inp.pdh.dbsize > 0) ∧ s.RowsGoOut lib)) ?_ fun m hm => ?_
  · refine Flow.ends_ite (fun hpos => ?_) fun hpos => ?_
    · have h0 : pfrag.fragnum ≠ 0 := by omega
      have hrefuse (hf : s.takesNext pfrag = false) : ¬ s.TakesGoes pfrag := fun ht => by
        rcases ht with ht | ht
        · exact h0 ht
        · exact Bool.false_ne_true (hf.symm.trans ht)
      split
      · next hnil =>
        have hf : s.takesNext pfrag = false := by rw [State.takesNext, hnil]
        exact ⟨fun hl => hrefuse hf hl.takes, fun _ => by rintro ⟨⟩⟩
      next tail htail =>
      have heq : s.takesNext pfrag = (s.asm.tailLives tail && !s.asm.prod.missing tail pfrag &&
          (s.asm.pnginit || s.v.prodCompressed)) := by rw [State.takesNext, htail]
      refine Flow.ends_ite (fun hdead => ?_) fun hlives => ?_
      · have hf : s.takesNext pfrag = false := by rw [heq, hdead, Bool.false_and, Bool.false_and]
        exact ⟨fun hl => hrefuse hf hl.takes, fun _ => by rintro ⟨⟩⟩
      refine Flow.ends_ite (fun hmissing => ?_) fun hfollows => ?_
      · have hf : s.takesNext pfrag = false := by
          rw [heq, hmissing, Bool.not_true, Bool.and_false, Bool.false_and]
        exact ⟨fun hl => hrefuse hf hl.takes, fun _ _ => ⟨hrefuse hf, .inl rfl⟩⟩
      refine Flow.ends_ite (fun himage => ?_) fun himage => ?_
      · have hf : s.takesNext pfrag = false := by
          rw [heq, himage.1, himage.2, Bool.or_self, Bool.and_false]
        exact ⟨fun hl => hrefuse hf hl.takes, fun _ _ => ⟨hrefuse hf, .inr rfl⟩⟩
      · have ht : s.takesNext pfrag = true := by
          have hl : s.asm.tailLives tail = true := by simpa using hlives
          have hm : s.asm.prod.missing tail pfrag = false := by simpa using hfollows
          rw [heq, hl, hm]
          cases hp : s.asm.pnginit <;> cases hz : s.v.prodCompressed <;> simp_all
        refine (goesNext_taken h0).mono (fun m hm => ⟨hm.1, .inr ht, fun hc _ => hm.2 hc⟩) ?_
        rintro e t ⟨hagain, hc, hno⟩
        refine ⟨fun hl => ?_, fun r hr => absurd hr (hagain r)⟩
        obtain ⟨hnx, hrows⟩ := hl.rows hc h0
        exact hno.elim hnx fun h => h hrows
    · have h0 : pfrag.fragnum = 0 := by omega
      exact (goesFirst_taken h0).mono (fun m hm => ⟨hm, .inl h0, fun _ h => absurd h0 h⟩)
        fun _ _ h => h.elim
  · obtain ⟨⟨hm, hprod, hheap⟩, htakes, hrows⟩ := hm
    exact ⟨⟨⟨hm.png, hm.heap, hm.pnginit, hm.nfrag, hm.goes, hm.heapcount⟩, hprod, hheap⟩, rfl, htakes,
      hrows⟩

/-- A block of the GOES path is linked or, where the loop goes on, refused. -/
theorem goesLink_taken :
    ((goesData lib pfrag s).bind (link pfrag)).Ends
      (fun l => GoesTaken lib pfrag s l ∧ s.LinksGoes lib pfrag ∧ l.asm.prod.frags ≠ [])
      fun e t => ¬ s.LinksGoes lib pfrag ∧ ∀ r, e = .again r → GoesRefused pfrag s t := by
  refine Flow.Ends.bind goesData_taken fun m hm => ?_
  obtain ⟨⟨hm, hprod, hheap⟩, hdeflen, htakes, hrows⟩ := hm
  have htaken : GoesTaken lib pfrag s { m with
      v := { m.v with heapcount := m.v.heapcount + m.v.deflen }
      asm := { m.asm with prod := { m.asm.prod with
        frags := m.asm.prod.frags ++ [{ pfrag with recsiz := m.v.deflen }] } } } :=
    ⟨hm.png, hm.heap, hm.pnginit, hm.nfrag, hm.goes, by rw [hdeflen]; exact hm.heapcount⟩
  have hlives : m.asm.tailLives = s.asm.tailLives := by
    unfold Asm.tailLives
    rw [hheap]
  unfold link
  split
  · next hnil =>
    refine ⟨htaken, ⟨htakes, hrows, fun tail htail => ?_⟩, List.append_ne_nil_of_right_ne_nil _ (List.cons_ne_nil _ _)⟩
    rw [← hprod, hnil] at htail
    cases htail
  next tail htail =>
  rw [hlives]
  refine Flow.ends_ite (fun hl => ?_) fun hdead => ?_
  · refine ⟨htaken, ⟨htakes, hrows, fun tail' htail' => ?_⟩, List.append_ne_nil_of_right_ne_nil _ (List.cons_ne_nil _ _)⟩
    rw [← hprod, htail] at htail'
    cases htail'
    exact hl
  · refine ⟨fun hl => hdead (hl.tail tail ?_), fun _ => by rintro ⟨⟩⟩
    rw [← hprod]
    exact htail

theorem firstWrites_below : Below n (s.firstWrites lib) ↔
    (s.v.prodCompressed = true → EndsIn n s.v.heapcount s.v.datalen) ∧
      (s.v.prodCompressed = false → EndsIn n 0 (s.imageStart lib).flatten.length) := by
  unfold State.firstWrites
  cases hc : s.v.prodCompressed with
  | true =>
    rw [if_pos rfl, below_singleton, State.block, length_load]
    exact ⟨fun h => ⟨fun _ => h, fun hf => absurd hf (by decide)⟩, fun h => h.1 rfl⟩
  | false =>
    rw [if_neg (by decide), below_inRow]
    exact ⟨fun h => ⟨fun ht => absurd ht (by decide), fun _ => h⟩, fun h => h.2 rfl⟩

theorem rowWrites_below {o : Output} {buf : Buffer} {a nx : Nat} {rows : List Nat} :
    Below n (o.rowWrites lib buf a nx rows) ↔
      (o.png.prodmap = o.memheap.id → ∀ q, o.png.ptr = some q →
        EndsIn n o.png.prodoff (rowChunks lib buf a nx rows q).flatten.length) := by
  unfold Output.rowWrites
  cases hq : o.png.ptr with
  | none => exact ⟨fun _ _ _ => nofun, fun _ => below_nil⟩
  | some q =>
    dsimp only
    split_ifs with hmap
    · rw [below_inRow]
      refine ⟨fun h _ q' hq' => ?_, fun h => h hmap q rfl⟩
      cases hq'
      exact h
    · exact ⟨fun _ h => absurd h hmap, fun _ => below_nil⟩

theorem nextWrites_below : Below n (s.nextWrites lib) ↔
    (s.v.prodCompressed = true → EndsIn n s.v.heapcount s.v.datalen) ∧
      (s.v.prodCompressed = false → ¬ (s.asm.pdb.nx = 0 ∧ s.inp.pdh.dbsize > 0) →
        s.asm.out.png.prodmap = s.asm.out.memheap.id → ∀ q, s.asm.out.png.ptr = some q →
        EndsIn n s.asm.out.png.prodoff (s.rowOutput lib q).flatten.length) := by
  unfold State.nextWrites
  cases hc : s.v.prodCompressed with
  | true =>
    rw [if_pos rfl, below_singleton, State.block, length_load]
    exact ⟨fun h => ⟨fun _ => h, fun hf => absurd hf (by decide)⟩, fun h => h.1 rfl⟩
  | false =>
    rw [if_neg (by decide)]
    split_ifs with hx
    · exact ⟨fun _ => ⟨fun ht => absurd ht (by decide), fun _ h => absurd hx h⟩, fun _ => below_nil⟩
    · rw [rowWrites_below]
      exact ⟨fun h => ⟨fun ht => absurd ht (by decide), fun _ _ => h⟩, fun h => h.2 rfl hx⟩

theorem goesFinish_below {l : State} (hl : GoesTaken lib pfrag s l) (hg : s.v.goes = true) :
    Below n (l.finishWrites lib pfrag) ↔
      (s.asm.prod.completedBy pfrag = true → s.pnginitAfter pfrag = true →
        (s.pngAfter lib pfrag).prodmap = s.asm.out.memheap.id →
        EndsIn n (s.pngAfter lib pfrag).prodoff
          (endChunk lib (s.pngAfter lib pfrag).ptr).length) := by
  have hcompl : l.asm.prod.completedBy pfrag = s.asm.prod.completedBy pfrag := by
    unfold Prodstore.completedBy
    rw [hl.nfrag]
  unfold State.finishWrites Output.endWrites
  rw [hcompl, hl.goes, hg, hl.png, hl.heap, hl.pnginit, if_pos rfl]
  split_ifs with hc hp hmap
  · rw [below_singleton]
    exact ⟨fun h _ _ _ => h, fun h => h hc hp hmap⟩
  · exact ⟨fun _ _ _ h => absurd h hmap, fun _ => below_nil⟩
  · exact ⟨fun _ _ h => absurd h hp, fun _ => below_nil⟩
  · exact ⟨fun _ h => absurd h hc, fun _ => below_nil⟩

theorem goesLast_below (hg : s.v.goes = true) :
    Below n (match (goesData lib pfrag s).bind (link pfrag) with
      | .exit _ _ => []
      | .go l => l.finishWrites lib pfrag) ↔
      (s.LinksGoes lib pfrag → s.asm.prod.completedBy pfrag = true →
        s.pnginitAfter pfrag = true → (s.pngAfter lib pfrag).prodmap = s.asm.out.memheap.id →
        EndsIn n (s.pngAfter lib pfrag).prodoff
          (endChunk lib (s.pngAfter lib pfrag).ptr).length) := by
  have hlink := @goesLink_taken lib pfrag s
  cases hl : (goesData lib pfrag s).bind (link pfrag) with
  | exit e l => exact ⟨fun _ h => absurd h (hlink.exit hl).1, fun _ => below_nil⟩
  | go l =>
    obtain ⟨htaken, hlinks, -⟩ := hlink.go hl
    exact (goesFinish_below htaken hg).trans ⟨fun h _ => h, fun h => h hlinks⟩

theorem goesWrites_below : Below n (s.goesWrites lib pfrag) ↔
    if pfrag.fragnum > 0 then s.takesNext pfrag = true → Below n (s.nextWrites lib)
    else Below n (s.firstWrites lib) := by
  unfold State.goesWrites
  split_ifs with hpos htakes
  · exact ⟨fun h _ => h, fun h => h htakes⟩
  · exact ⟨fun _ h => absurd h htakes, fun _ => below_nil⟩
  · exact Iff.rfl

theorem dataWrites_goes (hg : t.v.goes = true) : t.dataWrites lib =
    (t.getData lib).goesWrites lib (t.newFrag lib) ++
      match (goesData lib (t.newFrag lib) (t.getData lib)).bind (link (t.newFrag lib)) with
      | .exit _ _ => []
      | .go l => l.finishWrites lib (t.newFrag lib) := by
  unfold State.dataWrites State.linkData
  rewrite [if_pos hg, if_pos hg]
  rfl

/-- The writes of a GOES block are below `n` if and only if all that it appends ends there. -/
theorem dataWrites_goes_below (hg : t.v.goes = true) :
    Below n (t.dataWrites lib) ↔ GoesFits lib (t.getData lib) (t.newFrag lib) n := by
  rw [dataWrites_goes hg, below_append]
  generalize t.newFrag lib = pfrag
  have hg' : (t.getData lib).v.goes = true := hg
  generalize t.getData lib = s at hg' ⊢
  refine (and_congr goesWrites_below (goesLast_below hg')).trans ?_
  rw [nextWrites_below, firstWrites_below]
  constructor
  · rintro ⟨hb, hl⟩
    by_cases hpos : pfrag.fragnum > 0
    · rw [if_pos hpos] at hb
      have htakes' (h : s.TakesGoes pfrag) : s.takesNext pfrag = true := h.resolve_left (by omega)
      exact ⟨fun hc htakes => (hb (htakes' htakes)).1 hc, fun _ h0 => by omega,
        fun hc _ htakes => (hb htakes).2 hc, hl⟩
    · rw [if_neg hpos] at hb
      exact ⟨fun hc _ => hb.1 hc, fun hc _ => hb.2 hc, fun _ h0 => by omega, hl⟩
  · intro h
    refine ⟨?_, h.last⟩
    split_ifs with hpos
    · exact fun htakes => ⟨fun hc => h.compressed hc (.inr htakes),
        fun hc => h.rows hc (by omega) htakes⟩
    · exact ⟨fun hc => h.compressed hc (.inl (by omega)), fun hc => h.first hc (by omega)⟩

end Goes

section Bounds
variable {p : Program} {lib : Library} {s t : State} {n : Nat}

/-- The end of an image that a new product finds unfinished. -/
def AbandonFits (p : Program) (lib : Library) (n : Nat) (s : State) : Prop :=
  ∀ t u, packet p s = .go t → t.inp.pdh.pshlen ≠ 0 → acceptPsh p t = .go u →
    s.asm.prod.frags ≠ [] → s.asm.pnginit = true →
    s.asm.out.png.prodmap = s.asm.out.memheap.id →
    EndsIn n s.asm.out.png.prodoff (endChunk lib s.asm.out.png.ptr).length

theorem abandonWrites_below : Below n (abandonWrites lib p s) ↔ AbandonFits p lib n s := by
  have hpacket := packet_ends p s
  unfold abandonWrites AbandonFits
  cases ht : packet p s with
  | exit e t => exact ⟨fun _ _ _ h => (nomatch h), fun _ => below_nil⟩
  | go t =>
    have haccept := acceptPsh_ends p t
    dsimp only
    split_ifs with hpsh
    · refine ⟨fun _ t' u' ht' hpsh' => ?_, fun _ => below_nil⟩
      cases ht'
      exact absurd hpsh hpsh'
    · cases hu : acceptPsh p t with
      | exit e u =>
        refine ⟨fun _ t' u' ht' _ hu' => ?_, fun _ => below_nil⟩
        cases ht'
        cases hu.symm.trans hu'
      | go u =>
        have hasm : u.asm = { s.asm with psh := u.asm.psh } := by
          rw [(haccept.go hu).asm, (hpacket.go ht).1.asm]
        dsimp only
        have hprod : u.asm.prod = s.asm.prod := by rw [hasm]
        have hinit : u.asm.pnginit = s.asm.pnginit := by rw [hasm]
        have hout : u.asm.out = s.asm.out := by rw [hasm]
        rw [hprod, hinit, hout]
        unfold Output.endWrites
        split_ifs with hopen hmap
        · rw [below_singleton]
          exact ⟨fun h _ _ _ _ _ _ _ _ => h, fun h => h t u rfl hpsh hu hopen.1 hopen.2 hmap⟩
        · exact ⟨fun _ _ _ _ _ _ _ _ h => absurd h hmap, fun _ => below_nil⟩
        · exact ⟨fun _ _ _ _ _ _ hne hp => absurd ⟨hne, hp⟩ hopen, fun _ => below_nil⟩

/-- The bytes that an iteration appends for a GOES product lie below what `prodalloc` returned for
it; for the product that it abandons this is the number from before. -/
def GoesBelow (p : Program) (lib : Library) (n : Nat) (s : State) : Prop :=
  Below n (abandonWrites lib p s) ∧
    (front p lib s).Ends (fun t => t.v.goes = true → Below (t.allotted n) (t.dataWrites lib))
      fun _ _ => True

theorem goesBelow_iff : GoesBelow p lib n s ↔ AbandonFits p lib n s ∧
    (front p lib s).Ends
      (fun t => t.v.goes = true → GoesFits lib (t.getData lib) (t.newFrag lib) (t.allotted n))
      fun _ _ => True := by
  refine and_congr abandonWrites_below ?_
  cases front p lib s with
  | exit e t => exact Iff.rfl
  | go t => exact forall_congr' fun hg => dataWrites_goes_below hg

/-- The first block of an image is longer than its heap. -/
theorem not_goesBelow (h : front p lib s = .go t) (hg : t.v.goes = true)
    (hc : t.v.prodCompressed = false) (h0 : t.inp.pdh.dbno = 0) (hpsh : t.inp.pdh.pshlen ≠ 0)
    (hlen : t.v.heapsize < t.inp.pdh.dbsize - t.asm.ccb.len) : ¬ GoesBelow p lib n s := by
  intro hbelow
  have hfirst := ((goesBelow_iff.1 hbelow).2.go h hg).first hc h0
  have hblock : (t.getData lib).block.length = t.inp.pdh.dbsize - t.asm.ccb.len := length_load ..
  simp only [EndsIn, State.imageStart, List.flatten_cons, List.length_append, hblock,
    State.allotted, if_pos hpsh] at hfirst
  omega

end Bounds

/-- An image of one block, one byte longer than the 5184 that `prodalloc` returns. -/
def longImagePacket : List UInt8 :=
  [255, 0, 20, 0, 3, 1, 0, 0, 0, 0, 0, 1, 0, 1, 1, 25] ++
    [20, 0, 0, 52, 0, 0, 0, 0, 20, 65, 1, 1, 0, 0, 0, 7] ++
    [0, 0, 0, 36] ++ List.replicate 32 0 ++ [10] ++ List.replicate 16 0 ++ [0, 1, 0, 1] ++
    List.replicate 5164 0

theorem longImagePacket_front :
    (front readnoaaport .plain (State.fresh longImagePacket .blank)).Ends
      (fun t => t.v.goes = true ∧ t.v.prodCompressed = false ∧ t.inp.pdh.dbno = 0 ∧
        t.inp.pdh.pshlen ≠ 0 ∧ t.v.heapsize < t.inp.pdh.dbsize - t.asm.ccb.len)
      (fun _ _ => False) := by
  decide +kernel

theorem longImagePacket_not_below :
    ¬ GoesBelow readnoaaport .plain 0 (State.fresh longImagePacket .blank) := by
  obtain ⟨t, ht, hg, hc, h0, hpsh, hlen⟩ | ⟨e, t, -, hno⟩ := longImagePacket_front.cases
  · generalize State.fresh longImagePacket .blank = s at ht ⊢
    exact not_goesBelow ht hg hc h0 hpsh hlen
  · exact hno.elim

end Noaaport
