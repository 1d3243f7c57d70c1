import Noaaport.GoesBounds
import Noaaport.Resolution

/-! The bounds of `memheap` on the GOES path, by product: the fragments that its header record
announces against the sizes of its blocks and what libpng puts out for its image. -/
namespace Noaaport
open Lib

/-- What a product has been given and what it has brought: the room for its announced fragments, the
bytes of the blocks behind it, its image as libpng has it, and the bytes put out for that. -/
structure Account where
  room : Nat
  copied : Nat
  image : Option PngStruct
  emitted : Nat

def Account.blank : Account where
  room := 0
  copied := 0
  image := none
  emitted := 0

section Entries
variable (lib : Library)

/-- The length of the block at "Get the data". -/
def State.blockLen (t : State) : Nat := t.inp.pdh.dbsize - t.asm.ccb.len

/-- A header record announces fragments of 5152 bytes, or of 4015 behind the FOS header. -/
def Account.opened (A : Account) (t : State) : Account :=
  if t.inp.pdh.pshlen ≠ 0 then
    { A with
      room := prodsize t.asm.psh.frags (if t.v.goes then 5152 else 4015)
      copied := if t.v.goes then 0 else 11 }
  else A

def State.TakesGoesBlock (t : State) : Prop := (t.getData lib).TakesGoes (t.newFrag lib)
def State.LinksGoesBlock (t : State) : Prop := (t.getData lib).LinksGoes lib (t.newFrag lib)

instance (t : State) : Decidable (t.TakesGoesBlock lib) := by
  unfold State.TakesGoesBlock State.TakesGoes
  infer_instance

/-- The header block of an image and what libpng puts behind it. -/
def State.startBytes (t : State) : Nat := ((t.getData lib).imageStart lib).flatten.length

/-- The rows of a further block, and what libpng puts out for them. -/
def State.rowsOf (t : State) (q : PngStruct) : List (List UInt8) :=
  (t.getData lib).rows.map fun nscan =>
    load t.inp.buf ((t.getData lib).v.dataoff + nscan * t.asm.pdb.nx) q.width

def State.rowBytes (t : State) (q : PngStruct) : Nat :=
  ((t.getData lib).rowOutput lib q).flatten.length

/-- What a GOES block that is taken brings. -/
def Account.addGoes (A : Account) (t : State) : Account :=
  if t.v.prodCompressed then { A with copied := A.copied + t.blockLen }
  else if t.inp.pdh.dbno = 0 then
    { A with
      image := some { width := t.asm.pdb.nx, height := t.asm.pdb.ny + 1, rows := [] }
      emitted := t.startBytes lib }
  else
    match A.image with
    | none => A
    | some q =>
      { A with
        image := some { q with rows := q.rows ++ t.rowsOf lib q }
        emitted := A.emitted + t.rowBytes lib q }

open Classical in
/-- What a block brings that is taken. -/
noncomputable def Account.add (A : Account) (t : State) : Account :=
  if t.v.goes then if t.TakesGoesBlock lib then A.addGoes lib t else A
  else if t.storesNwstg lib then { A with copied := A.copied + t.stripped lib }
  else A

noncomputable def Account.after (p : Program) (A : Account) (s : State) : Account :=
  match front p lib s with
  | .exit _ _ => A
  | .go t => (A.opened t).add lib t

end Entries

/-- The loop with the account of the product under way. -/
def AccountStep (p : Program) (lib : Library) : State × Account → Event → State × Account → Prop :=
  WithGhost (Step p lib) (Account.after lib p)

section Holds
variable (p : Program) (lib : Library) (A : Account)

/-- The block fits into what the product has left. Where the variables are lost, a further block of
a compressed product goes anywhere. -/
structure Account.Fits (t : State) : Prop where
  copies : t.v.prodCompressed = true → t.TakesGoesBlock lib →
    t.blockLen = 0 ∨
      (p.keepsVars = true ∨ t.inp.pdh.pshlen ≠ 0) ∧ A.copied + t.blockLen ≤ A.room
  start : t.v.prodCompressed = false → t.inp.pdh.dbno = 0 → EndsIn A.room 0 (t.startBytes lib)
  rows : t.v.prodCompressed = false → t.inp.pdh.dbno ≠ 0 → t.TakesGoesBlock lib →
    ¬ (t.asm.pdb.nx = 0 ∧ t.inp.pdh.dbsize > 0) → t.asm.out.png.prodmap = t.asm.out.memheap.id →
    ∀ q, A.image = some q → EndsIn A.room A.emitted (t.rowBytes lib q)
  last : t.LinksGoesBlock lib → t.asm.prod.completedBy (t.newFrag lib) = true →
    t.asm.pnginit = true ∨ t.inp.pdh.dbno = 0 ∧ t.v.prodCompressed = false →
    t.asm.out.png.prodmap = t.asm.out.memheap.id ∨ t.inp.pdh.dbno = 0 ∧ t.v.prodCompressed = false →
    EndsIn A.room (A.addGoes lib t).emitted (endChunk lib (A.addGoes lib t).image).length

/-- The end of an image that a header record abandons fits, and so does the block. -/
structure Account.Holds (s : State) : Prop where
  abandoned : ∀ t u, packet p s = .go t → t.inp.pdh.pshlen ≠ 0 → acceptPsh p t = .go u →
    s.asm.prod.frags ≠ [] → s.asm.pnginit = true → s.asm.out.png.prodmap = s.asm.out.memheap.id →
    EndsIn A.room A.emitted (endChunk lib A.image).length
  block : (front p lib s).Ends (fun t => t.v.goes = true → (A.opened t).Fits p lib t)
    fun _ _ => True

end Holds

/-- The program's cursors are what the account says: `heapcount` where it is known, and the PNG
module's while an image is open. -/
structure Account.Books (A : Account) (known : Prop) (s : State) : Prop where
  copied : known → s.v.heapcount = A.copied
  image : s.asm.pnginit = true → s.asm.out.png.ptr = A.image ∧ s.asm.out.png.prodoff = A.emitted

/-- At the top of the loop, `heapcount` matters while a product is under way. -/
def Account.Kept (A : Account) (p : Program) (s : State) : Prop :=
  A.Books (p.keepsVars = true ∧ s.asm.prod.frags ≠ []) s

def Account.Ready (A : Account) (p : Program) (t : State) : Prop :=
  A.Books (p.keepsVars = true ∨ t.inp.pdh.pshlen ≠ 0) t

section Front
variable {p : Program} {lib : Library} {s t : State} {A : Account}

/-- A product that is abandoned takes its open image along. -/
theorem Asm.abandon_image {a b : Asm} (h : a.abandon lib = some b) (hb : b.pnginit = true) :
    a.pnginit = true ∧ b.out.png = a.out.png := by
  unfold Asm.abandon at h
  split_ifs at h with hnil hpng
  · cases h
    exact ⟨hb, rfl⟩
  · obtain ⟨out, -, rfl⟩ := Option.map_eq_some_iff.1 h
    cases hb
  · cases h
    exact absurd hb hpng

theorem openProduct_counts (hk : s.OneKind) (h0 : s.v.heapcount = 0) :
    (openProduct lib s).Ends (fun t => t.v.heapcount = if t.v.goes then 0 else 11)
      fun _ _ => True := by
  cases hg : s.v.goes with
  | true =>
    have hn : s.v.nwstg = false := by rwa [State.OneKind, hg] at hk
    unfold openProduct
    rw [if_pos hg]
    refine Flow.Ends.bind (P := fun t => t.v.nwstg = false ∧ t.v.goes = true ∧
      t.v.heapcount = 0) ?_ fun t ht => ?_
    · exact Flow.ends_ite (fun _ => trivial) fun _ => ⟨hn, hg, h0⟩
    · obtain ⟨h1, h2, h3⟩ := ht
      simp only [h1, h2, Bool.false_eq_true, ↓reduceIte, Flow.ends_go]
      exact h3
  | false =>
    have hn : s.markImage.v.nwstg = true := by rwa [State.OneKind, hg] at hk
    unfold openProduct
    simp only [hg, hn, Bool.false_eq_true, ↓reduceIte, Flow.bind_go, Flow.ends_go]
    have hg' : (nwstgHeader lib s.markImage).v.goes = false := hg
    rw [hg']
    change s.v.heapcount + 11 = 11
    rw [h0]

theorem startProduct_counts (hk : s.OneKind) :
    (startProduct p lib s).Ends (fun t => t.v.heapcount = if t.v.goes then 0 else 11)
      fun _ _ => True := by
  unfold startProduct
  split
  · trivial
  next a ha =>
  refine Flow.Ends.bind (P := fun t => t.v = s.v) ((State.read_ends ..).mono ?_ ?_) fun t ht => ?_
  · rintro t ⟨rfl, -, -⟩
    rfl
  · intros
    trivial
  · exact openProduct_counts (State.OneKind.reroute (s := t) (by rwa [State.OneKind, ht])) rfl

/-- A header record counts from the FOS header or from nothing. -/
theorem front_counts (p : Program) (lib : Library) (s : State) : (front p lib s).Ends
    (fun t => t.inp.pdh.pshlen ≠ 0 → t.v.heapcount = if t.v.goes then 0 else 11)
    fun _ _ => True := by
  rw [front_eq]
  refine Flow.Ends.bind ((packet_ends p s).mono (fun _ h => h) fun _ _ _ => trivial) fun t ht => ?_
  by_cases hpsh : t.inp.pdh.pshlen = 0
  · rw [if_neg (not_not.2 hpsh)]
    refine (continuationRecord_ends hpsh).mono (fun u hu h => ?_) fun _ _ _ => trivial
    rw [hu.block.pdh] at h
    exact absurd hpsh h
  · rw [if_pos hpsh]
    refine Flow.Ends.bind ((acceptPsh_ends p t).mono (fun _ h => h) fun _ _ _ => trivial) fun u hu => ?_
    refine (startProduct_counts ?_).mono (fun w hw _ => hw) fun _ _ _ => trivial
    rw [State.OneKind, hu.vars]
    exact ht.2

theorem Account.Kept.untouched (h : A.Kept p s) (hu : Untouched s t) : A.Kept p t := by
  refine ⟨fun hk => ?_, fun hp => ?_⟩
  · rw [hu.heapcount, h.copied ⟨hk.1, by rw [← hu.asm]; exact hk.2⟩]
  · rw [hu.asm] at hp ⊢
    exact h.image hp

theorem Account.Kept.started {a : Asm} {n : Int} (h : A.Kept p s)
    (ha : s.asm.abandon lib = some a) (hst : Started a n t) : A.Books False t := by
  refine ⟨False.elim, fun hp => ?_⟩
  obtain ⟨hp', hpng⟩ := Asm.abandon_image ha (hst.pnginit.symm.trans hp)
  rw [hst.png, hpng]
  exact h.image hp'

/-- What comes before "Get the data" keeps the books. -/
theorem Account.Kept.front (lib : Library) (h : A.Kept p s) : (front p lib s).Ends
    (fun t => (A.opened t).Ready p t ∧ t.OneKind) fun e t => (∃ r, e = .again r) → A.Kept p t := by
  refine ((front_ends p lib s).and (front_counts p lib s)).mono ?_ ?_
  · rintro t ⟨hgo, hcount⟩
    cases hgo with
    | header i u _ _ hd hp hh =>
      have hpsh : t.inp.pdh.pshlen ≠ 0 := by
        rw [hh.block.pdh]
        exact hp
      obtain ⟨a, ha, hst⟩ := hh.started
      have hb := h.started (by rw [← ha, hd.asm]; rfl) hst
      refine ⟨⟨fun _ => ?_, fun hpng => ?_⟩, hh.oneKind⟩
      · rw [Account.opened, if_pos hpsh, hcount hpsh]
      · rw [Account.opened, if_pos hpsh]
        exact hb.image hpng
    | continuation i u _ _ hd hp hc =>
      have hpsh : t.inp.pdh.pshlen = 0 := by
        rw [hc.block.pdh]
        exact hp
      have hu : u.asm = s.asm := hd.asm
      rw [Account.opened, if_neg (not_not.2 hpsh)]
      refine ⟨⟨fun hk => ?_, fun hpng => ?_⟩, ?_⟩
      · have hkept := hk.resolve_right (not_not.2 hpsh)
        have hcount : t.v.heapcount = s.v.heapcount := by
          rw [hc.vars]
          unfold State.rerouteChannel4
          split_ifs
          · exact hd.untouched.heapcount
          · exact hd.untouched.heapcount
        rw [hcount, h.copied ⟨hkept, hu ▸ hc.linked⟩]
      · have hpng' : s.asm.pnginit = true := by rwa [hc.asm, State.continued, hu] at hpng
        rw [hc.asm, State.continued, hu]
        exact h.image hpng'
      · rw [State.OneKind, hc.vars]
        exact hd.oneKind.reroute
  · rintro e t ⟨hexit, -⟩ ⟨r, rfl⟩
    have hi (i : Input) : A.Kept p (s.setInp i) := ⟨h.copied, h.image⟩
    cases hexit with
    | untouched hu => exact h.untouched hu
    | header i u _ _ hd hp hx =>
      have hu : A.Kept p u := (hi i).untouched hd.untouched
      cases hx with
      | untouched ht => exact hu.untouched ht
      | rejected _ _ ha hv =>
        refine ⟨fun hk => ?_, fun hpng => ?_⟩
        · rw [hv]
          exact hu.copied ⟨hk.1, by have hne := hk.2; rwa [ha] at hne⟩
        · rw [ha] at hpng ⊢
          exact hu.image hpng
      | fault he => cases he
      | started a ha hst =>
        exact ⟨fun hk => absurd hst.frags hk.2, (hu.started ha hst).image⟩
    | continuation i u _ _ hd hp hx =>
      have hu : A.Kept p u := (hi i).untouched hd.untouched
      refine ⟨fun hk => ?_, fun hpng => ?_⟩
      · have hcount : t.v.heapcount = u.v.heapcount := by
          rw [hx.vars]
          unfold State.rerouteChannel4
          split_ifs <;> rfl
        rw [hcount]
        exact hu.copied ⟨hk.1, by have hne := hk.2; rwa [hx.asm] at hne⟩
      · rw [hx.asm] at hpng ⊢
        exact hu.image hpng

end Front

section Data
variable {p : Program} {lib : Library} {t l : State} {A : Account}

theorem Account.addGoes_copied (lib : Library) (A : Account) (t : State) :
    (A.addGoes lib t).copied = A.copied + if t.v.prodCompressed then t.blockLen else 0 := by
  unfold Account.addGoes
  split_ifs
  · rfl
  · rfl
  · split <;> rfl

theorem Account.addGoes_room (lib : Library) (A : Account) (t : State) :
    (A.addGoes lib t).room = A.room := by
  unfold Account.addGoes
  split_ifs
  · rfl
  · rfl
  · split <;> rfl

/-- The writer and its cursor behind a block are those of the account. -/
theorem Account.addGoes_image
    (h : t.asm.pnginit = true → t.asm.out.png.ptr = A.image ∧ t.asm.out.png.prodoff = A.emitted)
    (hp : (t.getData lib).pnginitAfter (t.newFrag lib) = true) :
    ((t.getData lib).pngAfter lib (t.newFrag lib)).ptr = (A.addGoes lib t).image ∧
      ((t.getData lib).pngAfter lib (t.newFrag lib)).prodoff = (A.addGoes lib t).emitted := by
  change (t.asm.pnginit || (t.inp.pdh.dbno = 0 && !t.v.prodCompressed)) = true at hp
  unfold State.pngAfter Account.addGoes
  change (if t.v.prodCompressed then _ else if t.inp.pdh.dbno = 0 then _ else _ : Png).ptr = _ ∧
    (if t.v.prodCompressed then _ else if t.inp.pdh.dbno = 0 then _ else _ : Png).prodoff = _
  split_ifs with hc h0
  · rw [hc, Bool.not_true, Bool.and_false, Bool.or_false] at hp
    exact h hp
  · exact ⟨rfl, rfl⟩
  · simp only [h0, decide_false, Bool.false_and, Bool.or_false] at hp
    obtain ⟨hptr, hoff⟩ := h hp
    change (match t.asm.out.png.ptr with | none => _ | some q => _ : Png).ptr = _ ∧
      (match t.asm.out.png.ptr with | none => _ | some q => _ : Png).prodoff = _
    rw [hptr]
    cases A.image with
    | none => exact ⟨hptr, hoff⟩
    | some q => exact ⟨rfl, by rw [← hoff]; rfl⟩

theorem Account.add_goes (hg : t.v.goes = true) (ht : t.TakesGoesBlock lib) :
    A.add lib t = A.addGoes lib t := by
  rw [Account.add, if_pos hg, if_pos ht]

theorem Account.add_refused (hg : t.v.goes = true) (ht : ¬ t.TakesGoesBlock lib) :
    A.add lib t = A := by
  rw [Account.add, if_pos hg, if_neg ht]

theorem Account.Ready.goesLink (h : A.Ready p t) (hg : t.v.goes = true) :
    (t.linkData lib).Ends (fun l => l.asm.prod.frags ≠ [] ∧
        (A.add lib t).Books (p.keepsVars = true ∨ t.inp.pdh.pshlen ≠ 0) l)
      fun e l => (∃ r, e = .again r) → (A.add lib t).Kept p l := by
  unfold State.linkData
  rw [if_pos hg]
  refine goesLink_taken.mono ?_ ?_
  · rintro l ⟨htaken, hlinks, hne⟩
    rw [Account.add_goes hg hlinks.takes]
    refine ⟨hne, fun hk => ?_, fun hp => ?_⟩
    · rw [htaken.heapcount, Account.addGoes_copied, ← h.copied hk]
      rfl
    · rw [htaken.pnginit] at hp
      rw [htaken.png]
      exact Account.addGoes_image h.image hp
  · rintro e l ⟨-, hexit⟩ ⟨r, hr⟩
    obtain ⟨htakes, hstate⟩ := hexit r hr
    rw [Account.add_refused hg htakes]
    rcases hstate with rfl | rfl
    · exact ⟨fun hk => absurd rfl hk.2, h.image⟩
    · exact ⟨fun hk => h.copied (.inl hk.1), h.image⟩

theorem link_png {pfrag : Datastore} {m : State} : (link pfrag m).Ends
    (fun l => l.asm.prod.frags ≠ [] ∧ l.asm.pnginit = m.asm.pnginit ∧
      l.asm.out.png = m.asm.out.png) fun e _ => ∀ r, e ≠ .again r := by
  refine link_ends.mono (fun l hl => ⟨?_, ?_, ?_⟩) fun _ _ h => h
  · rw [hl.asm]
    exact List.append_ne_nil_of_right_ne_nil _ (List.cons_ne_nil _ _)
  · rw [hl.asm]
  · rw [hl.asm]

theorem Account.Ready.nwstgLink (h : A.Ready p t) (hg : t.v.goes = false) :
    (t.linkData lib).Ends (fun l => l.asm.prod.frags ≠ [] ∧
        (A.add lib t).Books (p.keepsVars = true ∨ t.inp.pdh.pshlen ≠ 0) l)
      fun e l => (∃ r, e = .again r) → (A.add lib t).Kept p l := by
  have hng : ¬ t.v.goes = true := by simp [hg]
  have hnums := linkData_nwstg lib hg
  have hpng : (t.linkData lib).Ends (fun l => l.asm.prod.frags ≠ [] ∧
        l.asm.pnginit = t.asm.pnginit ∧ l.asm.out.png = t.asm.out.png)
      fun e l => (∃ r, e = .again r) → ¬ t.storesNwstg lib ∧
        (l.asm.prod.frags = [] ∨ l.v.heapcount = t.v.heapcount) ∧
        l.asm.pnginit = t.asm.pnginit ∧ l.asm.out.png = t.asm.out.png := by
    unfold State.linkData
    rw [if_neg hng]
    by_cases hs : t.storesNwstg lib
    · rw [nwstgData_stores hs, Flow.bind_go]
      refine link_png.mono (fun _ hl => hl) ?_
      rintro e l hno ⟨r, hr⟩
      exact absurd hr (hno r)
    · cases hm : nwstgData (t.newFrag lib) (t.getData lib) with
      | go m => exact absurd hm (nwstgData_refuses hs m)
      | exit e m =>
        rintro ⟨r, rfl⟩
        cases nwstgData_ends.exit hm with
        | missing => exact ⟨hs, .inl rfl, rfl, rfl⟩
        | punt => exact ⟨hs, .inr rfl, rfl, rfl⟩
        | stuck _ _ hno => exact absurd rfl (hno r)
  refine (hnums.and hpng).mono ?_ ?_
  · rintro l ⟨⟨hs, -, -, hcount, -⟩, hne, hinit, hout⟩
    rw [Account.add, if_neg hng, if_pos hs]
    refine ⟨hne, fun hk => ?_, fun hp => ?_⟩
    · rw [hcount, h.copied hk]
    · rw [hinit] at hp
      rw [hout]
      exact h.image hp
  · rintro e l ⟨-, hexit⟩ hr
    obtain ⟨hs, hstate, hinit, hout⟩ := hexit hr
    rw [Account.add, if_neg hng, if_neg hs]
    refine ⟨fun hk => ?_, fun hp => ?_⟩
    · rw [hstate.resolve_left hk.2]
      exact h.copied (.inl hk.1)
    · rw [hinit] at hp
      rw [hout]
      exact h.image hp

/-- So does what comes from there on. -/
theorem Account.Ready.data (h : A.Ready p t) : (data lib t).Ends ((A.add lib t).Kept p)
    fun e u => (∃ r, e = .again r) → (A.add lib t).Kept p u := by
  have hlink : (t.linkData lib).Ends (fun l => l.asm.prod.frags ≠ [] ∧
        (A.add lib t).Books (p.keepsVars = true ∨ t.inp.pdh.pshlen ≠ 0) l)
      fun e l => (∃ r, e = .again r) → (A.add lib t).Kept p l := by
    cases hg : t.v.goes with
    | true => exact h.goesLink hg
    | false => exact h.nwstgLink hg
  rw [data_eq]
  refine hlink.bind fun l hl => finish_ends.mono (fun u hu => ?_) ?_
  · cases hu with
    | more _ heq =>
      subst heq
      exact ⟨fun hk => hl.2.copied (.inl hk.1), hl.2.image⟩
    | handed _ hh _ =>
      refine ⟨fun hk => absurd ?_ hk.2, fun hp => ?_⟩
      · rw [hh.prod]
      · exact absurd (hh.pnginit.symm.trans hp) (by decide)
  · rintro e u hno ⟨r, hr⟩
    exact absurd hr (hno r)

end Data

section Block
variable {p : Program} {lib : Library} {s t : State} {A : Account} {n : Nat}

/-- Where the writer stands on the current heap behind the block. -/
theorem pngAfter_prodmap (hp : t.asm.out.png.prodmap = t.asm.out.memheap.id ∨
      t.inp.pdh.dbno = 0 ∧ t.v.prodCompressed = false) :
    ((t.getData lib).pngAfter lib (t.newFrag lib)).prodmap = t.asm.out.memheap.id := by
  unfold State.pngAfter
  change (if t.v.prodCompressed then _ else if t.inp.pdh.dbno = 0 then _ else _ : Png).prodmap = _
  split_ifs with hc h0
  · exact hp.resolve_right fun h => by simp [hc] at h
  · rfl
  · have hmap := hp.resolve_right fun h => h0 h.1
    split <;> exact hmap

theorem pngAfter_prodmap_iff :
    ((t.getData lib).pngAfter lib (t.newFrag lib)).prodmap = t.asm.out.memheap.id ↔
      t.asm.out.png.prodmap = t.asm.out.memheap.id ∨
        t.inp.pdh.dbno = 0 ∧ t.v.prodCompressed = false := by
  refine ⟨fun h => ?_, pngAfter_prodmap⟩
  by_cases hfirst : t.inp.pdh.dbno = 0 ∧ t.v.prodCompressed = false
  · exact .inr hfirst
  · left
    rw [← h]
    unfold State.pngAfter
    change _ = (if t.v.prodCompressed then _ else if t.inp.pdh.dbno = 0 then _ else _ : Png).prodmap
    split_ifs with hc h0
    · rfl
    · exact absurd ⟨h0, by simpa using hc⟩ hfirst
    · split <;> rfl

theorem pnginitAfter_iff : (t.getData lib).pnginitAfter (t.newFrag lib) = true ↔
    t.asm.pnginit = true ∨ t.inp.pdh.dbno = 0 ∧ t.v.prodCompressed = false := by
  change (t.asm.pnginit || (t.inp.pdh.dbno = 0 && !t.v.prodCompressed)) = true ↔ _
  simp

/-- A block that follows belongs to an open image or is compressed. -/
theorem takesNext_pnginit (ht : (t.getData lib).takesNext (t.newFrag lib) = true)
    (hc : t.v.prodCompressed = false) : t.asm.pnginit = true := by
  unfold State.takesNext at ht
  split at ht
  · cases ht
  · simp only [Bool.and_eq_true, Bool.or_eq_true] at ht
    refine ht.2.resolve_right fun h => ?_
    exact absurd (hc.symm.trans h) (by decide)

/-- With the cursors known, what the block appends fits exactly when the account says so. -/
theorem Account.Ready.fits_iff (h : A.Ready p t)
    (hknown : t.v.prodCompressed = true → t.TakesGoesBlock lib → t.blockLen ≠ 0 →
      p.keepsVars = true ∨ t.inp.pdh.pshlen ≠ 0) :
    GoesFits lib (t.getData lib) (t.newFrag lib) A.room ↔ A.Fits p lib t := by
  have hlast : (t.LinksGoesBlock lib → t.asm.prod.completedBy (t.newFrag lib) = true →
        (t.getData lib).pnginitAfter (t.newFrag lib) = true →
        ((t.getData lib).pngAfter lib (t.newFrag lib)).prodmap = t.asm.out.memheap.id →
        EndsIn A.room ((t.getData lib).pngAfter lib (t.newFrag lib)).prodoff
          (endChunk lib ((t.getData lib).pngAfter lib (t.newFrag lib)).ptr).length) ↔
      (t.LinksGoesBlock lib → t.asm.prod.completedBy (t.newFrag lib) = true →
        t.asm.pnginit = true ∨ t.inp.pdh.dbno = 0 ∧ t.v.prodCompressed = false →
        t.asm.out.png.prodmap = t.asm.out.memheap.id ∨
          t.inp.pdh.dbno = 0 ∧ t.v.prodCompressed = false →
        EndsIn A.room (A.addGoes lib t).emitted (endChunk lib (A.addGoes lib t).image).length) := by
    rw [pngAfter_prodmap_iff]
    refine forall_congr' fun _ => forall_congr' fun _ => ?_
    constructor
    · intro hend hp hmap
      have hp' : (t.getData lib).pnginitAfter (t.newFrag lib) = true := pnginitAfter_iff.2 hp
      obtain ⟨hptr, hoff⟩ := Account.addGoes_image h.image hp'
      rw [← hptr, ← hoff]
      exact hend hp' hmap
    · intro hend hp hmap
      obtain ⟨hptr, hoff⟩ := Account.addGoes_image h.image hp
      rw [hptr, hoff]
      exact hend (pnginitAfter_iff.1 hp) hmap
  constructor
  · intro hf
    refine ⟨fun hc ht => ?_, hf.first, fun hc h0 ht hnx hmap q hq => ?_, hlast.1 hf.last⟩
    · by_cases hlen : t.blockLen = 0
      · exact .inl hlen
      · have hk := hknown hc ht hlen
        have hend := (hf.compressed hc ht).resolve_left hlen
        change t.v.heapcount + t.blockLen ≤ A.room at hend
        rw [h.copied hk] at hend
        exact .inr ⟨hk, hend⟩
    · have ht' := ht.resolve_left h0
      obtain ⟨hptr, hoff⟩ := h.image (takesNext_pnginit ht' hc)
      rw [← hoff]
      exact hf.rows hc h0 ht' hnx hmap q (hptr.trans hq)
  · intro hf
    refine ⟨fun hc ht => ?_, hf.start, fun hc h0 ht hnx hmap q hq => ?_, hlast.2 hf.last⟩
    · rcases hf.copies hc ht with hlen | ⟨hk, hend⟩
      · exact .inl hlen
      · right
        rw [← h.copied hk] at hend
        exact hend
    · obtain ⟨hptr, hoff⟩ := h.image (takesNext_pnginit ht hc)
      change EndsIn _ t.asm.out.png.prodoff _
      rw [hoff]
      exact hf.rows hc h0 (.inr ht) hnx hmap q (hptr.symm.trans hq)

/-- The room of the account is what `prodalloc` returned. -/
theorem opened_room (A : Account) (h : front p lib s = .go t) :
    (A.opened t).room = t.allotted A.room := by
  have hsize := (front_heapsize p lib s).go h
  unfold Account.opened State.allotted
  by_cases hpsh : t.inp.pdh.pshlen ≠ 0
  · rw [if_pos hpsh] at hsize
    rw [if_pos hpsh, if_pos hpsh, hsize]
  · rw [if_neg hpsh, if_neg hpsh]

theorem abandonFits_iff (h : A.Kept p s) : AbandonFits p lib A.room s ↔
    ∀ t u, packet p s = .go t → t.inp.pdh.pshlen ≠ 0 → acceptPsh p t = .go u →
      s.asm.prod.frags ≠ [] → s.asm.pnginit = true → s.asm.out.png.prodmap = s.asm.out.memheap.id →
      EndsIn A.room A.emitted (endChunk lib A.image).length := by
  constructor
  · intro hf t u ht hpsh hu hne hp hmap
    obtain ⟨hptr, hoff⟩ := h.image hp
    rw [← hptr, ← hoff]
    exact hf t u ht hpsh hu hne hp hmap
  · intro hf t u ht hpsh hu hne hp hmap
    obtain ⟨hptr, hoff⟩ := h.image hp
    rw [hptr, hoff]
    exact hf t u ht hpsh hu hne hp hmap

/-- An account that holds keeps the writes inside. -/
theorem Account.Kept.goesBelow (h : A.Kept p s) (hA : A.Holds p lib s) :
    GoesBelow p lib A.room s := by
  have hfront := h.front lib
  refine goesBelow_iff.2 ⟨(abandonFits_iff h).2 hA.abandoned, ?_⟩
  cases hu : Noaaport.front p lib s with
  | exit e t => trivial
  | go t =>
    intro hg
    have hf := hA.block.go hu hg
    rw [← opened_room A hu]
    refine ((hfront.go hu).1.fits_iff fun hc ht hlen => ?_).2 hf
    exact ((hf.copies hc ht).resolve_left hlen).1

/-- Where the variables are lost, the next iteration can find any cursor. -/
theorem front_anyCount (h : front p lib s = .go t) (hpsh : t.inp.pdh.pshlen = 0) (k : Nat) :
    ∃ u, front p lib { s with v := { s.v with heapcount := k } } = .go u ∧
      AgreeBy SameKind t u ∧ u.v.heapcount = k := by
  have hrel : Flow.Rel Assigned (AgreeBy AnyVars) (front p lib s)
      (front p lib { s with v := { s.v with heapcount := k } }) :=
    front_alike (.mk s.inp s.v { s.v with heapcount := k } s.asm trivial)
  rw [h] at hrel
  cases hu : front p lib { s with v := { s.v with heapcount := k } } with
  | exit e u =>
    rw [hu] at hrel
    exact hrel.elim
  | go u =>
    rw [hu] at hrel
    have hkind : AgreeBy SameKind t u := by
      rcases hrel with hall | ⟨hkind, -⟩
      · cases hall with
        | mk i v w a hv => exact .mk i v w a hv.toSameKind
      · exact hkind
    refine ⟨u, rfl, hkind, ?_⟩
    have hgo := (front_ends p lib _).go hu
    cases hgo with
    | header i w _ _ hd hp hh =>
      rw [← hh.block.pdh, ← hkind.inp] at hp
      exact absurd hpsh hp
    | continuation i w _ _ hd hp hc =>
      have hcount : w.v.heapcount = k := hd.untouched.heapcount
      rw [hc.vars]
      unfold State.rerouteChannel4
      split_ifs
      · exact hcount
      · exact hcount

/-- Writes that stay inside wherever an indeterminate cursor points make the account hold. -/
theorem Account.Kept.holds (h : A.Kept p s)
    (hb : ∀ v, (p.keepsVars = true → v = s.v) → GoesBelow p lib A.room { s with v }) :
    A.Holds p lib s := by
  have hs := goesBelow_iff.1 (hb s.v fun _ => rfl)
  have hfront := h.front lib
  refine ⟨(abandonFits_iff h).1 hs.1, ?_⟩
  cases hu : Noaaport.front p lib s with
  | exit e t => trivial
  | go t =>
    intro hg
    have hf := hs.2.go hu hg
    rw [← opened_room A hu] at hf
    refine ((hfront.go hu).1.fits_iff fun hc ht hlen => ?_).1 hf
    by_contra hlost
    obtain ⟨hk, hpsh⟩ := not_or.1 hlost
    have hpsh' := not_not.1 hpsh
    -- a cursor behind the room would be written through
    obtain ⟨u, hu', hkind, hcount⟩ := front_anyCount hu hpsh' A.room
    have hfar := (goesBelow_iff.1 (hb { s.v with heapcount := A.room } fun h => absurd h hk)).2.go hu'
    cases hkind with
    | mk i v w a hvw =>
      have hg' : w.goes = true := hvw.goes ▸ hg
      have hc' : w.prodCompressed = true := hvw.prodCompressed ▸ hc
      have ht' : State.TakesGoesBlock lib ⟨i, w, a⟩ := by
        refine ht.imp_right fun hnext => ?_
        have hkind : (State.getData lib ⟨i, w, a⟩).v.prodCompressed =
            (State.getData lib ⟨i, v, a⟩).v.prodCompressed := hvw.prodCompressed.symm
        unfold State.takesNext at hnext ⊢
        rw [hkind]
        exact hnext
      have hend := (hfar hg').compressed hc' ht'
      have hallot : State.allotted ⟨i, w, a⟩ A.room = A.room := if_neg (not_not.2 hpsh')
      have hcount' : w.heapcount = A.room := hcount
      rw [hallot] at hend
      rcases hend with h0 | hle
      · exact hlen h0
      · change w.heapcount + State.blockLen ⟨i, v, a⟩ ≤ A.room at hle
        omega

end Block

section Run
variable {p : Program} {lib : Library} {s t : State} {A B : Account} {e : Event} {es : List Event}

theorem Account.Kept.iteration (h : A.Kept p s) : (iteration p lib s).Ends ((A.after lib p s).Kept p)
    fun e t => (∃ r, e = .again r) → (A.after lib p s).Kept p t := by
  have hfront := h.front lib
  unfold Noaaport.iteration Account.after
  cases hu : Noaaport.front p lib s with
  | exit e t => exact hfront.exit hu
  | go t => exact (hfront.go hu).1.data

/-- The books are kept. -/
theorem Account.Kept.step (h : A.Kept p s) (hs : AccountStep p lib (s, A) e (t, B)) : B.Kept p t := by
  obtain ⟨⟨u, hit, ht, hv⟩, hB⟩ := hs
  dsimp only at hit ht hv hB
  have hkept : (A.after lib p s).Kept p u := by
    rcases hit with ⟨hgo, -⟩ | ⟨r, hex, -⟩
    · exact h.iteration.go hgo
    · exact h.iteration.exit hex ⟨r, rfl⟩
  rw [hB, ht]
  refine ⟨fun hk => ?_, hkept.image⟩
  change t.v.heapcount = _
  rw [hv hk.1]
  exact hkept.copied hk

theorem Account.Kept.of_trace (hA : A.Kept p s)
    (h : Trace (AccountStep p lib) (s, A) es (t, B)) : B.Kept p t :=
  h.invariant (P := fun a => a.2.Kept p a.1) (fun _ _ _ ha hs => ha.step hs) hA

/-- The room of the account is what `prodalloc` returned last. -/
theorem after_room (A : Account) (s : State) : (A.after lib p s).room = allotted p lib A.room s := by
  have hadd (A : Account) (t : State) : (A.add lib t).room = A.room := by
    unfold Account.add
    split_ifs
    · exact Account.addGoes_room ..
    · rfl
    · rfl
    · rfl
  unfold Account.after allotted
  cases h : front p lib s with
  | exit e t => rfl
  | go t => exact (hadd _ t).trans (opened_room A h)

theorem allot_of_account (h : Trace (AccountStep p lib) (s, A) es (t, B)) :
    Trace (AllotStep p lib) (s, A.room) es (t, B.room) := by
  have hstep : ∀ (a : State × Account) (e : Event) (b : State × Account) (c : State × Nat),
      a.1 = c.1 ∧ a.2.room = c.2 → AccountStep p lib a e b →
      ∃ d, AllotStep p lib c e d ∧ b.1 = d.1 ∧ b.2.room = d.2 := by
    rintro ⟨s, A⟩ e ⟨t, B⟩ ⟨s', n⟩ ⟨rfl, rfl⟩ ⟨hs, rfl⟩
    exact ⟨(t, (A.after lib p s).room), ⟨hs, after_room A s⟩, rfl, rfl⟩
  obtain ⟨⟨t', n⟩, htr, rfl, rfl⟩ := h.simulate (a := (s, A.room)) _ _ hstep ⟨rfl, rfl⟩
  exact htr

theorem account_of_allot {n : Nat} (h : Trace (AllotStep p lib) (s, A.room) es (t, n)) :
    ∃ B, Trace (AccountStep p lib) (s, A) es (t, B) ∧ B.room = n := by
  have hstep : ∀ (a : State × Nat) (e : Event) (b : State × Nat) (c : State × Account),
      a.1 = c.1 ∧ c.2.room = a.2 → AllotStep p lib a e b →
      ∃ d, AccountStep p lib c e d ∧ b.1 = d.1 ∧ d.2.room = b.2 := by
    rintro ⟨s, n⟩ e ⟨t, m⟩ ⟨s', A⟩ ⟨hss, hn⟩ ⟨hs, hm⟩
    dsimp only at hss hn hm
    subst hss hn hm
    exact ⟨(t, A.after lib p s), ⟨hs, rfl⟩, rfl, after_room A s⟩
  obtain ⟨⟨t', B⟩, htr, rfl, hn⟩ := h.simulate (a := (s, A)) _ _ hstep ⟨rfl, rfl⟩
  exact ⟨B, htr, hn⟩

/-- Where the variables are lost, a run can end with any. -/
theorem account_anyVars (hk : p.keepsVars = false) (v : LoopVars)
    (h : Trace (AccountStep p lib) (s, A) es (t, B)) :
    ∃ w, Trace (AccountStep p lib) ({ s with v := w }, A) es ({ t with v }, B) := by
  generalize ha : (s, A) = a at h
  generalize hb : (t, B) = b at h
  induction h generalizing s A with
  | nil =>
    obtain ⟨rfl, rfl⟩ := Prod.mk.inj (ha.trans hb.symm)
    exact ⟨v, .nil _⟩
  | @cons _ c _ e es hs _ ih =>
    subst ha
    obtain ⟨m, C⟩ := c
    obtain ⟨w, hw⟩ := ih rfl hb
    have hs' : AccountStep p lib (s, A) e ({ m with v := w }, C) := ⟨hs.1.anyVars hk w, hs.2⟩
    exact ⟨s.v, .cons hs' hw⟩

/-- In all executions over a stream every byte of a GOES product is written below what `prodalloc`
returned for it, exactly when in each the account of every product holds: what its blocks and its
image bring does not exceed the room for the fragments its header record announced. -/
theorem goes_heap_iff (p : Program) (lib : Library) (rest : List UInt8) :
    (∀ v es s n, Trace (AllotStep p lib) (.fresh rest v, 0) es (s, n) → GoesBelow p lib n s) ↔
      ∀ v es s A, Trace (AccountStep p lib) (.fresh rest v, .blank) es (s, A) → A.Holds p lib s := by
  have h0 (v : LoopVars) : Account.blank.Kept p (.fresh rest v) :=
    ⟨fun h => absurd rfl h.2, fun h => absurd h Bool.false_ne_true⟩
  constructor
  · intro h v es s A htr
    refine ((h0 v).of_trace htr).holds fun w hw => ?_
    cases hk : p.keepsVars with
    | true =>
      rw [hw hk]
      exact h v es s A.room (allot_of_account htr)
    | false =>
      obtain ⟨v', hlost⟩ := account_anyVars hk w htr
      exact h v' es _ A.room (allot_of_account hlost)
  · intro h v es s n htr
    obtain ⟨A, hA, rfl⟩ := account_of_allot (A := .blank) htr
    exact ((h0 v).of_trace hA).goesBelow (h v es s A hA)

end Run

/-- The block of the one packet is a byte longer than its 5184. -/
theorem image_overruns : ¬ ∀ v es s n,
    Trace (AllotStep readnoaaport .plain) (.fresh longImagePacket v, 0) es (s, n) →
      GoesBelow readnoaaport .plain n s :=
  fun h => longImagePacket_not_below (h .blank [] _ 0 (.nil _))

end Noaaport
