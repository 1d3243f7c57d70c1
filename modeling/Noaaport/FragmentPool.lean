import Mathlib.Data.List.Nodup
import Noaaport.HeapWrites
import Noaaport.NwstgRuns

/-! The fragment list as pointers: its tail where a sequence check reads it, and its fragments in
the array that `ds_alloc` hands out slots of. -/
namespace Noaaport
open Lib

section Tail
variable {p : Program} {lib : Library} {s t : State}

/-- The sequence check of the block's path reads `prod.tail->fragnum`. -/
def State.readsTail (t : State) : Prop :=
  if t.v.goes then t.inp.pdh.dbno > 0 else t.asm.prod.nfrag ≠ 0 ∧ t.asm.prod.frags ≠ []

/-- There is a tail where it is read. -/
def TailThere (p : Program) (lib : Library) (s : State) : Prop :=
  (front p lib s).Ends (fun t => t.readsTail → ∃ tail, t.asm.prod.frags.getLast? = some tail)
    fun _ _ => True

/-- A record with a PSH that is taken on the GOES path is block 0. -/
def BeginsWithBlock0 (p : Program) (lib : Library) (s : State) : Prop :=
  (front p lib s).Ends
    (fun t => t.inp.pdh.pshlen ≠ 0 → t.v.goes = true → t.inp.pdh.dbno = 0) fun _ _ => True

/-- A record with a PSH comes to "Get the data" with an empty list, one without with the list of the
product in progress. -/
theorem FrontGo.linked (h : FrontGo p lib s t) : t.inp.pdh.pshlen = 0 ↔ t.asm.prod.frags ≠ [] := by
  cases h with
  | header i u _ _ _ hp h =>
    obtain ⟨a, -, hst⟩ := h.started
    rw [h.block.pdh]
    exact iff_of_false hp (not_not.2 hst.frags)
  | continuation i u _ _ _ hp h =>
    rw [h.block.pdh, h.asm]
    exact iff_of_true hp h.linked

theorem tailThere_iff : TailThere p lib s ↔ BeginsWithBlock0 p lib s := by
  have hfront := front_ends p lib s
  unfold TailThere BeginsWithBlock0
  cases ht : front p lib s with
  | exit e t => exact Iff.rfl
  | go t =>
    have hlinked := (hfront.go ht).linked
    have htail : (∃ tail, t.asm.prod.frags.getLast? = some tail) ↔ t.inp.pdh.pshlen = 0 := by
      rw [hlinked, ← Option.isSome_iff_exists, List.getLast?_isSome]
    rw [Flow.ends_go, Flow.ends_go, htail]
    unfold State.readsTail
    cases hg : t.v.goes with
    | true =>
      rw [if_pos rfl]
      constructor
      · intro h hpsh _
        by_contra h0
        exact hpsh (h (Nat.pos_of_ne_zero h0))
      · intro h hpos
        by_contra hpsh
        have h0 := h hpsh rfl
        omega
    | false =>
      rw [if_neg (by decide)]
      exact iff_of_true (fun h => hlinked.2 h.2) fun _ h => nomatch h

/-- In all executions `prod.tail` is there whenever a sequence check reads it, exactly when in each
the GOES records with a PSH begin with block 0. -/
theorem tail_there_iff (p : Program) (lib : Library) (s₀ : State) :
    (∀ es s, Trace (Step p lib) s₀ es s → TailThere p lib s) ↔
      ∀ es s, Trace (Step p lib) s₀ es s → BeginsWithBlock0 p lib s :=
  forall_congr' fun _ => forall_congr' fun _ => forall_congr' fun _ => tailThere_iff

/-- The model's `fault` on the GOES path is the null pointer. -/
theorem null_tail_faults (h : front p lib s = .go t) (hg : t.v.goes = true)
    (hpos : t.inp.pdh.dbno > 0) (hnil : t.asm.prod.frags = []) :
    iteration p lib s = .exit .fault (t.getData lib) := by
  have hgoes : goesData lib (t.newFrag lib) (t.getData lib) = .exit .fault (t.getData lib) := by
    have hpos' : (t.newFrag lib).fragnum > 0 := hpos
    have hnil' : (t.getData lib).asm.prod.frags.getLast? = none := by
      change t.asm.prod.frags.getLast? = none
      rw [hnil]
      rfl
    unfold goesData
    rw [if_pos hpos', hnil']
    rfl
  have hg' : (t.getData lib).v.goes = true := hg
  unfold iteration data
  rw [h, Flow.bind_go]
  simp only [hg', ↓reduceIte, hgoes, Flow.bind_exit]

end Tail

/-- A GOES record with a PSH that says it is block 1. -/
def lateImagePacket : List UInt8 :=
  [255, 0, 20, 0, 3, 1, 0, 0, 0, 0, 0, 1, 0, 1, 1, 25] ++
    [20, 0, 0, 52, 0, 1, 0, 0, 0, 21, 1, 1, 0, 0, 0, 7] ++
    [0, 0, 0, 36] ++ List.replicate 32 0 ++
    [10] ++ List.replicate 16 0 ++ [0, 1, 0, 1]

theorem null_tail_read : ¬ ∀ es s,
    Trace (Step readnoaaport .plain) (State.fresh lateImagePacket .blank) es s →
      TailThere readnoaaport .plain s := by
  intro h
  have hev : (front readnoaaport .plain (State.fresh lateImagePacket .blank)).Ends
      (fun t => t.v.goes = true ∧ t.inp.pdh.dbno = 1 ∧ t.asm.prod.frags = [])
      (fun _ _ => False) := by
    decide +kernel
  obtain ⟨t, ht, hg, h1, hnil⟩ | ⟨e, t, -, hno⟩ := hev.cases
  · have hreads : t.readsTail := by
      rw [State.readsTail, hg, if_pos rfl, h1]
      decide
    obtain ⟨tail, htail⟩ := (h [] _ (.nil _)).go ht hreads
    rw [hnil] at htail
    cases htail
  · exact hno.elim

/-- The list is made of distinct slots of the array that `dataheap` points to. -/
structure Pooled (a : Asm) : Prop where
  allocated : a.prod.frags ≠ [] → a.dataheap.allocated = true
  current : ∀ f ∈ a.prod.frags, f.gen = a.dataheap.gen ∧ f.slot < a.dataheap.maxfrags
  distinct : (a.prod.frags.map Datastore.slot).Nodup

/-- A call of `ds_alloc` with a list finds a free slot in the array, one that is not in the list. -/
structure AllocSafe (lib : Library) (t : State) : Prop where
  free : t.asm.prod.frags ≠ [] → t.asm.dataheap.nextfrag < t.asm.dataheap.maxfrags
  fresh : (t.newFrag lib).slot ∉ t.asm.prod.frags.map Datastore.slot

/-- The pointers before an iteration, and its call of `ds_alloc`. -/
def PoolSafe (p : Program) (lib : Library) (s : State) : Prop :=
  Pooled s.asm ∧ (front p lib s).Ends (AllocSafe lib) fun _ _ => True

/-- The packets of the product in progress that have come to "Get the data", its header record's
included. -/
def packetsTaken (p : Program) (lib : Library) (n : Nat) (s : State) : Nat :=
  match front p lib s with
  | .go t => if t.inp.pdh.pshlen ≠ 0 then 1 else n + 1
  | .exit _ _ => n

def CountStep (p : Program) (lib : Library) : State × Nat → Event → State × Nat → Prop :=
  WithGhost (Step p lib) (packetsTaken p lib)

/-- A continuation record comes to "Get the data" as one of the first `MAXFRAGS` packets. -/
def FewPackets (p : Program) (lib : Library) (n : Nat) (s : State) : Prop :=
  (front p lib s).Ends (fun t => t.inp.pdh.pshlen = 0 → n < t.asm.dataheap.maxfrags)
    fun _ _ => True

section Pool
variable {p : Program} {lib : Library} {s t u : State} {n : Nat} {e : Event}

/-- The array never gets smaller, and is longer than the header says. -/
theorem dsInit_maxfrags (lib : Library) (d : Dataheap) (nfrags : Nat) :
    (dsInit lib d nfrags).maxfrags = max d.maxfrags (nfrags + 1) := by
  unfold dsInit
  dsimp only
  split_ifs with h
  · rw [max_eq_right (by omega)]
    rfl
  · rw [max_eq_left (by omega)]

theorem Asm.abandon_maxfrags {a b : Asm} (h : a.abandon lib = some b) :
    b.dataheap.maxfrags = a.dataheap.maxfrags := by
  unfold Asm.abandon at h
  split_ifs at h with hnil hpng
  · cases h
    rfl
  · obtain ⟨out, -, rfl⟩ := Option.map_eq_some_iff.1 h
    rfl
  · cases h
    rfl

theorem startProduct_dataheap (s : State) : (startProduct p lib s).Ends
    (fun t => t.asm.dataheap.allocated = true ∧ t.asm.dataheap.nextfrag = 0 ∧
      t.asm.dataheap.maxfrags = max s.asm.dataheap.maxfrags (t.asm.prod.nfrag + 1))
    fun _ _ => True := by
  unfold startProduct
  split
  · trivial
  next a ha =>
  obtain ⟨hallocated, hnext, -⟩ := dsInit_spec lib a.dataheap a.psh.frags
  refine Flow.Ends.bind (P := fun t => t.asm.dataheap = dsInit lib a.dataheap a.psh.frags ∧
    t.asm.prod.nfrag = a.psh.frags)
    ((State.read_ends ..).mono ?_ fun _ _ _ => trivial) fun t ht => ?_
  · rintro t ⟨rfl, -, -⟩
    exact ⟨rfl, rfl⟩
  · refine (openProduct_frame lib _).mono (fun u hu => ?_) fun _ _ _ => trivial
    obtain ⟨-, hprod, hheap⟩ := hu
    simp only [State.resetHeap, rerouteChannel4_asm] at hprod hheap
    rw [hprod, hheap, ht.1, ht.2, dsInit_maxfrags, Asm.abandon_maxfrags ha]
    exact ⟨hallocated, hnext, rfl⟩

/-- At "Get the data": a new list, or the old one in its array. -/
inductive PoolFront (s t : State) : Prop where
  | header (hpsh : t.inp.pdh.pshlen ≠ 0) (frags : t.asm.prod.frags = [])
      (allocated : t.asm.dataheap.allocated = true) (nextfrag : t.asm.dataheap.nextfrag = 0)
      (maxfrags : t.asm.dataheap.maxfrags = max s.asm.dataheap.maxfrags (t.asm.prod.nfrag + 1))
  | continuation (hpsh : t.inp.pdh.pshlen = 0) (prod : t.asm.prod = s.asm.prod)
      (dataheap : t.asm.dataheap = s.asm.dataheap) (frags : s.asm.prod.frags ≠ [])

theorem front_pool (h : front p lib s = .go t) : PoolFront s t := by
  have hgo := (front_ends p lib s).go h
  have hlinked := hgo.linked
  by_cases hpsh : t.inp.pdh.pshlen = 0
  · cases hgo with
    | header i u _ _ _ hp hgo => exact absurd (hgo.block.pdh ▸ hpsh) hp
    | continuation i u _ _ hd _ hgo =>
      have hu : u.asm = s.asm := hd.asm
      refine .continuation hpsh ?_ ?_ (hu ▸ hgo.linked)
      · rw [hgo.asm, ← hu]
        rfl
      · rw [hgo.asm, ← hu]
        rfl
  · rw [front_eq] at h
    obtain ⟨u, hu, h⟩ := Flow.bind_eq_go.1 h
    split_ifs at h with hpshu
    · obtain ⟨v, hv, h⟩ := Flow.bind_eq_go.1 h
      obtain ⟨hallocated, hnext, hmax⟩ := (startProduct_dataheap v).go h
      have hheap : v.asm.dataheap = s.asm.dataheap := by
        rw [((acceptPsh_ends p u).go hv).asm, ((packet_ends p s).go hu).1.asm]
      rw [hheap] at hmax
      exact .header hpsh (not_not.1 (mt hlinked.2 hpsh)) hallocated hnext hmax
    · have hcont := (continuationRecord_ends (not_not.1 hpshu)).go h
      exact absurd (hcont.block.pdh ▸ not_not.1 hpshu) hpsh

/-- Otherwise there is no list, or the one there was. -/
theorem FrontExit.pool {r : Reason} (h : FrontExit p lib s (.again r) t) :
    t.asm.prod.frags = [] ∨ t.asm.prod = s.asm.prod ∧ t.asm.dataheap = s.asm.dataheap := by
  cases h with
  | untouched h => exact .inr ⟨by rw [h.asm], by rw [h.asm]⟩
  | header i u _ _ hd _ h =>
    have hu : u.asm = s.asm := hd.asm
    cases h with
    | untouched h _ => exact .inr ⟨by rw [h.asm, hu], by rw [h.asm, hu]⟩
    | rejected _ _ ha _ => exact .inr ⟨by rw [ha, hu], by rw [ha, hu]⟩
    | fault he => cases he
    | started a ha hst => exact .inl hst.frags
  | continuation i u _ _ hd _ h =>
    have hu : u.asm = s.asm := hd.asm
    rw [h.asm, ← hu]
    exact .inr ⟨rfl, rfl⟩

/-- After "Get the data": no list, or the one there was and perhaps the new slot. -/
structure PoolData (lib : Library) (u t : State) : Prop where
  dataheap : t.asm.dataheap = (dsAlloc lib u.asm.dataheap).2
  frags : t.asm.prod.frags = u.asm.prod.frags ∨
    ∃ f, t.asm.prod.frags = u.asm.prod.frags ++ [f] ∧ f.gen = (u.newFrag lib).gen ∧
      f.slot = (u.newFrag lib).slot

theorem finish_pool {l : State} (h : FinishGo (u.newFrag lib) l t) (hl : PoolData lib u l) :
    t.asm.prod.frags = [] ∨ PoolData lib u t := by
  cases h with
  | more _ h =>
    subst h
    exact .inr hl
  | handed _ h _ => exact .inl (by rw [h.prod])

theorem linked_pool {m l : State} (hm : Copied (u.getData lib) m) (h : Linked (u.newFrag lib) m l) :
    PoolData lib u l := by
  refine ⟨?_, .inr ⟨m.linkedFrag (u.newFrag lib), ?_, rfl, rfl⟩⟩
  · rw [h.asm, hm.asm]
    rfl
  · rw [h.asm, hm.asm]
    rfl

theorem DataGo.pool (h : DataGo lib u t) : t.asm.prod.frags = [] ∨ PoolData lib u t := by
  cases h with
  | goes _ m l hm hl hf => exact finish_pool hf (linked_pool hm.copied hl)
  | nwstg _ m l hm hl hf => exact finish_pool hf (linked_pool hm.copied hl)

theorem DataExit.pool {r : Reason} (h : DataExit lib u (.again r) t) :
    t.asm.prod.frags = [] ∨ PoolData lib u t := by
  cases h with
  | goes _ h =>
    cases h with
    | missing => exact .inl rfl
    | noImage => exact .inr ⟨rfl, .inl rfl⟩
    | stuck _ _ h => exact absurd rfl (h r)
  | nwstg _ h =>
    cases h with
    | missing => exact .inl rfl
    | punt => exact .inr ⟨rfl, .inl rfl⟩
    | stuck _ _ h => exact absurd rfl (h r)

/-- What holds at the top of the loop with `n` packets taken for the product in progress. -/
structure PoolInv (a : Asm) (n : Nat) : Prop extends Pooled a where
  count : a.prod.frags ≠ [] → a.dataheap.nextfrag = n
  below : ∀ f ∈ a.prod.frags, f.slot < a.dataheap.nextfrag

theorem PoolInv.nil {a : Asm} (h : a.prod.frags = []) : PoolInv a n := by
  refine ⟨⟨fun hne => absurd h hne, ?_, ?_⟩, fun hne => absurd h hne, ?_⟩
  · rw [h]
    nofun
  · rw [h]
    exact List.nodup_nil
  · rw [h]
    nofun

/-- It is about the list and its array only. -/
theorem PoolInv.of_eq {a b : Asm} (hi : PoolInv a n) (hprod : b.prod = a.prod)
    (hheap : b.dataheap = a.dataheap) : PoolInv b n := by
  refine ⟨⟨?_, ?_, ?_⟩, ?_, ?_⟩
  · rw [hprod, hheap]
    exact hi.allocated
  · rw [hprod, hheap]
    exact hi.current
  · rw [hprod]
    exact hi.distinct
  · rw [hprod, hheap]
    exact hi.count
  · rw [hprod, hheap]
    exact hi.below

/-- The pool at "Get the data", where it has a free slot. -/
structure PoolReady (t : State) (n : Nat) : Prop where
  inv : PoolInv t.asm n
  allocated : t.asm.dataheap.allocated = true
  free : t.asm.dataheap.nextfrag < t.asm.dataheap.maxfrags
  next : t.asm.dataheap.nextfrag = n

theorem PoolInv.ready (hi : PoolInv s.asm n) (h : front p lib s = .go t)
    (hfree : t.asm.prod.frags ≠ [] → t.asm.dataheap.nextfrag < t.asm.dataheap.maxfrags) :
    PoolReady t (if t.inp.pdh.pshlen ≠ 0 then 0 else n) := by
  cases front_pool h with
  | header hpsh hnil hallocated hnext hmax =>
    rw [if_pos hpsh]
    exact ⟨.nil hnil, hallocated, by omega, hnext⟩
  | continuation hpsh hprod hheap hne =>
    rw [if_neg (not_not.2 hpsh)]
    have hinv : PoolInv t.asm n := hi.of_eq hprod hheap
    have hne' : t.asm.prod.frags ≠ [] := hprod ▸ hne
    exact ⟨hinv, hinv.allocated hne', hfree hne', hinv.count hne'⟩

theorem PoolReady.slot (lib : Library) (hr : PoolReady u n) :
    (u.newFrag lib).slot = u.asm.dataheap.nextfrag := by
  change (dsAlloc lib u.asm.dataheap).1 = _
  rw [dsAlloc_spec lib hr.allocated hr.free]

theorem PoolReady.gen (lib : Library) (hr : PoolReady u n) :
    (u.newFrag lib).gen = u.asm.dataheap.gen := by
  change (dsAlloc lib u.asm.dataheap).2.gen = _
  rw [dsAlloc_spec lib hr.allocated hr.free]

/-- A slot is taken and not linked, -/
theorem PoolReady.skip (hr : PoolReady u n) {b : Asm}
    (hheap : b.dataheap = { u.asm.dataheap with nextfrag := u.asm.dataheap.nextfrag + 1 })
    (hfrags : b.prod.frags = u.asm.prod.frags) : PoolInv b (n + 1) := by
  refine ⟨⟨fun _ => ?_, ?_, ?_⟩, fun _ => ?_, ?_⟩
  · rw [hheap]
    exact hr.allocated
  · rw [hfrags, hheap]
    exact hr.inv.current
  · rw [hfrags]
    exact hr.inv.distinct
  · rw [hheap, hr.next]
  · rw [hfrags, hheap]
    exact fun f hf => Nat.lt_succ_of_lt (hr.inv.below f hf)

/-- or it becomes the tail: it is above all others. -/
theorem PoolReady.push (hr : PoolReady u n) {b : Asm} {f : Datastore}
    (hheap : b.dataheap = { u.asm.dataheap with nextfrag := u.asm.dataheap.nextfrag + 1 })
    (hfrags : b.prod.frags = u.asm.prod.frags ++ [f]) (hgen : f.gen = u.asm.dataheap.gen)
    (hslot : f.slot = u.asm.dataheap.nextfrag) : PoolInv b (n + 1) := by
  refine ⟨⟨fun _ => ?_, ?_, ?_⟩, fun _ => ?_, ?_⟩
  · rw [hheap]
    exact hr.allocated
  · rw [hfrags, hheap]
    intro g hg
    rcases List.mem_append.1 hg with hg | hg
    · exact hr.inv.current g hg
    · rw [List.mem_singleton.1 hg, hgen, hslot]
      exact ⟨rfl, hr.free⟩
  · rw [hfrags, List.map_append, List.nodup_append]
    refine ⟨hr.inv.distinct, List.nodup_singleton _, ?_⟩
    intro a ha b hb
    obtain ⟨g, hg, rfl⟩ := List.mem_map.1 ha
    have hlt := hr.inv.below g hg
    rw [List.map_singleton, List.mem_singleton] at hb
    omega
  · rw [hheap, hr.next]
  · rw [hfrags, hheap]
    intro g hg
    rcases List.mem_append.1 hg with hg | hg
    · exact Nat.lt_succ_of_lt (hr.inv.below g hg)
    · rw [List.mem_singleton.1 hg, hslot]
      exact Nat.lt_succ_self _

/-- A free slot is taken: the list stays in the array. -/
theorem PoolReady.data (hr : PoolReady u n) (h : t.asm.prod.frags = [] ∨ PoolData lib u t) :
    PoolInv t.asm (n + 1) := by
  rcases h with hnil | h
  · exact .nil hnil
  have hheap := h.dataheap
  rw [dsAlloc_spec lib hr.allocated hr.free] at hheap
  rcases h.frags with hsame | ⟨f, happ, hgen, hslot⟩
  · exact hr.skip hheap hsame
  · exact hr.push hheap happ (hgen.trans (hr.gen lib)) (hslot.trans (hr.slot lib))

/-- A call of `ds_alloc` with a list finds a free slot. -/
def FreeSlot (p : Program) (lib : Library) (s : State) : Prop :=
  (front p lib s).Ends
    (fun t => t.asm.prod.frags ≠ [] → t.asm.dataheap.nextfrag < t.asm.dataheap.maxfrags)
    fun _ _ => True

theorem PoolInv.step (hi : PoolInv s.asm n) (hfree : FreeSlot p lib s) (h : Step p lib s e t) :
    PoolInv t.asm (packetsTaken p lib n s) := by
  obtain ⟨t', hit, ht, -⟩ := h
  rw [ht]
  change PoolInv t'.asm _
  have hfront := front_ends p lib s
  unfold packetsTaken
  unfold iteration at hit
  cases hu : front p lib s with
  | exit e u =>
    rw [hu, Flow.bind_exit] at hit
    rcases hit with ⟨hgo, -⟩ | ⟨r, hex, -⟩
    · cases hgo
    · cases hex
      rcases (hfront.exit hu).pool with hnil | ⟨hprod, hheap⟩
      · exact .nil hnil
      · exact hi.of_eq hprod hheap
  | go u =>
    rw [hu, Flow.bind_go] at hit
    have hready := hi.ready hu (hfree.go hu)
    have hcount : (if u.inp.pdh.pshlen ≠ 0 then 1 else n + 1) =
        (if u.inp.pdh.pshlen ≠ 0 then 0 else n) + 1 := by
      split_ifs <;> rfl
    dsimp only
    rw [hcount]
    rcases hit with ⟨hgo, -⟩ | ⟨r, hex, -⟩
    · exact hready.data ((data_ends lib u).go hgo).pool
    · exact hready.data ((data_ends lib u).exit hex).pool

theorem PoolSafe.freeSlot (h : PoolSafe p lib s) : FreeSlot p lib s :=
  h.2.mono (fun _ h => h.free) fun _ _ _ => trivial

/-- With at most `MAXFRAGS` packets taken every call of `ds_alloc` finds a free slot, -/
theorem PoolInv.freeSlot (hi : PoolInv s.asm n) (h : FewPackets p lib n s) : FreeSlot p lib s := by
  unfold FreeSlot
  cases ht : front p lib s with
  | exit e t => trivial
  | go t =>
    intro hne
    cases front_pool ht with
    | header _ hnil => exact absurd hnil hne
    | continuation hpsh hprod hheap hne' =>
      have hfew := h.go ht hpsh
      rw [hheap] at hfew ⊢
      rwa [hi.count hne']

/-- and it is one that is not in the list. -/
theorem PoolInv.poolSafe (hi : PoolInv s.asm n) (h : FreeSlot p lib s) : PoolSafe p lib s := by
  refine ⟨hi.toPooled, ?_⟩
  cases ht : front p lib s with
  | exit e t => trivial
  | go t =>
    have hready := hi.ready ht (h.go ht)
    refine ⟨h.go ht, fun hmem => ?_⟩
    obtain ⟨f, hf, hslot⟩ := List.mem_map.1 hmem
    have hlt := hready.inv.below f hf
    have hnew := hready.slot lib
    omega

theorem PoolInv.fewPackets (hi : PoolInv s.asm n) (h : FreeSlot p lib s) : FewPackets p lib n s := by
  unfold FewPackets
  cases ht : front p lib s with
  | exit e t => trivial
  | go t =>
    intro hpsh
    cases front_pool ht with
    | header hpsh' => exact absurd hpsh hpsh'
    | continuation _ hprod hheap hne =>
      have hfree := h.go ht (hprod ▸ hne)
      rw [hheap] at hfree ⊢
      rwa [hi.count hne] at hfree

/-- In all executions the list stays in its array, with a free slot at every call of `ds_alloc`
for it, exactly when in each no product takes more than `MAXFRAGS` packets, stored or not. -/
theorem pool_safe_iff (p : Program) (lib : Library) {s₀ : State} (h0 : Initial s₀) :
    (∀ es s n, Trace (CountStep p lib) (s₀, 0) es (s, n) → PoolSafe p lib s) ↔
      ∀ es s n, Trace (CountStep p lib) (s₀, 0) es (s, n) → FewPackets p lib n s := by
  have hstart : PoolInv s₀.asm 0 := .nil h0.frags
  -- on either side each state of an execution has a free slot for its list
  have hinv (hfree : ∀ es a, Trace (CountStep p lib) (s₀, 0) es a →
      PoolInv a.1.asm a.2 → FreeSlot p lib a.1) {es : List Event} {s : State} {n : Nat}
      (h : Trace (CountStep p lib) (s₀, 0) es (s, n)) : PoolInv s.asm n :=
    h.invariant_of_reachable (P := fun a => PoolInv a.1.asm a.2)
      (C := fun a => PoolInv a.1.asm a.2 → FreeSlot p lib a.1)
      (fun a e b hi hc hs => by
        rw [hs.2]
        exact hi.step (hc hi) hs.1) hfree hstart
  constructor
  · intro h es s n hrun
    have hsafe : ∀ es a, Trace (CountStep p lib) (s₀, 0) es a → FreeSlot p lib a.1 :=
      fun es a ha => (h es a.1 a.2 ha).freeSlot
    exact (hinv (fun es a ha _ => hsafe es a ha) hrun).fewPackets (hsafe es (s, n) hrun)
  · intro h es s n hrun
    have hfree : ∀ es a, Trace (CountStep p lib) (s₀, 0) es a → PoolInv a.1.asm a.2 →
        FreeSlot p lib a.1 := fun es a ha hi => hi.freeSlot (h es a.1 a.2 ha)
    have hi := hinv hfree hrun
    exact hi.poolSafe (hfree es (s, n) hrun hi)

end Pool

/-- A block of an image without a PSH, neither on channel 4 nor compressed. -/
structure StrayImage (k : Packet) (n : Int) (j : Nat) : Prop extends k.Headed where
  channel : isGoes k.sbnFields.datastream = true
  direct : k.sbnFields.datastream ≠ 4
  psh : k.psh = []
  transtype : k.pdhFields.transtype ≠ 0
  plain : k.pdhFields.transtype &&& 16 = 0
  dbno : k.pdhFields.dbno = j
  pos : 0 < j
  seqno : k.pdhFields.seqno = n

/-- A product in progress that waits for block `j` and is no image, with `m` slots taken. -/
structure Waiting (n : Int) (j m : Nat) (s : State) : Prop where
  seqno : s.asm.prod.seqno = n
  last : ∃ f, s.asm.prod.frags.getLast? = some f ∧ f.fragnum + 1 = j ∧ f.gen = s.asm.dataheap.gen
  pnginit : s.asm.pnginit = false
  allocated : s.asm.dataheap.allocated = true
  nextfrag : s.asm.dataheap.nextfrag = m

section Strays
variable {p : Program} {lib : Library} {k : Packet} {tail : List UInt8} {n : Int} {j m : Nat}
  {s t : State}

/-- The block has come to "Get the data" and the product is as it was. -/
structure StrayFront (k : Packet) (tail : List UInt8) (s t : State) : Prop where
  prod : t.asm.prod = s.asm.prod
  dataheap : t.asm.dataheap = s.asm.dataheap
  pnginit : t.asm.pnginit = s.asm.pnginit
  goes : t.v.goes = true
  compressed : t.v.prodCompressed = false
  pdh : t.inp.pdh = k.pdhFields
  rest : t.inp.rest = tail

/-- A continuation record is taken up where there is a product and the block is there. -/
theorem continuationRecord_served (hp : p.ServesAll 10000) (hne : s.asm.prod.frags ≠ [])
    (hsize : s.inp.pdh.dbsize ≤ 10000) (hblock : s.inp.pdh.dbsize ≤ s.inp.rest.length) :
    (continuationRecord p s).Ends (fun _ => True) fun _ _ => False := by
  have hinp : s.rerouteChannel4.continued.inp = s.inp := rerouteChannel4_inp s
  have hfrags : s.rerouteChannel4.continued.asm.prod.frags = s.asm.prod.frags := by
    rw [continued_asm]
    rfl
  unfold continuationRecord
  rw [State.readBlock, State.read_go hp (by rwa [hinp]) (by rwa [hinp]), Flow.bind_go]
  exact Flow.ends_ite (fun hnil => hne (hfrags.symm.trans hnil)) fun _ => trivial

theorem stray_front (lib : Library) (hp : p.ServesAll 10000) (hk : StrayImage k n j)
    (hne : s.asm.prod.frags ≠ []) (hrest : s.inp.rest = k.bytes ++ tail) :
    (front p lib s).Ends (StrayFront k tail s) fun _ _ => False := by
  have hlens := hk.length_bytes
  have hsize := hk.size
  rw [hk.psh, List.length_nil] at hlens
  rw [front_eq]
  unfold packet
  have hsync := sync_packet hp hk.toHeaded hrest
  cases hi : sync p s.inp with
  | exit e i => exact (hsync.exit hi).elim
  | go i =>
    rw [Flow.within_go, Flow.bind_go]
    refine Flow.Ends.bind (definition_headed hp hk.toHeaded (.inr hk.channel) (.inr hk.transtype)
      (s := s.setInp i) (hsync.go hi)) ?_
    rintro u ⟨hd, hsbn, hpdh, -, hurest⟩
    have hpshlen : u.inp.pdh.pshlen = 0 := by
      rw [hpdh, hk.pshlen, hk.psh]
      rfl
    rw [if_neg (not_not.2 hpshlen)]
    have hvars := hd.vars
    have hsbn' : (s.setInp i).inp.sbn = k.sbnFields := hd.sbn.symm.trans hsbn
    rw [hsbn', hpdh, hk.channel, hk.plain] at hvars
    have hreroute : u.rerouteChannel4 = u := if_neg fun h => hk.direct (hsbn ▸ h.1)
    rw [hk.psh, List.nil_append] at hurest
    have hasm : u.asm = s.asm := hd.asm
    have hdb : u.inp.pdh.dbsize = k.block.length := by rw [hpdh, hk.dbsize]
    have hread : (continuationRecord p u).Ends (fun _ => True) fun _ _ => False := by
      refine continuationRecord_served hp (hasm ▸ hne) (by omega) ?_
      rw [hdb, hurest, List.length_append]
      exact Nat.le_add_right ..
    refine ((continuationRecord_ends hpshlen).and hread).mono ?_ fun _ _ h => h.2
    rintro t ⟨hgo, -⟩
    refine ⟨?_, ?_, ?_, ?_, ?_, hgo.block.pdh.trans hpdh, ?_⟩
    · rw [hgo.asm, ← hasm]
      rfl
    · rw [hgo.asm, ← hasm]
      rfl
    · rw [hgo.asm, ← hasm]
      rfl
    · rw [hgo.vars, hreroute, hvars]
    · rw [hgo.vars, hreroute, hvars]
      rfl
    · rw [hgo.block.rest, hpshlen, hpdh, hk.dbsize, hurest]
      exact List.drop_left' rfl

theorem stray_dataheap (lib : Library) (hw : Waiting n j m s) (hfree : m < s.asm.dataheap.maxfrags)
    (ht : StrayFront k tail s t) :
    (t.getData lib).asm.dataheap = { s.asm.dataheap with nextfrag := m + 1 } := by
  have halloc : dsAlloc lib t.asm.dataheap = (m, { s.asm.dataheap with nextfrag := m + 1 }) := by
    rw [ht.dataheap, dsAlloc_spec lib hw.allocated (by rwa [hw.nextfrag]), hw.nextfrag]
  change (dsAlloc lib t.asm.dataheap).2 = _
  rw [halloc]

/-- What a product in progress that is no image says to the block that it waits for. -/
theorem stray_refused (lib : Library) (hk : StrayImage k n j) (hw : Waiting n j m s)
    (hfree : m < s.asm.dataheap.maxfrags) (ht : StrayFront k tail s t) :
    goesData lib (t.newFrag lib) (t.getData lib) = .exit (.again .pngInit) (t.getData lib) := by
  obtain ⟨f, hlast, hnum, hgen⟩ := hw.last
  have hprod : (t.getData lib).asm.prod = s.asm.prod := ht.prod
  have hpos : (t.newFrag lib).fragnum > 0 := by
    change t.inp.pdh.dbno > 0
    rw [ht.pdh, hk.dbno]
    exact hk.pos
  have hlives : (t.getData lib).asm.tailLives f = true := by
    rw [Asm.tailLives, stray_dataheap lib hw hfree ht]
    exact decide_eq_true hgen
  have hfollows : s.asm.prod.missing f (t.newFrag lib) = false := by
    refine decide_eq_false ?_
    change ¬ (t.inp.pdh.dbno ≠ f.fragnum + 1 ∨ t.inp.pdh.seqno ≠ s.asm.prod.seqno)
    rw [ht.pdh, hk.dbno, hk.seqno, hw.seqno]
    omega
  have hnone : (t.getData lib).asm.pnginit = false ∧ (t.getData lib).v.prodCompressed = false :=
    ⟨ht.pnginit.trans hw.pnginit, ht.compressed⟩
  unfold goesData
  rw [if_pos hpos, hprod, hlast]
  dsimp only
  rw [hlives, hfollows, if_neg (by decide), if_neg (by decide), if_pos hnone]
  rfl

/-- A stray block of an image is rejected, and keeps its slot. -/
theorem stray_keeps_slot (lib : Library) (hp : p.ServesAll 10000) (hk : StrayImage k n j)
    (hw : Waiting n j m s) (hfree : m < s.asm.dataheap.maxfrags)
    (hrest : s.inp.rest = k.bytes ++ tail) :
    (iteration p lib s).Ends (fun _ => False)
      fun e t => e = .again .pngInit ∧ Waiting n j (m + 1) t ∧ t.inp.rest = tail ∧
        t.asm.dataheap.maxfrags = s.asm.dataheap.maxfrags := by
  obtain ⟨f, hlast, hnum, hgen⟩ := hw.last
  have hne : s.asm.prod.frags ≠ [] := by
    intro hnil
    rw [hnil] at hlast
    cases hlast
  refine Flow.Ends.bind ((stray_front lib hp hk hne hrest).mono (fun _ h => h) fun _ _ h => h.elim)
    fun t ht => ?_
  have hheap := stray_dataheap lib hw hfree ht
  have hprod : (t.getData lib).asm.prod = s.asm.prod := ht.prod
  have hg' : (t.getData lib).v.goes = true := ht.goes
  unfold data
  simp only [hg', ↓reduceIte, stray_refused lib hk hw hfree ht, Flow.bind_exit, Flow.ends_exit,
    true_and]
  refine ⟨⟨?_, ⟨f, ?_, hnum, ?_⟩, ht.pnginit.trans hw.pnginit, ?_, ?_⟩, ht.rest, ?_⟩
  · rw [hprod]
    exact hw.seqno
  · rw [hprod]
    exact hlast
  · rw [hheap]
    exact hgen
  · rw [hheap]
    exact hw.allocated
  · rw [hheap]
  · rw [hheap]

/-- Any number of them, while the array lasts. -/
theorem strays_run (lib : Library) (hp : p.ServesAll 10000) (hk : StrayImage k n j) (r : Nat)
    (hw : Waiting n j m s) (hfree : m + r ≤ s.asm.dataheap.maxfrags)
    (hrest : s.inp.rest = (List.replicate r k).flatMap Packet.bytes ++ tail) :
    ∃ es t, Trace (Step p lib) s es t ∧ Waiting n j (m + r) t ∧ t.inp.rest = tail ∧
      t.asm.dataheap.maxfrags = s.asm.dataheap.maxfrags := by
  induction r generalizing s m with
  | zero => exact ⟨[], s, .nil s, hw, hrest, rfl⟩
  | succ r ih =>
    rw [List.replicate_succ, List.flatMap_cons, List.append_assoc] at hrest
    have hends := stray_keeps_slot lib hp hk hw (by omega) hrest
    obtain ⟨t, -, hno⟩ | ⟨e, t, hit, rfl, hwt, htrest, hmax⟩ := hends.cases
    · exact hno.elim
    · obtain ⟨es, u, hrun, hwu, hurest, hmaxu⟩ := ih hwt (by omega) htrest
      refine ⟨_, u, .cons ⟨t, .inr ⟨_, hit, rfl⟩, rfl, fun _ => rfl⟩ hrun, ?_, hurest,
        hmaxu.trans hmax⟩
      rwa [Nat.add_right_comm, Nat.add_assoc] at hwu

/-- One more than there are free slots, and `ds_alloc` is called with a list and none. -/
theorem strays_outgrow (lib : Library) (hp : p.ServesAll 10000) (hk : StrayImage k n j)
    (hw : Waiting n j m s) {r : Nat} (hmax : m + r = s.asm.dataheap.maxfrags)
    (hrest : s.inp.rest = (List.replicate r k).flatMap Packet.bytes ++ (k.bytes ++ tail)) :
    ∃ es t, Trace (Step p lib) s es t ∧ ¬ FreeSlot p lib t := by
  obtain ⟨es, t, hrun, hwt, htrest, hmaxt⟩ := strays_run lib hp hk r hw (by omega) hrest
  obtain ⟨f, hf, -⟩ := hwt.last
  have hne : t.asm.prod.frags ≠ [] := by
    intro hnil
    rw [hnil] at hf
    cases hf
  refine ⟨es, t, hrun, fun hfree => ?_⟩
  obtain ⟨v, hv, hfront⟩ | ⟨e, v, -, hno⟩ := (stray_front lib hp hk hne htrest).cases
  · have hlt := hfree.go hv (by rwa [hfront.prod])
    rw [hfront.dataheap, hwt.nextfrag, hmaxt] at hlt
    omega
  · exact hno.elim

/-- The array in which a product is begun, once its first packet is taken. -/
theorem first_maxfrags (hp : p.ServesAll 10000) {P : NwstgProduct}
    (hrest : s.inp.rest = (P.packet 0).bytes ++ tail) (hidle : s.asm.prod.frags = [])
    (hit : iteration p lib s = .go t) (hlinked : t.asm.prod.frags ≠ []) :
    t.asm.dataheap.maxfrags = max s.asm.dataheap.maxfrags (P.nfrag + 1) := by
  obtain ⟨a, ha, -⟩ := abandon_some lib (.inl hidle)
  unfold iteration at hit
  obtain ⟨u, hu, hdata⟩ := Flow.bind_eq_go.1 hit
  have hbegun := ((front_first hp P.packet_first hrest ha).go hu).2
  have hnfrag : u.asm.prod.nfrag = P.nfrag := by rw [hbegun.prod, P.packet_first.frags]
  obtain hnil | hpool := ((data_ends lib u).go hdata).pool
  · exact absurd hnil hlinked
  cases front_pool hu with
  | continuation _ _ _ hne => exact absurd hidle hne
  | header _ _ hallocated hnext hmax =>
    rw [hpool.dataheap, dsAlloc_spec lib hallocated (by omega), ← hnfrag]
    exact hmax

end Strays

def strayPacket : Packet where
  sbn := [255, 0, 20, 0, 3, 1, 0, 0, 0, 0, 0, 1, 0, 1, 1, 25]
  pdh := [20, 2, 0, 16, 0, 1, 0, 0, 0, 1, 1, 1, 0, 0, 0, 7]
  psh := []
  block := [65]

theorem strayPacket_stray : StrayImage strayPacket 7 1 where
  toHeaded := by constructor <;> decide +kernel
  channel := by decide +kernel
  direct := by decide +kernel
  psh := rfl
  transtype := by decide +kernel
  plain := by decide +kernel
  dbno := by decide +kernel
  pos := Nat.one_pos
  seqno := by decide +kernel

def strays : List UInt8 := (List.replicate 999 strayPacket).flatMap Packet.bytes ++ strayPacket.bytes

/-- A text product of two blocks; in place of the second come 1000 stray ones. -/
def strayStream : List UInt8 := headPacket.bytes ++ strays

/-- The last of the stray blocks makes `ds_alloc` move the array under the list. -/
theorem pool_outgrown : ¬ ∀ es s n,
    Trace (CountStep readnoaaport .plain) (State.fresh strayStream .blank, 0) es (s, n) →
      PoolSafe readnoaaport .plain s := by
  have hp := readnoaaport_servesAll 10000
  have hrest : (State.fresh strayStream .blank).inp.rest = (textProduct.packet 0).bytes ++ strays :=
    rfl
  have hidle : (State.fresh strayStream .blank).asm.prod.frags = [] := rfl
  have hpng : (State.fresh strayStream .blank).asm.pnginit = false := rfl
  have h1000 : (State.fresh strayStream .blank).asm.dataheap.maxfrags = 1000 := rfl
  generalize State.fresh strayStream .blank = s at hrest hidle hpng h1000 ⊢
  have hends : (iteration readnoaaport .plain s).Ends _ _ := first_serves hp hrest (.inl hidle)
  obtain ⟨t, hit, ht⟩ | ⟨e, t, -, hno⟩ := hends.cases
  · intro h
    have hb : Building textProduct 1 t := ht.stands
    have hmax : t.asm.dataheap.maxfrags = 1000 := by
      rw [first_maxfrags hp hrest hidle hit hb.linked, h1000]
      rfl
    obtain ⟨f, hf⟩ : ∃ f, t.asm.prod.frags.getLast? = some f :=
      ⟨_, List.getLast?_eq_some_getLast hb.linked⟩
    have hw : Waiting 7 1 1 t :=
      ⟨hb.seqno, ⟨f, hf, hb.last f hf⟩, ht.pnginit hpng, hb.allocated, hb.nextfrag⟩
    have htrest : t.inp.rest = (List.replicate 999 strayPacket).flatMap Packet.bytes ++
        (strayPacket.bytes ++ []) := by
      rw [ht.rest, List.append_nil]
      rfl
    obtain ⟨es, u, hrun, hfull⟩ := strays_outgrow .plain hp strayPacket_stray hw (by rw [hmax]) htrest
    have hstep : Step readnoaaport .plain s .taken t := ⟨t, .inl ⟨hit, rfl⟩, rfl, fun _ => rfl⟩
    obtain ⟨n, hn⟩ := (Trace.cons hstep hrun).withGhost (packetsTaken readnoaaport .plain) 0
    exact hfull (h _ u n hn).freeSlot
  · exact hno.elim

/-- A loop that keeps its variables and waits behind `m` iterations takes at most `m` packets. -/
theorem fewPackets_of_waits {p : Program} {lib : Library} {m n : Nat} {s₀ s : State} {es : List Event}
    (hk : p.keepsVars = true)
    (hwaits : (iteration p lib (iterate p lib m s₀)).Ends (fun _ => False) fun e _ => e = .blocked)
    (hroom : ∀ k ≤ m, (front p lib (iterate p lib k s₀)).Ends (fun t => m < t.asm.dataheap.maxfrags)
      fun _ _ => True)
    (h : Trace (CountStep p lib) (s₀, 0) es (s, n)) : FewPackets p lib n s := by
  have hreached : ∃ k ≤ m, s = iterate p lib k s₀ ∧ n ≤ k := by
    refine h.invariant (P := fun a => ∃ k ≤ m, a.1 = iterate p lib k s₀ ∧ a.2 ≤ k) ?_
      ⟨0, by omega, rfl, Nat.le_refl 0⟩
    rintro ⟨s, n⟩ e ⟨t, n'⟩ ⟨k, hkm, hs, hn⟩ ⟨hstep, hcount⟩
    dsimp only at hs hn hstep hcount
    subst hs
    have hlt : k ≠ m := by
      intro heq
      obtain ⟨u, ⟨hit, -⟩ | ⟨r, hit, -⟩, -⟩ := hstep
      · exact hwaits.go (heq ▸ hit)
      · cases hwaits.exit (heq ▸ hit)
    refine ⟨k + 1, by omega, ?_, ?_⟩
    · rw [iterate_succ]
      exact hstep.eq_iterate p lib hk
    · rw [hcount]
      unfold packetsTaken
      dsimp only
      split
      · split_ifs <;> omega
      · omega
  obtain ⟨k, hkm, rfl, hn⟩ := hreached
  exact (hroom k hkm).mono (fun t ht _ => by omega) fun _ _ _ => trivial

/-- The packets of a product, one by one, on an array that is long enough. -/
theorem pool_safe_iff_run : Initial (State.fresh (stream (inOrder [textProduct])) .blank) ∧ ∀ es s n,
    Trace (CountStep readnoaaport .plain) (State.fresh (stream (inOrder [textProduct])) .blank, 0) es (s, n) →
      PoolSafe readnoaaport .plain s := by
  refine ⟨State.fresh_initial .., (pool_safe_iff readnoaaport .plain (State.fresh_initial ..)).2 fun es s n h => ?_⟩
  refine fewPackets_of_waits (m := 2) rfl ?_ ?_ h
  · decide +kernel
  · decide +kernel

end Noaaport
