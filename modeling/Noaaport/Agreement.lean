import Noaaport.Fragments
import Noaaport.Records

/-! `pmStart` on the FIFO and `readnoaaport` on shared-memory records, side by side over one
stream: the same calls of `process_prod`. -/
namespace Noaaport
open Lib

/-- The same kind of answer. -/
def Got.Like : Got → Got → Prop
  | .ok, .ok | .status _, .status _ | .blocked, .blocked => True
  | _, _ => False

/-- Two programs alike on everything that a packet can ask for. -/
def Program.Alike (p q : Program) (n : Nat) : Prop :=
  ∀ (want : Int) (rest : List UInt8), want ≤ 65535 → rest.length ≤ n →
    (p.reader.read want rest).Like (q.reader.read want rest)

/-- Equal but for the statistics, with at most `n` bytes to come. -/
inductive TwinInput (n : Nat) (i : Input) : Input → Prop where
  | mk (st : Stats) (h : i.rest.length ≤ n) : TwinInput n i { i with stats := st }

inductive Twin (n : Nat) (s : State) : State → Prop where
  | mk (i : Input) (h : TwinInput n s.inp i) : Twin n s (s.setInp i)

abbrev Twins (n : Nat) (x y : Flow) : Prop := Flow.Rel (Twin n) (Twin n) x y

section Front
variable {p q : Program} {lib : Library} {n : Nat} {s t : State} {i j : Input}

theorem TwinInput.read {off : Nat} {want : Int} {onFail : Exit}
    (hpq : p.Alike q n) (hw : want ≤ 65535) (h : TwinInput n i j) :
    Flow.Rel (TwinInput n) (TwinInput n) (i.read p off want onFail) (j.read q off want onFail) := by
  cases h with | mk st h => ?_
  have hlike := hpq want i.rest hw h
  have hdrop : (i.rest.drop want.toNat).length ≤ n := by
    rw [List.length_drop]
    omega
  unfold Input.read
  dsimp only
  generalize p.reader.read want i.rest = x at hlike ⊢
  generalize q.reader.read want i.rest = y at hlike ⊢
  cases x <;> cases y
  case ok.ok => exact .mk st hdrop
  case status.status => exact ⟨rfl, .mk st h⟩
  case blocked.blocked => exact ⟨rfl, .mk st h⟩
  all_goals exact hlike.elim

theorem Twin.ite {c d : Prop} [Decidable c] [Decidable d] {s' t' : State} (hcd : c ↔ d)
    (h : Twin n s t) (h' : Twin n s' t') :
    Twin n (if c then s else s') (if d then t else t') := by
  by_cases hc : c
  · rw [if_pos hc, if_pos (hcd.1 hc)]
    exact h
  · rw [if_neg hc, if_neg (mt hcd.2 hc)]
    exact h'

theorem TwinInput.setInp (s : State) (h : TwinInput n i j) : Twin n (s.setInp i) (s.setInp j) := by
  cases h with
  | mk st h => exact .mk { i with stats := st } (.mk st h)

theorem Twin.read {off : Nat} {want : Int} {onFail : Exit} (hpq : p.Alike q n)
    (hw : want ≤ 65535) (h : Twin n s t) :
    Twins n (s.read p off want onFail) (t.read q off want onFail) := by
  cases h with | mk i h => ?_
  exact (h.read hpq hw).within_of (fun _ _ h => h.setInp s) fun _ _ h => h.setInp s

theorem Twin.readBlock {onFail : Exit} (hpq : p.Alike q n) (hblock : s.inp.pdh.dbsize ≤ 65535)
    (h : Twin n s t) : Twins n (s.readBlock p onFail) (t.readBlock q onFail) := by
  cases h with | mk i h => ?_
  cases h with | mk st h => ?_
  exact Twin.read hpq (Int.ofNat_le.2 hblock) (.mk _ (.mk st h))

theorem syncLoop_twin (hpq : p.Alike q n) (fuel : Nat) (h : TwinInput n i j) :
    Flow.Rel (TwinInput n) (TwinInput n) (syncLoop p fuel i) (syncLoop q fuel j) := by
  induction fuel generalizing i j with
  | zero => exact ⟨rfl, h⟩
  | succ fuel ih =>
    have hset : TwinInput n i.setSbn j.setSbn := by
      cases h with
      | mk st h => exact .mk st h
    cases h with | mk st h => ?_
    refine Flow.rel_ite Iff.rfl hset ?_
    refine Flow.rel_ite_of Iff.rfl (fun _ => ⟨rfl, hset⟩) fun hoff => ?_
    have hshift : TwinInput n (i.setSbn.shift (scan i.buf 1))
        (Input.shift (Input.setSbn { i with stats := st }) (scan i.buf 1)) := .mk st h
    exact (hshift.read hpq (by omega)).bind fun i j h => ih h

theorem sync_twin (hpq : p.Alike q n) (h : TwinInput n i j) :
    Flow.Rel (TwinInput n) (TwinInput n) (sync p i) (sync q j) := by
  refine (h.read hpq (by decide)).bind fun i j h => ?_
  have hbuf : j.buf = i.buf := by cases h with | mk st h => rfl
  refine Flow.rel_ite (by rw [hbuf]) ⟨rfl, h⟩ ?_
  refine (h.read hpq (by decide)).bind fun i j h => ?_
  have hrest : j.rest = i.rest := by cases h with | mk st h => rfl
  rw [hrest]
  exact syncLoop_twin hpq _ h

theorem readExtra_twin (hpq : p.Alike q n) (hq : q.checksExtra = false)
    (hlen : s.inp.pdh.len ≤ 60) (h : Twin n s t) : Twins n (readExtra p s) (readExtra q t) := by
  have hread : Twins n (s.read p (s.inp.sbn.len + 16) (s.inp.pdh.len - 16 : Nat) (.again .pdhExtra))
      (t.read q (s.inp.sbn.len + 16) (s.inp.pdh.len - 16 : Nat) (.again .pdhExtra)) :=
    h.read hpq (by omega)
  have hgood := t.read_unchecked hq (s.inp.sbn.len + 16) (s.inp.pdh.len - 16) (.again .pdhExtra)
  cases h with | mk i h => ?_
  cases h with | mk st h => ?_
  refine Flow.rel_ite Iff.rfl ?_ (.mk _ (.mk st h))
  dsimp only [State.setInp_inp]
  generalize s.read p _ _ _ = x at hread ⊢
  generalize State.read q _ _ _ _ = y at hread hgood ⊢
  cases x <;> cases y
  case go.go => exact hread
  case go.exit => exact hread.elim
  case exit.go => exact hread.elim
  case exit.exit e s' e' t' =>
    obtain ⟨rfl, h'⟩ := hread
    cases hgood
    exact ⟨rfl, h'⟩

/-- What the fields of a PDH can hold. -/
structure Pdh.Bounded (pdh : Pdh) : Prop where
  len : pdh.len ≤ 60
  pshlen : pdh.pshlen ≤ 65535
  dbsize : pdh.dbsize ≤ 65535

theorem readpdh_bounded (buf : Buffer) (a : Nat) : (readpdh buf a).Bounded := by
  have h2 := be16_lt buf (a + 2)
  have h8 := be16_lt buf (a + 8)
  unfold readpdh
  constructor
  · dsimp only
    omega
  · dsimp only
    omega
  · dsimp only
    omega

theorem definition_twin (hpq : p.Alike q n) (hq : q.checksExtra = false) (h : Twin n s t) :
    Twins n (definition p s) (definition q t) := by
  refine (h.read hpq (by decide)).bind fun s t h => ?_
  cases h with | mk i h => ?_
  cases h with | mk st h => ?_
  refine Flow.rel_ite Iff.rfl ⟨rfl, .mk _ (.mk _ h)⟩ ?_
  refine Flow.rel_ite Iff.rfl ⟨rfl, .mk _ (.mk _ h)⟩ ?_
  refine Flow.Rel.bind (readExtra_twin hpq hq ?_ (.mk _ (.mk _ h))) fun s t h => ?_
  · exact (readpdh_bounded ..).len
  cases h with | mk i h => ?_
  cases h with | mk st h => ?_
  refine Flow.rel_ite Iff.rfl ⟨rfl, .mk _ (.mk _ h)⟩ ?_
  exact Flow.rel_ite Iff.rfl ⟨rfl, .mk _ (.mk _ h)⟩ (.mk _ (.mk _ h))

theorem openProduct_twin (h : Twin n s t) :
    Twins n (openProduct lib s) (openProduct lib t) := by
  cases h with | mk i h => ?_
  cases h with | mk st h => ?_
  have hgoes : Twins n (if s.v.goes then goesHeader lib s.markImage else .go s.markImage)
      (if s.v.goes then goesHeader lib (s.setInp { s.inp with stats := st }).markImage
        else .go (s.setInp { s.inp with stats := st }).markImage) := by
    refine Flow.rel_ite Iff.rfl ?_ (.mk _ (.mk _ h))
    exact Flow.rel_ite Iff.rfl ⟨rfl, .mk _ (.mk _ h)⟩ (.mk _ (.mk _ h))
  refine Flow.Rel.bind hgoes fun s t h => ?_
  cases h with | mk i h => ?_
  cases h with | mk st h => ?_
  exact Twin.ite Iff.rfl (.mk _ (.mk st h)) (.mk _ (.mk st h))

theorem Twin.reroute (h : Twin n s t) : Twin n s.rerouteChannel4 t.rerouteChannel4 := by
  cases h with | mk i h => ?_
  cases h with | mk st h => ?_
  exact .ite Iff.rfl (.mk _ (.mk st h)) (.mk _ (.mk st h))

theorem Twin.continued (h : Twin n s t) : Twin n s.continued t.continued := by
  cases h with | mk i h => ?_
  cases h with | mk st h => ?_
  exact .mk _ (.mk st h)

theorem Twin.resetHeap (h : Twin n s t) : Twin n s.resetHeap t.resetHeap := by
  cases h with | mk i h => ?_
  cases h with | mk st h => ?_
  exact .mk _ (.mk st h)

theorem headerRecord_twin (hpq : p.Alike q n) (hsize : s.inp.pdh.pshlen ≤ 65535)
    (hblock : s.inp.pdh.dbsize ≤ 65535) (h : Twin n s t) :
    Twins n (headerRecord p lib s) (headerRecord q lib t) := by
  have hread : Twins n (s.read p s.inp.pshOff s.inp.pdh.pshlen (.again .pshRead))
      (t.read q t.inp.pshOff t.inp.pdh.pshlen (.again .pshRead)) := by
    cases h with | mk i h => ?_
    cases h with | mk st h => ?_
    exact Twin.read hpq hsize (.mk _ (.mk st h))
  refine (hread.and_ends (State.read_ends ..)).bind fun s' t' h => ?_
  obtain ⟨⟨rfl, -⟩, h⟩ := h
  cases h with | mk i h => ?_
  cases h with | mk st h => ?_
  refine Flow.rel_ite Iff.rfl ⟨rfl, .mk _ (.mk _ h)⟩ ?_
  refine Flow.rel_ite Iff.rfl ⟨rfl, .mk _ (.mk _ h)⟩ ?_
  simp only [State.decodePsh, State.setInp_inp, State.setInp_asm, Input.pshOff]
  split
  · exact ⟨rfl, .mk _ (.mk _ h)⟩
  · refine Flow.Rel.bind (Twin.readBlock hpq hblock (.mk _ (.mk _ h))) fun s t h => ?_
    exact openProduct_twin h.reroute.resetHeap

theorem continuationRecord_twin (hpq : p.Alike q n) (hblock : s.inp.pdh.dbsize ≤ 65535)
    (h : Twin n s t) : Twins n (continuationRecord p s) (continuationRecord q t) := by
  have hinp : s.rerouteChannel4.continued.inp = s.inp := rerouteChannel4_inp s
  refine Flow.Rel.bind (h.reroute.continued.readBlock hpq (hinp ▸ hblock)) fun s t h => ?_
  cases h with | mk i h => ?_
  cases h with | mk st h => ?_
  exact Flow.rel_ite Iff.rfl ⟨rfl, .mk _ (.mk _ h)⟩ (.mk _ (.mk _ h))

theorem front_twin (hpq : p.Alike q n) (hq : q.checksExtra = false) (h : Twin n s t) :
    Twins n (front p lib s) (front q lib t) := by
  have hsync : Twins n ((sync p s.inp).within s.setInp) ((sync q t.inp).within t.setInp) := by
    cases h with
    | mk i h => exact (sync_twin hpq h).within_of (fun _ _ h => h.setInp s) fun _ _ h => h.setInp s
  have hdef : Flow.Rel (fun s t => s.inp.pdh.Bounded ∧ Twin n s t) (Twin n)
      (((sync p s.inp).within s.setInp).bind (definition p))
      (((sync q t.inp).within t.setInp).bind (definition q)) := by
    refine hsync.bind fun s t h => ?_
    exact (definition_twin hpq hq h).and_ends
      ((definition_ends p s).mono (fun _ hd => hd.pdh ▸ readpdh_bounded ..) fun _ _ _ => trivial)
  refine Flow.Rel.bind hdef fun s t h => ?_
  obtain ⟨⟨-, hpsh, hblock⟩, h⟩ := h
  have hheader : Twins n (headerRecord p lib s) (headerRecord q lib t) :=
    headerRecord_twin hpq hpsh hblock h
  have hcont := continuationRecord_twin hpq hblock h
  cases h with | mk i h => ?_
  cases h with | mk st h => ?_
  exact Flow.rel_ite Iff.rfl hheader hcont

end Front

section Data
variable {lib : Library} {n : Nat} {pfrag : Datastore} {s t : State}

theorem goesFirst_twin (h : Twin n s t) : Twins n (goesFirst lib s) (goesFirst lib t) := by
  cases h with | mk i h => ?_
  cases h with | mk st h => ?_
  refine Flow.rel_ite Iff.rfl (.mk _ (.mk st h)) ?_
  simp only [State.setInp_asm, State.block, State.setInp_inp, State.setInp_v]
  split
  · exact ⟨rfl, .mk _ (.mk st h)⟩
  · exact .mk _ (.mk st h)

theorem goesNext_twin (h : Twin n s t) : Twins n (goesNext lib s) (goesNext lib t) := by
  cases h with | mk i h => ?_
  cases h with | mk st h => ?_
  refine Flow.rel_ite Iff.rfl (.mk _ (.mk st h)) ?_
  refine Flow.rel_ite Iff.rfl ⟨rfl, .mk _ (.mk st h)⟩ ?_
  simp only [State.setInp_asm, State.setInp_inp, State.setInp_v]
  split
  · exact ⟨rfl, .mk _ (.mk st h)⟩
  · exact .mk _ (.mk st h)

theorem goesData_twin (h : Twin n s t) : Twins n (goesData lib pfrag s) (goesData lib pfrag t) := by
  have hfirst : Twins n (goesFirst lib s) (goesFirst lib t) := goesFirst_twin h
  have hnext : Twins n (goesNext lib s) (goesNext lib t) := goesNext_twin h
  cases h with | mk i h => ?_
  cases h with | mk st h => ?_
  refine Flow.Rel.bind (Q := Twin n) ?_ fun s t h => ?_
  · refine Flow.rel_ite Iff.rfl ?_ hfirst
    simp only [State.setInp_asm]
    split
    · exact ⟨rfl, .mk _ (.mk st h)⟩
    · refine Flow.rel_ite Iff.rfl ⟨rfl, .mk _ (.mk st h)⟩ ?_
      refine Flow.rel_ite Iff.rfl ⟨rfl, .mk _ (.mk st h)⟩ ?_
      exact Flow.rel_ite Iff.rfl ⟨rfl, .mk _ (.mk st h)⟩ hnext
  · cases h with | mk i h => ?_
    cases h with | mk st h => ?_
    exact .mk _ (.mk st h)

theorem nwstgCopy_twin (pfrag : Datastore) (h : Twin n s t) :
    Twins n (nwstgCopy pfrag s) (nwstgCopy pfrag t) := by
  cases h with | mk i h => ?_
  cases h with | mk st h => ?_
  exact Flow.rel_ite Iff.rfl ⟨rfl, .mk _ (.mk st h)⟩ (.mk _ (.mk st h))

theorem nwstgData_twin (h : Twin n s t) : Twins n (nwstgData pfrag s) (nwstgData pfrag t) := by
  have hcopy := nwstgCopy_twin pfrag h
  cases h with | mk i h => ?_
  cases h with | mk st h => ?_
  unfold nwstgData
  simp only [State.setInp_asm]
  split
  · exact hcopy
  · refine Flow.rel_ite Iff.rfl hcopy ?_
    refine Flow.rel_ite Iff.rfl ⟨rfl, .mk _ (.mk st h)⟩ ?_
    exact Flow.rel_ite Iff.rfl ⟨rfl, .mk _ (.mk st h)⟩ hcopy

theorem link_twin (pfrag : Datastore) (h : Twin n s t) : Twins n (link pfrag s) (link pfrag t) := by
  cases h with | mk i h => ?_
  cases h with | mk st h => ?_
  unfold link
  simp only [State.setInp_asm, State.setInp_v]
  split
  · exact .mk _ (.mk st h)
  · exact Flow.rel_ite Iff.rfl (.mk _ (.mk st h)) ⟨rfl, .mk _ (.mk st h)⟩

theorem goesEnd_twin (h : Twin n s t) : Twins n (goesEnd lib s) (goesEnd lib t) := by
  cases h with | mk i h => ?_
  cases h with | mk st h => ?_
  refine Flow.rel_ite Iff.rfl ?_ (.mk _ (.mk st h))
  simp only [State.setInp_asm]
  split
  · exact ⟨rfl, .mk _ (.mk st h)⟩
  · exact .mk _ (.mk st h)

theorem nwstgEnd_twin (h : Twin n s t) : Twin n (nwstgEnd s) (nwstgEnd t) := by
  cases h with | mk i h => ?_
  cases h with | mk st h => ?_
  exact .ite Iff.rfl (.mk _ (.mk st h)) (.mk _ (.mk st h))

theorem Twin.process (h : Twin n s t) : Twin n (s.process lib) (t.process lib) := by
  cases h with | mk i h => ?_
  cases h with | mk st h => ?_
  exact .mk _ (.mk st h)

theorem finish_twin (pfrag : Datastore) (h : Twin n s t) :
    Twins n (finish lib pfrag s) (finish lib pfrag t) := by
  have hend : Twins n (goesEnd lib s) (goesEnd lib t) := goesEnd_twin h
  cases h with | mk i h => ?_
  cases h with | mk st h => ?_
  refine Flow.rel_ite Iff.rfl ?_ (.mk _ (.mk st h))
  refine Flow.Rel.bind (Flow.rel_ite Iff.rfl hend (.mk _ (.mk st h))) fun s t h => ?_
  have hlast := nwstgEnd_twin h
  cases h with | mk i h => ?_
  exact Twin.process (.ite Iff.rfl hlast (.mk i h))

theorem data_twin (h : Twin n s t) : Twins n (data lib s) (data lib t) := by
  have hget : Twin n (s.getData lib) (t.getData lib) := by
    cases h with | mk i h => ?_
    cases h with | mk st h => ?_
    exact .mk _ (.mk st h)
  have hgoes : Twins n (goesData lib (s.newFrag lib) (s.getData lib))
      (goesData lib (s.newFrag lib) (t.getData lib)) := goesData_twin hget
  have hnwstg : Twins n (nwstgData (s.newFrag lib) (s.getData lib))
      (nwstgData (s.newFrag lib) (t.getData lib)) := nwstgData_twin hget
  cases h with | mk i h => ?_
  cases h with | mk st h => ?_
  refine Flow.Rel.bind (Flow.rel_ite Iff.rfl hgoes hnwstg) fun s' t' h => ?_
  exact (link_twin _ h).bind fun s t h => finish_twin _ h

end Data

section Runs
variable {p q : Program} {lib : Library} {n : Nat} {s t : State}

theorem iteration_twin (hpq : p.Alike q n) (hq : q.checksExtra = false) (h : Twin n s t) :
    Twins n (iteration p lib s) (iteration q lib t) :=
  (front_twin hpq hq h).bind fun _ _ h => data_twin h

theorem iterate_twin (hpq : p.Alike q n) (hq : q.checksExtra = false) (k : Nat) (h : Twin n s t) :
    Twin n (iterate p lib k s) (iterate q lib k t) := by
  induction k generalizing s t with
  | zero => exact h
  | succ k ih =>
    have hstep : Twins n (iteration p lib s) (iteration q lib t) := iteration_twin hpq hq h
    rw [iterate, iterate]
    generalize iteration p lib s = x at hstep ⊢
    generalize iteration q lib t = y at hstep ⊢
    cases x <;> cases y
    case go.go => exact ih hstep
    case go.exit => exact hstep.elim
    case exit.go => exact hstep.elim
    case exit.exit e s' e' t' =>
      obtain ⟨rfl, h'⟩ := hstep
      cases e with
      | again r => exact ih h'
      | _ => exact h

theorem recordReader_unchecked (records : List Record) {want : Int} (h0 : 0 ≤ want)
    (rest : List UInt8) (m : Int) : (recordReader records).read want rest ≠ .status m := by
  change (if want < 0 then _ else _) ≠ _
  split_ifs
  · omega
  · rintro ⟨⟩
  · rintro ⟨⟩

/-- `main` of `readnoaaport.c` on a stream that comes in `records`. -/
def readnoaaportOn (records : List Record) : Program where
  reader := recordReader records
  account := rnAccount
  checksExtra := false
  unchecked _ _ rest m h0 := recordReader_unchecked records h0 rest m
  keepsVars := true

/-- What a packet can ask for, at most 65535 bytes or a negative number, both sources answer
alike. -/
theorem pmStart_alike {size : Nat} (hsize : 65536 ≤ size) (records : List Record) :
    (pmStart size false).Alike (readnoaaportOn records) (streamOf records).length := by
  intro want rest hwant hrest
  change Got.Like _ ((recordReader records).read want rest)
  rw [recordReader_read hrest]
  change Got.Like (if want < 0 ∨ (size : Int) < want then _ else _) (if want < 0 then _ else _)
  by_cases hneg : want < 0
  · rw [if_pos (.inl hneg), if_pos hneg]
    trivial
  · rw [if_neg (by omega), if_neg hneg, if_neg (fun h => absurd h.1 (by decide))]
    split_ifs
    · trivial
    · trivial

/-- However the stream is cut into records: the same calls of `process_prod` after any number of
iterations, and the same products inserted. -/
theorem same_calls {size : Nat} (hsize : 65536 ≤ size) (records : List Record) (lib : Library)
    (st : Stats) (hs : s.inp.rest = streamOf records) (k : Nat) :
    (iterate (pmStart size false) lib k s).asm.calls =
        (iterate (readnoaaportOn records) lib k (s.setInp { s.inp with stats := st })).asm.calls ∧
      (iterate (pmStart size false) lib k s).asm.inserts =
        (iterate (readnoaaportOn records) lib k
          (s.setInp { s.inp with stats := st })).asm.inserts := by
  have hstart : Twin (streamOf records).length s (s.setInp { s.inp with stats := st }) :=
    .mk _ (.mk st (le_of_eq (congrArg List.length hs)))
  have hend : Twin (streamOf records).length (iterate (pmStart size false) lib k s)
      (iterate (readnoaaportOn records) lib k (s.setInp { s.inp with stats := st })) :=
    iterate_twin (pmStart_alike hsize records) rfl k hstart
  generalize iterate (pmStart size false) lib k s = x at hend ⊢
  generalize iterate (readnoaaportOn records) lib k _ = y at hend ⊢
  cases hend
  exact ⟨rfl, rfl⟩

def cutPacket : List Record :=
  [⟨singlePacket.take 20, by decide⟩, ⟨singlePacket.drop 20, by decide⟩]

theorem same_calls_run :
    (iterate (pmStart 65536 false) .plain 1 (State.fresh singlePacket .blank)).asm.calls.length = 1 ∧
    (iterate (pmStart 65536 false) .plain 1 (State.fresh singlePacket .blank)).asm.calls =
      (iterate (readnoaaportOn cutPacket) .plain 1 (State.fresh singlePacket .blank)).asm.calls :=
  ⟨by decide +kernel,
    (same_calls (s := State.fresh singlePacket .blank) (Nat.le_refl _) cutPacket .plain _
      (by decide) 1).1⟩

end Runs
end Noaaport
