import Noaaport.Fragments
import Noaaport.PacketCounts

/-! The assembly loop on a stream of which more is still to come: what it does does not depend
on the rest. -/
namespace Noaaport
open Lib

/-- More bytes behind those still to come. -/
def Input.feed (more : List UInt8) (i : Input) : Input := { i with rest := i.rest ++ more }

def State.feed (more : List UInt8) (s : State) : State := s.setInp (s.inp.feed more)

@[simp] theorem Input.feed_nil (i : Input) : i.feed [] = i := by simp [Input.feed]

@[simp] theorem State.feed_nil (s : State) : s.feed [] = s := by simp [State.feed, State.setInp]

@[simp] theorem State.feed_feed (s : State) (a b : List UInt8) : (s.feed a).feed b = s.feed (a ++ b) := by
  simp [State.feed, Input.feed, State.setInp]

/-- The run on more bytes does the same, unless the first one is held up. -/
abbrev Goes (held : Exit → Input → Prop) (more : List UInt8) (x y : Flow) : Prop :=
  Lib.Flow.Follows (fun e s => held e s.inp) (State.feed more) x y

/-- Two programs, the second with more bytes, that differ only in where the first is held up. -/
structure Ahead (held : Exit → Input → Prop) (more : List UInt8) (p q : Program) : Prop where
  read : ∀ (i : Input) (off : Nat) (want : Int) (onFail : Exit),
    Lib.Flow.Follows held (Input.feed more) (i.read p off want onFail) ((i.feed more).read q off want onFail)
  account : q.account = p.account
  extra : q.checksExtra = p.checksExtra
  vars : q.keepsVars = p.keepsVars
  failed : ∀ r i, held (.again r) i → p.checksExtra = true

section Front
variable {p q : Program} {lib : Library} {held : Exit → Input → Prop} {more : List UInt8}

theorem Ahead.state_read (h : Ahead held more p q) (s : State) (off : Nat) (want : Int) (onFail : Exit) :
    Goes held more (s.read p off want onFail) ((s.feed more).read q off want onFail) :=
  (h.read s.inp off want onFail).within (fun _ => rfl) fun _ _ he => he

/-- A longer stream gives the search more rounds, which it does not need. -/
theorem syncLoop_feed (h : Ahead held more p q) {fuel fuel' : Nat} (i : Input) (hrest : i.rest.length < fuel)
    (hle : fuel ≤ fuel') :
    Lib.Flow.Follows held (Input.feed more) (syncLoop p fuel i) (syncLoop q fuel' (i.feed more)) := by
  induction fuel generalizing fuel' i with
  | zero => omega
  | succ fuel ih =>
    cases fuel' with
    | zero => omega
    | succ fuel' =>
      refine Flow.follows_ite Iff.rfl (fun _ => .refl _) fun _ => ?_
      refine Flow.follows_ite Iff.rfl (fun _ => .refl _) fun hoff => ?_
      obtain ⟨hone, hend⟩ := scan_le i.buf
      refine Flow.Follows.bind_of (h.read ..) fun j hj => ih j ?_ (by omega)
      obtain ⟨rfl, -, hroom⟩ := (Input.read_ends ..).go hj
      simp only [Input.take_rest, Input.shift_rest, Input.setSbn_rest, Int.toNat_natCast,
        List.length_drop] at hroom ⊢
      omega

theorem sync_feed (h : Ahead held more p q) (i : Input) :
    Lib.Flow.Follows held (Input.feed more) (sync p i) (sync q (i.feed more)) := by
  refine (h.read i 0 1 .stop).bind fun i => ?_
  refine Flow.follows_ite Iff.rfl (fun _ => .refl _) fun _ => ?_
  refine (h.read i 1 15 (.again .shortSbn)).bind fun i => ?_
  refine syncLoop_feed h i (Nat.lt_succ_self _) ?_
  simp [Input.feed]

theorem readExtra_feed (h : Ahead held more p q) (s : State) :
    Goes held more (readExtra p s) (readExtra q (s.feed more)) := by
  refine Flow.follows_ite Iff.rfl (fun _ => ?_) fun _ => .refl _
  have hread := h.state_read s (s.inp.sbn.len + 16) (s.inp.pdh.len - 16 : Nat) (.again .pdhExtra)
  have hsame : (s.feed more).inp.sbn = s.inp.sbn ∧ (s.feed more).inp.pdh = s.inp.pdh := ⟨rfl, rfl⟩
  rw [hsame.1, hsame.2, h.extra]
  obtain ⟨e, t, hx, he⟩ | hy := hread
  · rw [hx]
    refine .inl ⟨e, t, ?_, he⟩
    cases e with
    | again r => exact if_pos (h.failed r t.inp he)
    | _ => rfl
  · rw [hy]
    refine .inr ?_
    cases s.read p (s.inp.sbn.len + 16) (s.inp.pdh.len - 16 : Nat) (.again .pdhExtra) with
    | go t => rfl
    | exit e t =>
      cases e with
      | again r =>
        simp only [Flow.within_exit]
        split_ifs <;> rfl
      | _ => rfl

theorem definition_feed (h : Ahead held more p q) (s : State) :
    Goes held more (definition p s) (definition q (s.feed more)) := by
  unfold definition
  rw [h.account]
  refine (h.state_read s 16 16 (.again .pdhRead)).bind fun s => ?_
  refine Flow.follows_ite Iff.rfl (fun _ => .refl _) fun _ => ?_
  refine Flow.follows_ite Iff.rfl (fun _ => .refl _) fun _ => ?_
  refine (readExtra_feed h _).bind fun s => ?_
  refine Flow.follows_ite Iff.rfl (fun _ => .refl _) fun _ => ?_
  exact Flow.follows_ite Iff.rfl (fun _ => .refl _) fun _ => .refl _

theorem goesHeader_feed (s : State) : Goes held more (goesHeader lib s) (goesHeader lib (s.feed more)) :=
  Flow.follows_ite Iff.rfl (fun _ => .refl _) fun _ => .refl _

theorem nwstgHeader_feed (s : State) : nwstgHeader lib (s.feed more) = (nwstgHeader lib s).feed more := rfl

theorem openProduct_feed (s : State) : Goes held more (openProduct lib s) (openProduct lib (s.feed more)) := by
  have hgoes : Goes held more (if s.v.goes then goesHeader lib s.markImage else .go s.markImage)
      (if s.v.goes then goesHeader lib (s.feed more).markImage else .go (s.feed more).markImage) :=
    Flow.follows_ite Iff.rfl (fun _ => goesHeader_feed s.markImage) fun _ => .refl _
  refine hgoes.bind fun s => .inr ?_
  rw [Flow.within_go, apply_ite (State.feed more), ← nwstgHeader_feed]
  rfl

theorem rerouteChannel4_feed (s : State) :
    (s.feed more).rerouteChannel4 = s.rerouteChannel4.feed more := by
  unfold State.rerouteChannel4
  rw [apply_ite (State.feed more)]
  rfl

theorem headerRecord_feed (h : Ahead held more p q) (s : State) :
    Goes held more (headerRecord p lib s) (headerRecord q lib (s.feed more)) := by
  refine (h.state_read s s.inp.pshOff s.inp.pdh.pshlen (.again .pshRead)).bind fun s => ?_
  refine Flow.follows_ite Iff.rfl (fun _ => .refl _) fun _ => ?_
  refine Flow.follows_ite Iff.rfl (fun _ => .refl _) fun _ => ?_
  have hsame : (s.feed more).decodePsh.asm = s.decodePsh.asm := rfl
  rw [hsame]
  cases s.decodePsh.asm.abandon lib with
  | none => exact .refl _
  | some asm =>
    refine (h.state_read (s.decodePsh.begin lib asm) _ _ (.again .blockRead)).bind fun s => ?_
    rw [rerouteChannel4_feed]
    exact openProduct_feed _

theorem continuationRecord_feed (h : Ahead held more p q) (s : State) :
    Goes held more (continuationRecord p s) (continuationRecord q (s.feed more)) := by
  unfold continuationRecord
  rw [rerouteChannel4_feed]
  refine (h.state_read s.rerouteChannel4.continued _ _ (.again .contRead)).bind fun s => ?_
  exact Flow.follows_ite Iff.rfl (fun _ => .refl _) fun _ => .refl _

theorem front_feed (h : Ahead held more p q) (s : State) :
    Goes held more (front p lib s) (front q lib (s.feed more)) := by
  have hsync : Goes held more ((sync p s.inp).within s.setInp) ((sync q (s.feed more).inp).within (s.feed more).setInp) :=
    (sync_feed h s.inp).within (fun _ => rfl) fun _ _ he => he
  refine (hsync.bind fun s => definition_feed h s).bind fun s => ?_
  exact Flow.follows_ite Iff.rfl (fun _ => headerRecord_feed h s) fun _ => continuationRecord_feed h s

end Front

section Data
variable {p q : Program} {lib : Library} {held : Exit → Input → Prop} {more : List UInt8} {pfrag : Datastore}

theorem goesFirst_feed (s : State) : Goes held more (goesFirst lib s) (goesFirst lib (s.feed more)) := by
  refine Flow.follows_ite Iff.rfl (fun _ => .refl _) fun _ => ?_
  have hsame : (s.feed more).asm = s.asm ∧ (s.feed more).block = s.block := ⟨rfl, rfl⟩
  rw [hsame.1, hsame.2]
  split
  · exact .refl _
  · exact .refl _

theorem goesNext_feed (s : State) : Goes held more (goesNext lib s) (goesNext lib (s.feed more)) := by
  refine Flow.follows_ite Iff.rfl (fun _ => .refl _) fun _ => ?_
  refine Flow.follows_ite Iff.rfl (fun _ => .refl _) fun _ => ?_
  have hsame : (s.feed more).asm = s.asm ∧ (s.feed more).v = s.v ∧ (s.feed more).inp.buf = s.inp.buf ∧
    (s.feed more).inp.pdh = s.inp.pdh := ⟨rfl, rfl, rfl, rfl⟩
  rw [hsame.1, hsame.2.1, hsame.2.2.1, hsame.2.2.2]
  split
  · exact .refl _
  · exact .refl _

theorem goesData_feed (s : State) : Goes held more (goesData lib pfrag s) (goesData lib pfrag (s.feed more)) := by
  refine Flow.Follows.bind ?_ fun s => .refl _
  refine Flow.follows_ite Iff.rfl (fun _ => ?_) fun _ => goesFirst_feed s
  have hsame : (s.feed more).asm = s.asm := rfl
  rw [hsame]
  cases s.asm.prod.frags.getLast? with
  | none => exact .refl _
  | some tail =>
    refine Flow.follows_ite Iff.rfl (fun _ => .refl _) fun _ => ?_
    refine Flow.follows_ite Iff.rfl (fun _ => .refl _) fun _ => ?_
    exact Flow.follows_ite Iff.rfl (fun _ => .refl _) fun _ => goesNext_feed s

theorem nwstgCopy_feed (s : State) : Goes held more (nwstgCopy pfrag s) (nwstgCopy pfrag (s.feed more)) :=
  Flow.follows_ite Iff.rfl (fun _ => .refl _) fun _ => .refl _

theorem nwstgData_feed (s : State) : Goes held more (nwstgData pfrag s) (nwstgData pfrag (s.feed more)) := by
  have hsame : (s.feed more).asm = s.asm := rfl
  unfold nwstgData
  rw [hsame]
  cases s.asm.prod.frags.getLast? with
  | none => exact nwstgCopy_feed s
  | some tail =>
    refine Flow.follows_ite Iff.rfl (fun _ => nwstgCopy_feed s) fun _ => ?_
    refine Flow.follows_ite Iff.rfl (fun _ => .refl _) fun _ => ?_
    exact Flow.follows_ite Iff.rfl (fun _ => .refl _) fun _ => nwstgCopy_feed s

theorem link_feed (s : State) : Goes held more (link pfrag s) (link pfrag (s.feed more)) := by
  have hsame : (s.feed more).asm = s.asm := rfl
  unfold link
  rw [hsame]
  cases s.asm.prod.frags.getLast? with
  | none => exact .refl _
  | some tail => exact Flow.follows_ite Iff.rfl (fun _ => .refl _) fun _ => .refl _

theorem goesEnd_feed (s : State) : Goes held more (goesEnd lib s) (goesEnd lib (s.feed more)) := by
  refine Flow.follows_ite Iff.rfl (fun _ => ?_) fun _ => .refl _
  have hsame : (s.feed more).asm = s.asm := rfl
  rw [hsame]
  split
  · exact .refl _
  · exact .refl _

theorem nwstgEnd_feed (s : State) : nwstgEnd (s.feed more) = (nwstgEnd s).feed more := by
  unfold nwstgEnd
  rw [apply_ite (State.feed more)]
  rfl

theorem finish_feed (s : State) : Goes held more (finish lib pfrag s) (finish lib pfrag (s.feed more)) := by
  refine Flow.follows_ite Iff.rfl (fun _ => ?_) fun _ => .refl _
  have hgoes : Goes held more (if s.v.goes then goesEnd lib s else .go s)
      (if (s.feed more).v.goes then goesEnd lib (s.feed more) else .go (s.feed more)) :=
    Flow.follows_ite Iff.rfl (fun _ => goesEnd_feed s) fun _ => .refl _
  refine hgoes.bind fun s => .inr ?_
  have hend : (if (s.feed more).v.nwstg then nwstgEnd (s.feed more) else s.feed more) =
      (if s.v.nwstg then nwstgEnd s else s).feed more := by
    rw [apply_ite (State.feed more), ← nwstgEnd_feed]
    rfl
  rw [hend]
  rfl

theorem data_feed (s : State) : Goes held more (data lib s) (data lib (s.feed more)) := by
  have hfrag : (s.feed more).newFrag lib = s.newFrag lib := rfl
  unfold data
  rw [hfrag]
  refine Flow.Follows.bind (x := if s.v.goes then _ else _) ?_ fun s => ?_
  · exact Flow.follows_ite Iff.rfl (fun _ => goesData_feed (s.getData lib)) fun _ => nwstgData_feed (s.getData lib)
  · exact (link_feed s).bind fun s => finish_feed s

theorem iteration_feed (lib : Library) (h : Ahead held more p q) (s : State) :
    Goes held more (iteration p lib s) (iteration q lib (s.feed more)) :=
  (front_feed h s).bind fun s => data_feed s

end Data

section Readers
variable {size : Nat} {want : Int} {rest : List UInt8}

/-- A reader that says the same of a longer stream, unless it waits. -/
def Program.Patient (p : Program) : Prop :=
  ∀ want rest more, p.reader.read want rest ≠ .blocked →
    p.reader.read want (rest ++ more) = p.reader.read want rest

theorem pmStart_patient (size : Nat) : (pmStart size false).Patient := by
  intro want rest more h
  by_cases hfit : want < 0 ∨ (size : Int) < want
  · simp [pmStart, fifoReader, hfit]
  · by_cases hle : want ≤ rest.length
    · have hlong : want ≤ rest.length + more.length := by omega
      simp [pmStart, fifoReader, hfit, hle, hlong]
    · simp [pmStart, fifoReader, hfit, hle] at h

theorem readnoaaport_patient : readnoaaport.Patient := by
  intro want rest more h
  by_cases hfit : want < 0
  · simp [readnoaaport, shmBufread, hfit]
  · by_cases hle : want ≤ rest.length
    · have hlong : want ≤ rest.length + more.length := by omega
      simp [readnoaaport, shmBufread, hfit, hle, hlong]
    · simp [readnoaaport, shmBufread, hfit, hle] at h

/-- With more bytes behind it a program goes on as before up to where it waits for them. -/
theorem Program.Patient.ahead {p : Program} (hp : p.Patient) (more : List UInt8) :
    Ahead (fun e _ => e = .blocked) more p p := by
  refine ⟨fun i off want onFail => ?_, rfl, rfl, rfl, fun _ _ h => nomatch h⟩
  by_cases hb : p.reader.read want i.rest = .blocked
  · refine .inl ⟨.blocked, i, ?_, rfl⟩
    rw [Input.read, hb]
  · refine .inr ?_
    have hsame : p.reader.read want (i.feed more).rest = p.reader.read want i.rest :=
      hp want i.rest more hb
    rw [Input.read, Input.read, hsame]
    cases hr : p.reader.read want i.rest with
    | ok =>
      have hle := (p.reader.ok_le want i.rest hr).2
      simp only [Flow.within_go, Input.take, Input.feed, List.take_append_of_le_length hle,
        List.drop_append_of_le_length hle]
    | status n => rfl
    | blocked => exact absurd hr hb

/-- `fifoRead` on a FIFO that is never closed, but for a read of no bytes at the end of the stream: it
waits there, as it fails there once the FIFO is closed. -/
def waitingRead (size : Nat) (want : Int) (rest : List UInt8) : Got :=
  if want < 0 ∨ size < want then .status 1
  else if rest = [] then .blocked
  else if want.toNat ≤ rest.length then .ok
  else .blocked

theorem waitingRead_ok_le (h : waitingRead size want rest = .ok) : 0 ≤ want ∧ want.toNat ≤ rest.length := by
  unfold waitingRead at h
  split_ifs at h
  omega

def waitingReader (size : Nat) : Reader where
  read := waitingRead size
  ok_le _ _ := waitingRead_ok_le

def pmWaiting (size : Nat) : Program where
  reader := waitingReader size
  account := pmAccount
  checksExtra := true
  unchecked h := absurd h (by decide)
  keepsVars := false

theorem closed_read_end {i : Input} (h : i.rest = []) (off : Nat) (want : Int) (onFail : Exit) :
    i.read (pmStart size true) off want onFail = .exit onFail i := by
  have hfails : ∃ n, (pmStart size true).reader.read want i.rest = .status n := by
    by_cases hfit : want < 0 ∨ (size : Int) < want
    · exact ⟨1, by simp [pmStart, fifoReader, hfit]⟩
    · exact ⟨3, by simp [pmStart, fifoReader, hfit, h]⟩
  obtain ⟨n, hn⟩ := hfails
  rw [Input.read, hn]

/-- On a FIFO that is closed the product maker goes on as one that waits at the end of the stream, up
to where a read fails there. -/
theorem closed_ahead (size : Nat) :
    Ahead (fun _ i => i.rest = []) [] (pmStart size true) (pmWaiting size) := by
  refine ⟨fun i off want onFail => ?_, rfl, rfl, rfl, fun _ _ _ => rfl⟩
  by_cases hend : i.rest = []
  · exact .inl ⟨onFail, i, closed_read_end hend off want onFail, hend⟩
  · refine .inr ?_
    have hsame : (pmWaiting size).reader.read want i.rest = (pmStart size true).reader.read want i.rest := by
      simp [pmStart, fifoReader, pmWaiting, waitingReader, waitingRead, hend]
    have hput : Input.feed [] = id := funext Input.feed_nil
    rw [i.feed_nil, Input.read, Input.read, hsame, hput]
    cases (pmStart size true).reader.read want i.rest <;> rfl

/-- And where that one does not wait, it goes on as on the closed FIFO. -/
theorem waiting_ahead (size : Nat) :
    Ahead (fun e _ => e = .blocked) [] (pmWaiting size) (pmStart size true) := by
  refine ⟨fun i off want onFail => ?_, rfl, rfl, rfl, fun _ _ h => by cases h⟩
  by_cases hb : (pmWaiting size).reader.read want i.rest = .blocked
  · refine .inl ⟨.blocked, i, ?_, rfl⟩
    rw [Input.read, hb]
  · refine .inr ?_
    have hput : Input.feed [] = id := funext Input.feed_nil
    have hsame : (pmStart size true).reader.read want i.rest = (pmWaiting size).reader.read want i.rest := by
      by_cases hfit : want < 0 ∨ (size : Int) < want
      · simp [pmStart, fifoReader, pmWaiting, waitingReader, waitingRead, hfit]
      · have hmore : i.rest ≠ [] := by
          intro hend
          simp [pmWaiting, waitingReader, waitingRead, hfit, hend] at hb
        simp [pmStart, fifoReader, pmWaiting, waitingReader, waitingRead, hmore]
    rw [i.feed_nil, Input.read, Input.read, hsame, hput]
    cases (pmWaiting size).reader.read want i.rest <;> rfl

/-- The open FIFO only differs where it lets a read of no bytes through at the end of the stream. -/
theorem open_ahead (size : Nat) :
    Ahead (fun e _ => e = .blocked) [] (pmWaiting size) (pmStart size false) := by
  refine ⟨fun i off want onFail => ?_, rfl, rfl, rfl, fun _ _ h => by cases h⟩
  by_cases hb : (pmWaiting size).reader.read want i.rest = .blocked
  · refine .inl ⟨.blocked, i, ?_, rfl⟩
    rw [Input.read, hb]
  · refine .inr ?_
    have hput : Input.feed [] = id := funext Input.feed_nil
    have hsame : (pmStart size false).reader.read want i.rest = (pmWaiting size).reader.read want i.rest := by
      by_cases hfit : want < 0 ∨ (size : Int) < want
      · simp [pmStart, fifoReader, pmWaiting, waitingReader, waitingRead, hfit]
      · have hmore : i.rest ≠ [] := by
          intro hend
          simp [pmWaiting, waitingReader, waitingRead, hfit, hend] at hb
        simp [pmStart, fifoReader, pmWaiting, waitingReader, waitingRead, hfit, hmore]
    rw [i.feed_nil, Input.read, Input.read, hsame, hput]
    cases (pmWaiting size).reader.read want i.rest <;> rfl

end Readers

section Runs
variable {p q : Program} {lib : Library} {held : Exit → Input → Prop} {more : List UInt8} {s t : State}
  {e : Event} {es : List Event}

/-- The next iteration waits for bytes. -/
def Waits (p : Program) (lib : Library) (s : State) : Prop := ∃ t, iteration p lib s = .exit .blocked t

theorem Ahead.step (h : Ahead held more p q) (hs : Step p lib s e t) :
    Step q lib (s.feed more) e (t.feed more) ∨
      ∃ r u, iteration p lib s = .exit (.again r) u ∧ held (.again r) u.inp ∧ t.inp = u.inp ∧ t.asm = u.asm := by
  obtain ⟨s', hor, ht, hvars⟩ := hs
  obtain ⟨e', u, hx, he⟩ | hy := iteration_feed lib h s
  · right
    obtain ⟨hgo, -⟩ | ⟨r, hexit, -⟩ := hor
    · rw [hgo] at hx
      cases hx
    · rw [hexit] at hx
      cases hx
      exact ⟨r, s', hexit, he, by rw [ht], by rw [ht]⟩
  · left
    refine ⟨s'.feed more, ?_, ?_, fun hk => hvars (h.vars ▸ hk)⟩
    · obtain ⟨hgo, rfl⟩ | ⟨r, hexit, rfl⟩ := hor
      · exact .inl ⟨by rw [hy, hgo]; rfl, rfl⟩
      · exact .inr ⟨r, by rw [hy, hexit]; rfl, rfl⟩
    · rw [ht]
      rfl

theorem trace_calls (h : Trace (Step p lib) s es t) :
    s.asm.calls <+: t.asm.calls ∧ s.asm.inserts <+: t.asm.inserts := by
  induction h with
  | nil s => exact ⟨List.prefix_refl _, List.prefix_refl _⟩
  | cons hs _ ih =>
    refine ⟨List.IsPrefix.trans ?_ ih.1, List.IsPrefix.trans ?_ ih.2⟩
    · cases step_handover hs with
      | none h => exact h.calls ▸ List.prefix_refl _
      | one c _ hc _ => exact hc ▸ List.prefix_append _ _
    · cases step_handover hs with
      | none h => exact h.inserts ▸ List.prefix_refl _
      | one _ _ _ hi =>
        obtain ⟨x, hx, -⟩ := hi
        exact hx ▸ List.prefix_append _ _

theorem Program.Patient.run_feed (hp : p.Patient) (h : Trace (Step p lib) s es t) (more : List UInt8) :
    Trace (Step p lib) (s.feed more) es (t.feed more) := by
  induction h with
  | nil s => exact .nil _
  | cons hs _ ih =>
    refine .cons ?_ ih
    obtain hstep | ⟨r, u, -, hheld, -⟩ := (hp.ahead more).step hs
    · exact hstep
    · cases hheld

/-- A step on the longer stream is one on the shorter, unless this one waits. -/
theorem Program.Patient.step_of_feed (hp : p.Patient) (hs : Step p lib (s.feed more) e t) :
    Waits p lib s ∨ ∃ u, t = u.feed more ∧ Step p lib s e u := by
  obtain ⟨s', hor, ht, hvars⟩ := hs
  obtain ⟨_, u, hx, rfl⟩ | hy := iteration_feed lib (hp.ahead more) s
  · exact .inl ⟨u, hx⟩
  · right
    rw [hy] at hor
    cases hit : iteration p lib s with
    | go u =>
      simp only [hit, Flow.within_go, Flow.go.injEq, reduceCtorEq, false_and, exists_false, or_false] at hor
      obtain ⟨rfl, rfl⟩ := hor
      exact ⟨{ u with v := t.v }, ht, u, .inl ⟨hit, rfl⟩, rfl, hvars⟩
    | exit e' u =>
      simp only [hit, Flow.within_exit, Flow.exit.injEq, reduceCtorEq, false_and, false_or] at hor
      obtain ⟨r, ⟨rfl, rfl⟩, rfl⟩ := hor
      exact ⟨{ u with v := t.v }, ht, u, .inr ⟨r, hit, rfl⟩, rfl, hvars⟩

/-- What the loop does on a stream it does with more bytes behind it, and what it does with more
bytes behind it is what it does on the stream, up to where it waits for them. -/
theorem run_online (hp : p.Patient) (s : State) (more : List UInt8) :
    (∀ es t, Trace (Step p lib) s es t → Trace (Step p lib) (s.feed more) es (t.feed more)) ∧
      ∀ es t, Trace (Step p lib) (s.feed more) es t →
        ∃ es₁ es₂ u, es = es₁ ++ es₂ ∧ Trace (Step p lib) s es₁ u ∧
          (es₂ = [] ∧ t = u.feed more ∨ Waits p lib u) ∧
          u.asm.calls <+: t.asm.calls ∧ u.asm.inserts <+: t.asm.inserts := by
  refine ⟨fun es t h => hp.run_feed h more, fun es t h => ?_⟩
  generalize hfed : s.feed more = s' at h
  induction h generalizing s with
  | nil s' =>
    exact ⟨[], [], s, rfl, .nil s, .inl ⟨rfl, hfed.symm⟩, by simp [← hfed, State.feed], by simp [← hfed, State.feed]⟩
  | @cons s' t' t e es hs hrest ih =>
    subst hfed
    obtain hwait | ⟨u, rfl, hu⟩ := hp.step_of_feed hs
    · obtain ⟨hcalls, hinserts⟩ := trace_calls (.cons hs hrest)
      exact ⟨[], e :: es, s, rfl, .nil s, .inr hwait, hcalls, hinserts⟩
    · obtain ⟨es₁, es₂, w, rfl, hw, hrest⟩ := ih u rfl
      exact ⟨e :: es₁, es₂, w, rfl, .cons hu hw, hrest⟩

/-- A product of one packet, and one byte of the next packet. -/
theorem run_online_run : ∃ es t es₁ es₂ u, t.asm.calls.length = 1 ∧
    Trace (Step (pmStart 65536 false) .plain) ((State.fresh singlePacket .blank).feed [255]) es t ∧
    es = es₁ ++ es₂ ∧ Trace (Step (pmStart 65536 false) .plain) (State.fresh singlePacket .blank) es₁ u ∧
    (es₂ = [] ∧ t = u.feed [255] ∨ Waits (pmStart 65536 false) .plain u) ∧ u.asm.calls <+: t.asm.calls := by
  obtain ⟨es, h⟩ := iterate_trace (pmStart 65536 false) .plain 1 (State.fresh singlePacket .blank)
  have hone : (iterate (pmStart 65536 false) .plain 1 (State.fresh singlePacket .blank)).asm.calls.length = 1 := by
    decide +kernel
  obtain ⟨hforth, hback⟩ := run_online (pmStart_patient 65536) (State.fresh singlePacket .blank) [255]
  have hlong := hforth es _ h
  obtain ⟨es₁, es₂, u, hes, hu, hor, hcalls, -⟩ := hback es _ hlong
  exact ⟨es, State.feed [255] _, es₁, es₂, u, hone, hlong, hes, hu, hor, hcalls⟩

/-- At the end of a closed stream the loop is over. -/
theorem closed_stop {size : Nat} (h : s.inp.rest = []) :
    iteration (pmStart size true) lib s = .exit .stop (s.setInp s.inp) := by
  rw [iteration, front, sync, closed_read_end h]
  rfl

theorem closed_stops {size : Nat} (h : s.inp.rest = []) : ¬ Step (pmStart size true) lib s e t := by
  intro hs
  obtain ⟨s', hor, -⟩ := hs
  rw [closed_stop h] at hor
  simp at hor

/-- A loop that waits does not go on. -/
theorem Waits.not_step (h : Waits p lib s) : ¬ Step p lib s e t := by
  intro hs
  obtain ⟨s', hor, -⟩ := hs
  obtain ⟨u, hu⟩ := h
  simp [hu] at hor

theorem waiting_at_end {size : Nat} (hS : 0 < size) (h : s.inp.rest = []) : Waits (pmWaiting size) lib s := by
  refine ⟨s.setInp s.inp, ?_⟩
  have hread : s.inp.read (pmWaiting size) 0 1 .stop = .exit .blocked s.inp := by
    have hfit : ¬ (size : Int) < 1 := by omega
    simp [Input.read, pmWaiting, waitingReader, waitingRead, h, hfit]
  rw [iteration, front, sync, hread]
  rfl

/-- Closing the FIFO neither adds nor takes away: at the end of the closed stream the calls of
`process_prod` are those of a run that goes on until it waits at the end. -/
theorem close_hands_over {size : Nat} (hS : 0 < size) (h : Trace (Step (pmStart size true) lib) s es t)
    (hend : t.inp.rest = []) :
    ∃ es' u, Trace (Step (pmWaiting size) lib) s es' u ∧ Waits (pmWaiting size) lib u ∧
      t.asm.calls = u.asm.calls ∧ t.asm.inserts = u.asm.inserts := by
  induction h with
  | nil s => exact ⟨[], s, .nil s, waiting_at_end hS hend, rfl, rfl⟩
  | @cons s s' t e es hs hrest ih =>
    have hsame := iteration_feed lib (waiting_ahead size) s
    rw [State.feed_nil] at hsame
    obtain ⟨_, v, hwait, rfl⟩ | hsame := hsame
    · -- the step fails at the end of the stream, and it is the last one
      obtain hstep | ⟨r, u, hexit, hdone, hinp, hasm⟩ := (closed_ahead size).step hs
      · rw [State.feed_nil, State.feed_nil] at hstep
        exact absurd hstep (Waits.not_step ⟨v, hwait⟩)
      · have hquiet := (iteration_handover (pmStart size true) lib s).exit hexit
        cases hrest with
        | nil =>
          refine ⟨[], s, .nil s, ⟨v, hwait⟩, ?_, ?_⟩
          · rw [hasm]
            exact hquiet.calls
          · rw [hasm]
            exact hquiet.inserts
        | cons hs' _ => exact absurd hs' (closed_stops (hinp ▸ hdone))
    · obtain ⟨es', u, hu, hwaits, hcalls, hinserts⟩ := ih hend
      have hput : State.feed [] = id := funext State.feed_nil
      have hit : iteration (pmStart size true) lib s = iteration (pmWaiting size) lib s := by
        rw [hsame, hput]
        cases iteration (pmWaiting size) lib s <;> rfl
      have hstep : Step (pmWaiting size) lib s e s' := by
        obtain ⟨s₁, hor, hkept⟩ := hs
        rw [hit] at hor
        exact ⟨s₁, hor, hkept⟩
      exact ⟨e :: es', u, .cons hstep hu, hwaits, hcalls, hinserts⟩

/-- A run that waits at the end of the stream is one of the open FIFO. -/
theorem waiting_opens {size : Nat} (h : Trace (Step (pmWaiting size) lib) s es t) :
    Trace (Step (pmStart size false) lib) s es t := by
  refine h.mono fun s e t hs => ?_
  obtain hstep | ⟨r, u, -, hheld, -⟩ := (open_ahead size).step hs
  · rwa [State.feed_nil, State.feed_nil] at hstep
  · cases hheld

end Runs
end Noaaport
