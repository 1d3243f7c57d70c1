import Noaaport.Online
import Noaaport.ReaderLoop

/-! `noaaportIngester.c`: the reader, the product maker and `main` around one FIFO, from the start to
the shutdown. -/
namespace Noaaport.Ingester
open Lib

inductive Thread where
  | main
  | reader
  | maker
  deriving DecidableEq

/-- The sections of the `fifoRead` calls that the product maker makes. -/
inductive Call where
  | read (n : Nat)
  | readPass
  | wake

def Call.act : Call → Fifo.Act
  | .read n => .read n
  | .readPass => .readPass
  | .wake => .wake

/-- With what `read` has returned and what `fifoRead` has delivered so far. -/
structure Sys where
  loop : ReaderLoop.Sys Thread
  arrived : List UInt8
  taken : List UInt8

inductive Act where
  | reader (a : ReaderLoop.Act Thread)
  | maker (a : Call)
  | cancel
  | close

def received : ReaderLoop.Act Thread → List UInt8
  | .read bs => bs
  | _ => []

/-- The statistics are asked for by the signal handler's thread. `SIGTERM` cancels the reader where it
waits: for room in the FIFO or for input. `main` closes the FIFO when the reader has ended. A reader that
is cancelled in `pthread_cond_wait` keeps the mutex of the FIFO, and nothing comes behind that; here the
other threads go on, which only adds runs. -/
def step (x : Sys) : Act → Option Sys
  | .reader (.other _ _) => none
  | .reader a => (ReaderLoop.step .reader a x.loop).map fun loop => { x with loop, arrived := x.arrived ++ received a }
  | .maker a =>
    (Fifo.step x.loop.fifo .maker a.act).map fun r =>
      { x with loop := { x.loop with fifo := r.2 }, taken := x.taken ++ r.1.delivered }
  | .cancel =>
    match x.loop.pc, x.loop.fifo.pc .reader with
    | .reserved _, _ => some { x with loop := { x.loop with pc := .ended 0 } }
    | .reserving, .reserveWait _ => some { x with loop := { x.loop with pc := .ended 0 } }
    | _, _ => none
  | .close =>
    match x.loop.pc with
    | .ended _ => (Fifo.step x.loop.fifo .main .closeWhenEmpty).map fun r => { x with loop := { x.loop with fifo := r.2 } }
    | _ => none

def Step (x : Sys) (a : Act) (y : Sys) : Prop := step x a = some y

def Sys.init (mem : Mem UInt8) (size maxSize : Nat) : Sys where
  loop :=
    { fifo := Fifo.Sys.init mem size, reader := ⟨0, maxSize⟩, pc := .loop, put := 0, reported := [] }
  arrived := []
  taken := []

/-- What the reader has read and not yet put into the FIFO. -/
def inHand : ReaderLoop.At → List UInt8
  | .storing bs _ | .received _ bs => bs
  | _ => []

section Flow
variable {S : Nat} {x y : Sys} {a : Act} {s s' : Fifo.Sys Thread} {t : Thread} {e : Fifo.Event Thread}

/-- Only a read takes something out of the FIFO. -/
theorem delivered_eq_nil {a : Fifo.Act} (h : Fifo.step s t a = some (e, s')) (hr : a ≠ .readPass) :
    e.delivered = [] := by
  unfold Fifo.step at h
  split at h
  · split_ifs at h <;> cases h <;> rfl
  · split at h <;> cases h <;> rfl
  · split_ifs at h
    cases h
    rfl
  · split_ifs at h
    split at h <;> cases h <;> rfl
  · split_ifs at h
    split at h <;> cases h <;> rfl
  · split_ifs at h <;> cases h <;> rfl
  · exact absurd rfl hr
  · cases h
    rfl
  · cases h
    rfl
  · cases h
    rfl
  · cases h

/-- A section that neither commits nor reads leaves the content. -/
theorem unread_same {a : Fifo.Act} (hi : Fifo.Inv S s) (h : Fifo.step s t a = some (e, s'))
    (hu : ∀ k, a ≠ .update k) (hc : ∀ bs, a ≠ .copy bs) (hr : a ≠ .readPass) :
    s'.fifo.unread = s.fifo.unread := by
  have hbalanced := (Fifo.step_refines e hi ⟨t, a, h⟩).2.balanced
  rw [ReaderLoop.committed_eq_nil h hu hc, delivered_eq_nil h hr, List.append_nil, List.nil_append] at hbalanced
  exact hbalanced.symm

theorem inHand_ofReserve (c : Fifo.Pc) : inHand (.ofReserve c) = [] := by
  cases c <;> rfl

/-- A section of the reader's loop that neither commits nor reads: what is in the FIFO and in hand
stays. -/
theorem call_keeps {l l' : ReaderLoop.Sys Thread} (hi : Fifo.Inv S l.fifo) {b : Fifo.Act}
    {next : Fifo.Event Thread → Fifo.Sys Thread → ReaderLoop.At} (h : l.call .reader b next = some l')
    (hu : ∀ k, b ≠ .update k) (hc : ∀ bs, b ≠ .copy bs) (hr : b ≠ .readPass)
    (hnext : ∀ e fifo, inHand (next e fifo) = inHand l.pc) :
    l'.fifo.fifo.unread ++ inHand l'.pc = l.fifo.fifo.unread ++ inHand l.pc := by
  obtain ⟨r, hr', rfl⟩ := Option.map_eq_some_iff.1 h
  simp only [unread_same hi hr' hu hc hr, hnext]

theorem loop_keeps {l l' : ReaderLoop.Sys Thread} {a : ReaderLoop.Act Thread}
    (hl : ReaderLoop.Linked S .reader l) (h : ReaderLoop.step .reader a l = some l')
    (hother : ∀ u b, a ≠ .other u b) :
    l'.fifo.fifo.unread ++ inHand l'.pc = l.fifo.fifo.unread ++ inHand l.pc ++ received a := by
  cases a with
  | other u b => exact absurd rfl (hother u b)
  | reserve =>
    simp only [received, List.append_nil]
    cases hpc : l.pc <;> simp only [ReaderLoop.step, hpc, reduceCtorEq] at h
    rw [← hpc]
    exact call_keeps hl.fifo h (by simp) (by simp) (by simp) fun _ _ => by rw [inHand_ofReserve, hpc]; rfl
  | reservePass =>
    simp only [received, List.append_nil]
    cases hpc : l.pc <;> simp only [ReaderLoop.step, hpc, reduceCtorEq] at h
    rw [← hpc]
    exact call_keeps hl.fifo h (by simp) (by simp) (by simp) fun _ _ => by rw [inHand_ofReserve, hpc]; rfl
  | wake =>
    simp only [received, List.append_nil]
    cases hpc : l.pc <;> simp only [ReaderLoop.step, hpc, reduceCtorEq] at h
    rw [← hpc]
    exact call_keeps hl.fifo h (by simp) (by simp) (by simp) fun _ _ => by rw [inHand_ofReserve, hpc]; rfl
  | read bs =>
    cases hpc : l.pc <;> simp only [ReaderLoop.step, hpc, reduceCtorEq] at h
    split_ifs at h with hbs hsize
    · cases h
      simp [received, inHand]
    · cases h
      simp [received, inHand]
  | endOfInput =>
    cases hpc : l.pc <;> simp only [ReaderLoop.step, hpc, reduceCtorEq] at h
    cases h
    simp [received, inHand]
  | readFailure =>
    cases hpc : l.pc <;> simp only [ReaderLoop.step, hpc, reduceCtorEq] at h
    cases h
    simp [received, inHand]
  | store =>
    simp only [received, List.append_nil]
    cases hpc : l.pc <;> simp only [ReaderLoop.step, hpc, reduceCtorEq] at h
    split at h
    · rw [← hpc]
      exact call_keeps hl.fifo h (by simp) (by simp) (by simp) fun _ _ => by rw [hpc]; rfl
    · cases h
      rfl
  | commit =>
    cases hpc : l.pc with
    | received internal bs =>
      obtain ⟨l₂, hl₂, hdel, -, -, hpc₂⟩ := ReaderLoop.commit_delivers hl hpc
      cases hl₂.symm.trans h
      rw [hdel.content, hpc₂]
      cases internal <;> simp [received, inHand]
    | _ => simp [ReaderLoop.step, hpc] at h
  | count =>
    cases hpc : l.pc <;> simp only [ReaderLoop.step, hpc, reduceCtorEq] at h
    cases h
    simp [received, inHand]
  | getStatistics =>
    simp only [ReaderLoop.step] at h
    cases h
    simp [received]

/-- Nothing is lost between `read` and `fifoRead`. -/
structure Flowing (S : Nat) (x : Sys) : Prop where
  linked : ReaderLoop.Linked S .reader x.loop
  stream : x.arrived = x.taken ++ x.loop.fifo.fifo.unread ++ inHand x.loop.pc
  main : x.loop.fifo.pc .main = .idle

theorem Flowing.init (mem : Mem UInt8) (hS : 0 < S) (maxSize : Nat) : Flowing S (Sys.init mem S maxSize) where
  linked := ⟨Fifo.Inv.init mem hS, rfl⟩
  stream := rfl
  main := rfl

theorem Woken.idle {c c' : Fifo.Pc} (h : ReaderLoop.Woken c c') (hc : c = .idle) : c' = .idle := by
  subst hc
  cases h <;> rfl

/-- The reader's loop, but for what the other threads do, stays away from `main`. -/
theorem loop_frame {l l' : ReaderLoop.Sys Thread} {a : ReaderLoop.Act Thread}
    (h : ReaderLoop.step .reader a l = some l') (hother : ∀ u b, a ≠ .other u b)
    (hmain : l.fifo.pc .main = .idle) : l'.fifo.pc .main = .idle := by
  have hcall : ∀ {b : Fifo.Act} {next : Fifo.Event Thread → Fifo.Sys Thread → ReaderLoop.At},
      l.call .reader b next = some l' → l'.fifo.pc .main = .idle := by
    intro b next hc
    obtain ⟨r, hr, rfl⟩ := Option.map_eq_some_iff.1 hc
    exact Woken.idle (ReaderLoop.step_other hr (by decide)) hmain
  unfold ReaderLoop.step at h
  split at h
  · exact absurd rfl (hother _ _)
  · exact hcall h
  · exact hcall h
  · exact hcall h
  · split_ifs at h
    · cases h
      exact hmain
    · cases h
      exact hmain
  · cases h
    exact hmain
  · cases h
    exact hmain
  · split at h
    · exact hcall h
    · cases h
      exact hmain
  · exact hcall h
  · exact hcall h
  · cases h
    exact hmain
  · cases h
    exact hmain
  · cases h

theorem Flowing.reader {a : ReaderLoop.Act Thread} {l : ReaderLoop.Sys Thread} (h : Flowing S x)
    (hl : ReaderLoop.step .reader a x.loop = some l) (hother : ∀ u b, a ≠ .other u b) :
    Flowing S { x with loop := l, arrived := x.arrived ++ received a } := by
  refine ⟨h.linked.step hl, ?_, loop_frame hl hother h.main⟩
  have hkeeps := loop_keeps h.linked hl hother
  simp only [h.stream, List.append_assoc] at hkeeps ⊢
  rw [hkeeps]

theorem Flowing.maker {c : Call} {r : Fifo.Event Thread × Fifo.Sys Thread} (h : Flowing S x)
    (hr : Fifo.step x.loop.fifo .maker c.act = some r) :
    Flowing S { x with loop := { x.loop with fifo := r.2 }, taken := x.taken ++ r.1.delivered } := by
  have hstep : ReaderLoop.step .reader (.other .maker c.act) x.loop = some { x.loop with fifo := r.2 } := by
    simp [ReaderLoop.step, hr]
  have hcommitted : r.1.committed = [] :=
    ReaderLoop.committed_eq_nil hr (by cases c <;> simp [Call.act]) (by cases c <;> simp [Call.act])
  have hbalanced : x.loop.fifo.fifo.unread ++ r.1.committed = r.1.delivered ++ r.2.fifo.unread :=
    (Fifo.step_refines r.1 h.linked.fifo ⟨.maker, _, hr⟩).2.balanced
  rw [hcommitted, List.append_nil] at hbalanced
  refine ⟨h.linked.step hstep, ?_, Woken.idle (ReaderLoop.step_other hr (by decide)) h.main⟩
  simp only [h.stream, hbalanced, List.append_assoc]

/-- The reader is cancelled while it has nothing in hand. -/
theorem Flowing.cancelled (h : Flowing S x) (hhand : inHand x.loop.pc = []) :
    Flowing S { x with loop := { x.loop with pc := .ended 0 } } where
  linked := ⟨h.linked.fifo, trivial⟩
  stream := by rw [h.stream, hhand]; rfl
  main := h.main

/-- `main` closes the FIFO. -/
theorem Flowing.closes (h : Flowing S x) :
    ∃ fifo, Fifo.step x.loop.fifo .main .closeWhenEmpty = some (.quiet, fifo) ∧
      fifo.fifo = { x.loop.fifo.fifo with closeIfEmpty := true } ∧
      Flowing S { x with loop := { x.loop with fifo } } := by
  have hclose : ∃ fifo, Fifo.step x.loop.fifo .main .closeWhenEmpty = some (.quiet, fifo) ∧
      fifo.fifo = { x.loop.fifo.fifo with closeIfEmpty := true } ∧ fifo.pc .main = .idle := by
    refine ⟨{ x.loop.fifo with
      fifo := { x.loop.fifo.fifo with closeIfEmpty := true }
      pc := fun u => (x.loop.fifo.pc u).wakeWriter.wakeReader }, ?_, rfl, ?_⟩
    · simp [Fifo.step, h.main]
    · simp [h.main, Fifo.Pc.wakeWriter, Fifo.Pc.wakeReader]
  obtain ⟨fifo, hfifo, hflag, hmain⟩ := hclose
  have hstep : ReaderLoop.step .reader (.other .main .closeWhenEmpty) x.loop = some { x.loop with fifo } := by
    simp [ReaderLoop.step, hfifo]
  refine ⟨fifo, hfifo, hflag, h.linked.step hstep, ?_, hmain⟩
  have hunread : fifo.fifo.unread = x.loop.fifo.fifo.unread := by
    rw [hflag]
    rfl
  rw [hunread]
  exact h.stream

theorem Flowing.step (h : Flowing S x) (hs : Step x a y) : Flowing S y := by
  unfold Step Ingester.step at hs
  split at hs
  · cases hs
  · next a hother =>
    obtain ⟨l, hl, rfl⟩ := Option.map_eq_some_iff.1 hs
    exact h.reader hl fun u b hb => hother u b (by rw [hb])
  · next c =>
    obtain ⟨r, hr, rfl⟩ := Option.map_eq_some_iff.1 hs
    exact h.maker hr
  · split at hs
    · next hpc =>
      cases hs
      exact h.cancelled (by rw [hpc]; rfl)
    · next hpc _ =>
      cases hs
      exact h.cancelled (by rw [hpc]; rfl)
    · cases hs
  · split at hs
    · obtain ⟨r, hr, rfl⟩ := Option.map_eq_some_iff.1 hs
      obtain ⟨fifo, hclose, -, hflow⟩ := h.closes
      cases hclose.symm.trans hr
      exact hflow
    · cases hs

theorem Flowing.run {acts : List Act} (h : Flowing S x) (ht : Trace Step x acts y) : Flowing S y :=
  ht.invariant (fun _ _ _ => Flowing.step) h

/-- What has been delivered stays so. -/
theorem taken_grows {acts : List Act} (ht : Trace Step x acts y) : x.taken <+: y.taken := by
  induction ht with
  | nil x => exact List.prefix_refl _
  | @cons x y z a acts hs _ ih =>
    refine List.IsPrefix.trans ?_ ih
    unfold Step Ingester.step at hs
    split at hs
    · cases hs
    · obtain ⟨l, -, rfl⟩ := Option.map_eq_some_iff.1 hs
      exact List.prefix_refl _
    · obtain ⟨r, -, rfl⟩ := Option.map_eq_some_iff.1 hs
      exact List.prefix_append _ _
    · split at hs <;> cases hs <;> exact List.prefix_refl _
    · split at hs
      · obtain ⟨r, -, rfl⟩ := Option.map_eq_some_iff.1 hs
        exact List.prefix_refl _
      · cases hs

end Flow

section Streams
variable {S maxSize : Nat} {x y : Sys} {acts acts' : List Act} {lib : Library} {s u w : State}
  {es es' : List Event}

/-- In every interleaving the product maker gets the bytes that have arrived, in order and none twice;
what it makes of those it has got is what the loop makes of all that has arrived by then or later, as far
as it has come. -/
theorem ingester_online (hS : 0 < S) (mem : Mem UInt8) (h : Trace Step (Sys.init mem S maxSize) acts x)
    (h' : Trace Step x acts' y) (lib : Library) (hs : s.inp.rest = x.taken)
    (hrun : Trace (Noaaport.Step (pmStart S false) lib) s es u) :
    x.arrived = x.taken ++ x.loop.fifo.fifo.unread ++ inHand x.loop.pc ∧
      ∃ more, (s.feed more).inp.rest = y.arrived ∧
        Trace (Noaaport.Step (pmStart S false) lib) (s.feed more) es (u.feed more) := by
  have hx : Flowing S x := (Flowing.init mem hS maxSize).run h
  have hy : Flowing S y := hx.run h'
  refine ⟨hx.stream, ?_⟩
  obtain ⟨later, hlater⟩ := taken_grows h'
  refine ⟨later ++ (y.loop.fifo.fifo.unread ++ inHand y.loop.pc), ?_, ?_⟩
  · rw [hy.stream, ← hlater]
    simp [State.feed, Input.feed, hs]
  · exact (pmStart_patient S).run_feed hrun _

/-- Two bytes arrive, the product maker takes the first, and the input ends. -/
def twoBytes : List Act :=
  [.reader .reserve, .reader .reservePass, .reader (.read [1, 2]), .reader .store, .reader .store,
    .reader .store, .reader .commit, .reader .count, .maker (.read 1), .maker .readPass, .reader .reserve,
    .reader .reservePass, .reader .endOfInput]

theorem twoBytes_run : ∃ x, Trace Step (Sys.init (fun _ => 0) 8 3) twoBytes x ∧ x.arrived = [1, 2] ∧
    x.taken = [1] ∧ x.loop.fifo.fifo.unread = [2] ∧ x.loop.pc = .ended 0 :=
  ⟨_, .cons rfl <| .cons rfl <| .cons rfl <| .cons rfl <| .cons rfl <| .cons rfl <| .cons rfl <| .cons rfl <|
    .cons rfl <| .cons rfl <| .cons rfl <| .cons rfl <| .cons rfl <| .nil _, rfl, rfl, by decide, rfl⟩

theorem ingester_online_run : ∃ es u more, ((State.fresh [1] .blank).feed more).inp.rest = [1, 2] ∧
    Trace (Noaaport.Step (pmStart 8 false) .plain) ((State.fresh [1] .blank).feed more) es u := by
  obtain ⟨x, h, harrived, htaken, -⟩ := twoBytes_run
  obtain ⟨es, hrun⟩ := iterate_trace (pmStart 8 false) .plain 1 (State.fresh [1] .blank)
  obtain ⟨-, more, hmore, hfed⟩ :=
    ingester_online (by decide) (fun _ => 0) h (.nil x) .plain htaken.symm hrun
  exact ⟨es, _, more, hmore.trans harrived, hfed⟩

/-- When the reader has ended and the FIFO is closed, a product maker that comes to the end of it returns,
and has handed over what the loop hands over on all that has arrived, run until it waits at the end. -/
theorem ingester_hands_over (hS : 0 < S) (mem : Mem UInt8) (h : Trace Step (Sys.init mem S maxSize) acts x)
    {n : Nat} (hpc : x.loop.pc = .ended n) (hs : s.inp.rest = x.taken)
    (hrun : Trace (Noaaport.Step (pmStart S false) lib) s es u)
    (hrest : Trace (Noaaport.Step (pmStart S true) lib) (u.feed x.loop.fifo.fifo.unread) es' w)
    (hend : w.inp.rest = []) :
    (∃ v, iteration (pmStart S true) lib w = .exit .stop v) ∧
      ∃ more es'' w', (s.feed more).inp.rest = x.arrived ∧
        Trace (Noaaport.Step (pmStart S false) lib) (s.feed more) es'' w' ∧ Waits (pmWaiting S) lib w' ∧
        w.asm.calls = w'.asm.calls ∧ w.asm.inserts = w'.asm.inserts := by
  have hx : Flowing S x := (Flowing.init mem hS maxSize).run h
  obtain ⟨es'', w', hw', hwaits, hcalls, hinserts⟩ := close_hands_over hS hrest hend
  refine ⟨⟨_, closed_stop hend⟩, x.loop.fifo.fifo.unread, es ++ es'', w', ?_, ?_, hwaits, hcalls, hinserts⟩
  · rw [hx.stream, hpc]
    simp [State.feed, Input.feed, hs, inHand]
  · exact ((pmStart_patient S).run_feed hrun _).append (waiting_opens hw')

/-- Sections one after the other. -/
theorem steps_trace (h : acts.foldlM step x = some y) : Trace Step x acts y := by
  induction acts generalizing x with
  | nil => exact Option.some.inj h ▸ .nil x
  | cons a acts ih =>
    rw [List.foldlM_cons] at h
    obtain ⟨z, hz, h⟩ := Option.bind_eq_some_iff.1 h
    exact .cons hz (ih h)

/-- A product of one packet arrives, and the input ends before the product maker takes any of it. -/
def onePacket : List Act :=
  [.reader .reserve, .reader .reservePass, .reader (.read singlePacket)] ++ List.replicate 70 (.reader .store) ++
    [.reader .commit, .reader .count, .reader .reserve, .reader .reservePass, .reader .endOfInput]

theorem ingester_hands_over_run : ∃ more es w, ((State.fresh [] .blank).feed more).inp.rest = singlePacket ∧
    Trace (Noaaport.Step (pmStart 256 false) .plain) ((State.fresh [] .blank).feed more) es w ∧
    Waits (pmWaiting 256) .plain w ∧ w.asm.calls.length = 1 := by
  have hacts : (onePacket.foldlM step (Sys.init (fun _ => 0) 256 69)).map
      (fun x => (x.arrived, x.taken, x.loop.fifo.fifo.unread)) = some (singlePacket, [], singlePacket) := by
    decide +kernel
  have hended : ((onePacket.foldlM step (Sys.init (fun _ => 0) 256 69)).map
      fun x => decide (x.loop.pc = .ended 0)) = some true := by
    decide +kernel
  obtain ⟨x, hx, hstreams⟩ := Option.map_eq_some_iff.1 hacts
  rw [hx, Option.map_some, Option.some.injEq, decide_eq_true_eq] at hended
  simp only [Prod.mk.injEq] at hstreams
  obtain ⟨harrived, htaken, hunread⟩ := hstreams
  obtain ⟨es, hrest⟩ := iterate_trace (pmStart 256 true) .plain 1 ((State.fresh [] .blank).feed singlePacket)
  have hone : (iterate (pmStart 256 true) .plain 1 ((State.fresh [] .blank).feed singlePacket)).asm.calls.length =
      1 := by decide +kernel
  have hend : (iterate (pmStart 256 true) .plain 1 ((State.fresh [] .blank).feed singlePacket)).inp.rest = [] := by
    decide +kernel
  rw [← hunread] at hrest hone hend
  obtain ⟨-, more, es'', w, hmore, hw, hwaits, hcalls, -⟩ :=
    ingester_hands_over (by decide) (fun _ => 0) (steps_trace hx) hended htaken.symm (.nil _) hrest hend
  exact ⟨more, es'', w, hmore.trans harrived, hw, hwaits, hcalls ▸ hone⟩

end Streams
end Noaaport.Ingester
