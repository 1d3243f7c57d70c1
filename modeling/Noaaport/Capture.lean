import Noaaport.DvbsMulticast
import Noaaport.NwstgRuns
import Noaaport.Online

/-! `dvbs_multicast` and `readnoaaport -m`: the one puts the datagrams of a multicast group into a
shared-memory FIFO, the other takes them out and makes products of them. -/
namespace Noaaport.Capture
open Lib Shmfifo

/-- `shmfifo_shm_from_key`: the sizes are those of the segment. -/
def shmFromKey (seg : Segment) : Shmhandle where
  privsz := seg.p.privsz
  sz := seg.p.sz

/-- The FIFO, `dvbs_multicast`, which is about to put `pending` bytes of its `msg`, and
`readnoaaport`: its handle once it has attached, its loop, and whether `shmfifo_get` has not failed.
While an iteration waits for bytes, `loop` is its start, with the bytes it has taken. -/
structure Sys where
  fifo : Shmfifo.Sys
  waking : DvbsMulticast.Waking
  parent : DvbsMulticast.Parent
  pending : Option Nat
  reader : Option Shmhandle
  loop : State
  alive : Bool

/-- The same FIFO and parent with a child of `dvbs_multicast`. -/
def Sys.relay (s : Sys) (child : DvbsMulticast.Child) : DvbsMulticast.Sys where
  fifo := s.fifo
  waking := s.waking
  parent := s.parent
  pending := s.pending
  child := child
  ready := true
  alive := s.alive

inductive Act where
  | recv (data : List UInt8)
  | put
  | putWake
  | putRetry
  | attach
  | get
  | getWake
  | getRetry
  | work (e : Noaaport.Event)

def Act.ofParent : Act → Option DvbsMulticast.Act
  | .recv data => some (.recv data)
  | .put => some .put
  | .putWake => some .putWake
  | .putRetry => some .putRetry
  | _ => none

def Act.received : Act → List (List UInt8)
  | .recv data => [data]
  | _ => []

def received (acts : List Act) : List (List UInt8) := acts.flatMap Act.received

/-- How the loop's iterations ended. -/
def Act.worked : Act → List Noaaport.Event
  | .work e => [e]
  | _ => []

def worked (acts : List Act) : List Noaaport.Event := acts.flatMap Act.worked

/-- Behind a pass of `shmfifo_get`: a record is in `msgbuf`, it waits, or it has failed. -/
def Sys.afterGet (s : Sys) : Option (Shmfifo.Event × Shmfifo.Sys) → Sys
  | none => { s with alive := false }
  | some (.get data, fifo) =>
    { s with fifo, waking := s.waking.heard (.get data), loop := s.loop.feed data }
  | some (_, fifo) => { s with fifo, alive := fifo.getting.isSome }

/-- A reader that waits takes its notification, or has taken it. -/
def Sys.getWoken (s : Sys) : Sys :=
  { s with waking := { s.waking with siReader := false, getWoken := true } }
def Sys.getLocks (s : Sys) : Sys := { s with waking := { s.waking with getWoken := false } }

/-- A locked section of the FIFO, an attachment to it, or an iteration of the loop on bytes that it
has. The parent does what it does beside a child. -/
inductive Step (shm : Shmhandle) (lib : Library) : Sys → Act → Sys → Prop where
  | parent {s : Sys} {a : Act} {b : DvbsMulticast.Act} {child : DvbsMulticast.Child} {t : DvbsMulticast.Sys} :
      a.ofParent = some b → DvbsMulticast.Step shm false (s.relay child) b t →
      Step shm lib s a
        { s with fifo := t.fifo, waking := t.waking, parent := t.parent, pending := t.pending }
  | attach {s : Sys} : s.reader = none →
      Step shm lib s .attach { s with reader := some (shmFromKey s.fifo.seg) }
  | get {s : Sys} {h : Shmhandle} : s.reader = some h → s.alive = true → s.fifo.getting = none →
      Waits readnoaaport lib s.loop →
      Step shm lib s .get (s.afterGet (Shmfifo.step h s.fifo (.get DvbsMulticast.maxMsg)))
  | getWake {s : Sys} : s.alive = true → s.fifo.getting.isSome → s.waking.getWoken = false →
      s.waking.siReader = true → Step shm lib s .getWake s.getWoken
  | getRetry {s : Sys} {h : Shmhandle} : s.reader = some h → s.alive = true → s.fifo.getting.isSome →
      s.waking.getWoken = true →
      Step shm lib s .getRetry (s.getLocks.afterGet (Shmfifo.step h s.fifo .getRetry))
  | work {s : Sys} {e : Noaaport.Event} {r : State} : s.reader ≠ none → s.alive = true → s.fifo.getting = none →
      Noaaport.Step readnoaaport lib s.loop e r → Step shm lib s (.work e) { s with loop := r }

/-- The segment as created; `readnoaaport` starts with `r`. -/
def Sys.init (shm : Shmhandle) (mem : Mem UInt8) (counter : Int) (msg : Buffer) (r : State) : Sys where
  fifo := Shmfifo.Sys.init shm mem counter
  waking := { siWriter := false, siReader := false, putWoken := false, getWoken := false }
  parent := { msg, lastnum := 0, notes := [] }
  pending := none
  reader := none
  loop := r
  alive := true

/-- What the parent has received and not put. -/
def Sys.held (s : Sys) : List (List UInt8) :=
  s.pending.toList.map (load s.parent.msg 0) ++ s.fifo.putting.toList

section Waiting
variable {lib : Library} {r t : State} {e : Noaaport.Event}

/-- At the end of what has arrived it waits. -/
theorem waits_of_rest_nil (h : r.inp.rest = []) : Waits readnoaaport lib r := by
  refine ⟨r.setInp r.inp, ?_⟩
  have hread : r.inp.read readnoaaport 0 1 .stop = .exit .blocked r.inp := by
    simp [Input.read, readnoaaport, shmBufread, h]
  rw [iteration, front, sync, hread]
  rfl

end Waiting

section Parents
variable {shm : Shmhandle} {u t : DvbsMulticast.Sys} {a : Act} {b : DvbsMulticast.Act}

theorem afterPut_getting (f : Shmfifo.Sys) (data : List UInt8) (pass : PutPass) :
    (afterPut f data pass).2.getting = f.getting := by
  cases pass <;> rfl

/-- The parent's steps do not see the child, and leave it and the reader of the FIFO as they are. -/
theorem parent_step (ha : a.ofParent = some b) (h : DvbsMulticast.Step shm false u b t)
    (c : DvbsMulticast.Child) : DvbsMulticast.Step shm false { u with child := c } b { t with child := c } ∧
      t.fifo.getting = u.fifo.getting ∧ t.ready = u.ready ∧ t.alive = u.alive := by
  cases a with
  | recv data =>
    cases ha
    simp only [DvbsMulticast.Step, DvbsMulticast.step] at h ⊢
    split_ifs at h with hg
    cases h
    exact ⟨if_pos hg, rfl, rfl, rfl⟩
  | put =>
    cases ha
    simp only [DvbsMulticast.Step, DvbsMulticast.step] at h ⊢
    cases hp : u.pending with
    | none => simp [hp] at h
    | some n =>
      simp only [hp, Option.map_eq_some_iff] at h ⊢
      obtain ⟨x, hx, rfl⟩ := h
      refine ⟨⟨x, hx, rfl⟩, ?_, rfl, rfl⟩
      simp only [Shmfifo.step] at hx
      split_ifs at hx
      cases hx
      exact afterPut_getting ..
  | putWake =>
    cases ha
    simp only [DvbsMulticast.Step, DvbsMulticast.step] at h ⊢
    split_ifs at h with hg
    cases h
    exact ⟨if_pos hg, rfl, rfl, rfl⟩
  | putRetry =>
    cases ha
    simp only [DvbsMulticast.Step, DvbsMulticast.step] at h ⊢
    split_ifs at h with hg
    obtain ⟨x, hx, rfl⟩ := Option.map_eq_some_iff.1 h
    refine ⟨?_, ?_, rfl, rfl⟩
    · rw [if_pos hg]
      exact Option.map_eq_some_iff.2 ⟨x, hx, rfl⟩
    · simp only [Shmfifo.step] at hx
      split at hx
      · cases hx
        exact afterPut_getting ..
      · cases hx
  | _ => cases ha

end Parents

section Capturing
variable {shm : Shmhandle} {lib : Library} {l c : Nat} {s₀ : Segment} {p : DvbsMulticast.Parent} {r : State}
  {rs ds q : List (List UInt8)} {es : List Noaaport.Event} {s t : Sys} {a : Act} {acts : List Act} {w : State}

/-- A child that would have taken the same records. -/
def child (ds : List (List UInt8)) : DvbsMulticast.Child :=
  DvbsMulticast.taken false ⟨fun _ => 0, 0, [], [], []⟩ ds

/-- After `rs` was received, `ds` taken out and `es` done with it, with the records of `q` in the
segment. -/
structure Captures (shm : Shmhandle) (lib : Library) (l c : Nat) (s₀ : Segment) (p : DvbsMulticast.Parent)
    (r : State) (rs ds q : List (List UInt8)) (es : List Noaaport.Event) (s : Sys) : Prop where
  relays : DvbsMulticast.Relays shm false l c s₀ p (child []) rs ds q (s.relay (child ds))
  made : shmFromKey s₀ = shm
  reader : ∀ h, s.reader = some h → h = shm
  loop : Trace (Noaaport.Step readnoaaport lib) (r.feed ds.flatten) es s.loop
  waits : s.fifo.getting.isSome → Waits readnoaaport lib s.loop

theorem Captures.start (mem : Mem UInt8) (counter : Int) (msg : Buffer) (hlow : shm.low = l)
    (hlc : shm.sz = l + c) (hc : 0 < c) :
    Captures shm lib l c (Sys.init shm mem counter msg r).fifo.seg ⟨msg, 0, []⟩ r [] [] [] []
      (Sys.init shm mem counter msg r) where
  relays :=
    have h := @DvbsMulticast.Relays.start shm false l c mem counter msg (fun _ => 0) hlow hlc hc
    ⟨h.fifo, h.kept, h.parent, rfl, h.small, h.pending, h.getting, h.alive, h.roused⟩
  made := rfl
  reader := by simp [Sys.init]
  loop := by simpa [Sys.init] using Trace.nil r
  waits := by simp [Sys.init, Shmfifo.Sys.init]

theorem Captures.parent {b : DvbsMulticast.Act} {ch : DvbsMulticast.Child} {u : DvbsMulticast.Sys}
    (h : Captures shm lib l c s₀ p r rs ds q es s) (hc : 10008 < c) (ha : a.ofParent = some b)
    (hs : DvbsMulticast.Step shm false (s.relay ch) b u) :
    ∃ q', Captures shm lib l c s₀ p r (rs ++ a.received) ds q' es
      { s with fifo := u.fifo, waking := u.waking, parent := u.parent, pending := u.pending } := by
  obtain ⟨hstep, hgetting, -⟩ := parent_step ha hs (child ds)
  have hrelays : ∃ q', DvbsMulticast.Relays shm false l c s₀ p (child []) (rs ++ a.received) ds q'
      { u with child := child ds } := by
    cases a with
    | recv data =>
      cases ha
      exact ⟨q, h.relays.recv_next hstep⟩
    | put =>
      cases ha
      simpa [Act.received] using h.relays.put_next hc hstep
    | putWake =>
      cases ha
      exact ⟨q, by simpa [Act.received] using h.relays.putWake_next hstep⟩
    | putRetry =>
      cases ha
      simpa [Act.received] using h.relays.putRetry_next hstep
    | _ => cases ha
  obtain ⟨q', g⟩ := hrelays
  have hsame : u.fifo.getting = s.fifo.getting := hgetting
  refine ⟨q', ⟨?_, h.made, h.reader, h.loop, fun hw => h.waits (hsame ▸ hw)⟩⟩
  exact ⟨g.fifo, g.kept, g.parent, rfl, g.small, g.pending, g.getting, h.relays.alive, g.roused⟩

/-- The state in which a pass of `shmfifo_get` begins. -/
def Sys.withWaking (s : Sys) (waking : DvbsMulticast.Waking) : Sys := { s with waking }

/-- A pass of `shmfifo_get` over an empty segment waits. -/
theorem Captures.getWait (h : Captures shm lib l c s₀ p r rs ds [] es s) (hw : Waits readnoaaport lib s.loop)
    {k : DvbsMulticast.Waking} (hk : k.siWriter = s.waking.siWriter ∧ k.putWoken = s.waking.putWoken) :
    Captures shm lib l c s₀ p r rs ds [] es ((s.withWaking k).afterGet
      (Shmfifo.afterGet s.fifo DvbsMulticast.maxMsg (shmfifoGet shm s.fifo.seg DvbsMulticast.maxMsg))) := by
  have hget := get_empty h.relays.fifo.queued DvbsMulticast.maxMsg
  have g := h.relays.getWait (w := k) hk
  simp only [Sys.relay] at hget g
  simp only [hget, Shmfifo.afterGet] at g ⊢
  exact ⟨⟨g.fifo, g.kept, g.parent, rfl, g.small, g.pending, g.getting, rfl, g.roused⟩, h.made, h.reader, h.loop,
    fun _ => hw⟩

/-- One over a segment with records takes the first. -/
theorem Captures.getTake {d : List UInt8} (h : Captures shm lib l c s₀ p r rs ds (d :: q) es s)
    (hsz : shm.sz < 2 ^ 31) (k : DvbsMulticast.Waking) :
    ∃ t, (s.withWaking k).afterGet (Shmfifo.afterGet s.fifo DvbsMulticast.maxMsg
        (shmfifoGet shm s.fifo.seg DvbsMulticast.maxMsg)) = t ∧
      Captures shm lib l c s₀ p r rs (ds ++ [d]) q es t ∧ t.loop = s.loop.feed d ∧ t.held = s.held ∧
      t.reader = s.reader := by
  have hd : d ∈ rs := by
    rw [h.relays.kept]
    simp
  have hlen : (d.length : Int) ≤ DvbsMulticast.maxMsg := by exact_mod_cast (h.relays.small d hd).2
  obtain ⟨seg, hget, -⟩ := get_head h.relays.fifo.queued hsz hlen
  have g := h.relays.getTake hsz k
  simp only [Sys.relay] at hget g
  simp only [hget, Shmfifo.afterGet] at g ⊢
  refine ⟨_, rfl, ⟨?_, h.made, h.reader, ?_, ?_⟩, rfl, rfl, rfl⟩
  · exact ⟨g.fifo, g.kept, g.parent, rfl, g.small, g.pending, g.getting, g.alive, g.roused⟩
  · have hrun := readnoaaport_patient.run_feed h.loop d
    simpa [Sys.afterGet, Sys.withWaking] using hrun
  · simp [Sys.afterGet]

theorem Captures.getPass (h : Captures shm lib l c s₀ p r rs ds q es s) (hsz : shm.sz < 2 ^ 31)
    (hw : Waits readnoaaport lib s.loop) {k : DvbsMulticast.Waking}
    (hk : k.siWriter = s.waking.siWriter ∧ k.putWoken = s.waking.putWoken) :
    ∃ ds' q', Captures shm lib l c s₀ p r rs ds' q' es ((s.withWaking k).afterGet
      (Shmfifo.afterGet s.fifo DvbsMulticast.maxMsg (shmfifoGet shm s.fifo.seg DvbsMulticast.maxMsg))) := by
  cases q with
  | nil => exact ⟨ds, [], h.getWait hw hk⟩
  | cons d q =>
    obtain ⟨t, ht, htake, -⟩ := h.getTake hsz k
    exact ⟨ds ++ [d], q, ht ▸ htake⟩

theorem Captures.step_get (h : Captures shm lib l c s₀ p r rs ds q es s) {k : Shmhandle}
    (hk : s.reader = some k) (hg : s.fifo.getting = none) :
    Shmfifo.step k s.fifo (.get DvbsMulticast.maxMsg) =
      Shmfifo.afterGet s.fifo DvbsMulticast.maxMsg (shmfifoGet shm s.fifo.seg DvbsMulticast.maxMsg) := by
  rw [h.reader k hk]
  exact @DvbsMulticast.step_get shm (s.relay (child ds)) hg

theorem Captures.step_getRetry (h : Captures shm lib l c s₀ p r rs ds q es s) {k : Shmhandle}
    (hk : s.reader = some k) (hg : s.fifo.getting.isSome) :
    Shmfifo.step k s.fifo .getRetry =
      Shmfifo.afterGet s.fifo DvbsMulticast.maxMsg (shmfifoGet shm s.fifo.seg DvbsMulticast.maxMsg) := by
  obtain ⟨sz, hsz⟩ := Option.isSome_iff_exists.1 hg
  have hmax := h.relays.getting sz hsz
  rw [h.reader k hk]
  exact @DvbsMulticast.step_getRetry shm (s.relay (child ds)) (hsz.trans (by rw [hmax]))

/-- `readnoaaport` finds the sizes that `dvbs_multicast` has created the segment with. -/
theorem Captures.key (h : Captures shm lib l c s₀ p r rs ds q es s) : shmFromKey s.fifo.seg = shm :=
  (congrArg₂ Shmhandle.mk h.relays.fifo.kept.privsz h.relays.fifo.kept.sz).trans h.made

theorem Captures.attach (h : Captures shm lib l c s₀ p r rs ds q es s) :
    Captures shm lib l c s₀ p r rs ds q es { s with reader := some (shmFromKey s.fifo.seg) } :=
  ⟨h.relays, h.made, fun _ hk => (Option.some.inj hk).symm.trans h.key, h.loop, h.waits⟩

theorem Captures.wake (h : Captures shm lib l c s₀ p r rs ds q es s) (halive : s.alive = true)
    (hg : s.fifo.getting.isSome) (hasleep : s.waking.getWoken = false) (hsem : s.waking.siReader = true) :
    Captures shm lib l c s₀ p r rs ds q es s.getWoken := by
  have hstep : DvbsMulticast.Step shm false (s.relay (child ds)) .getWake (s.relay (child ds)).getWoken :=
    if_pos ⟨halive, hg, hasleep, hsem⟩
  exact ⟨h.relays.getWake_next hstep, h.made, h.reader, h.loop, h.waits⟩

theorem Captures.next (h : Captures shm lib l c s₀ p r rs ds q es s) (hc : 10008 < c) (hsz : shm.sz < 2 ^ 31)
    (hs : Step shm lib s a t) :
    ∃ ds' q', Captures shm lib l c s₀ p r (rs ++ a.received) ds' q' (es ++ a.worked) t := by
  cases hs with
  | @parent a b ch u ha hu =>
    have hnone : a.worked = [] := by cases a <;> cases ha <;> rfl
    obtain ⟨q', h'⟩ := h.parent hc ha hu
    exact ⟨ds, q', by simpa [hnone] using h'⟩
  | attach hnone => exact ⟨ds, q, by simpa [Act.received, Act.worked] using h.attach⟩
  | get hk halive hg hw =>
    obtain ⟨ds', q', h'⟩ := h.getPass hsz hw (k := s.waking) ⟨rfl, rfl⟩
    rw [h.step_get hk hg]
    exact ⟨ds', q', by simpa [Act.received, Act.worked, Sys.withWaking] using h'⟩
  | getWake halive hg hasleep hsem =>
    refine ⟨ds, q, ?_⟩
    simpa [Act.received, Act.worked] using h.wake halive hg hasleep hsem
  | getRetry hk halive hg hwoken =>
    obtain ⟨ds', q', h'⟩ := h.getPass hsz (h.waits hg) (k := s.getLocks.waking) ⟨rfl, rfl⟩
    rw [h.step_getRetry hk hg]
    exact ⟨ds', q', by simpa [Act.received, Act.worked, Sys.withWaking, Sys.getLocks] using h'⟩
  | work hr halive hg hstep =>
    refine ⟨ds, q, ?_⟩
    simp only [Act.received, Act.worked, List.append_nil]
    exact ⟨h.relays, h.made, h.reader, h.loop.append (.cons hstep (.nil _)), by simp [hg]⟩

theorem Captures.run (hc : 10008 < c) (hsz : shm.sz < 2 ^ 31) (hrun : Trace (Step shm lib) s acts t)
    (h : Captures shm lib l c s₀ p r rs ds q es s) :
    ∃ ds' q', Captures shm lib l c s₀ p r (rs ++ received acts) ds' q' (es ++ worked acts) t := by
  induction hrun generalizing rs ds q es with
  | nil => exact ⟨ds, q, by simpa [received, worked] using h⟩
  | cons hs _ ih =>
    obtain ⟨ds', q', h'⟩ := h.next hc hsz hs
    obtain ⟨ds'', q'', h''⟩ := ih h'
    exact ⟨ds'', q'', by simpa [received, worked, List.append_assoc] using h''⟩

/-- With a record in the segment `readnoaaport` takes it where its loop waits. -/
theorem Captures.takes {d : List UInt8} (h : Captures shm lib l c s₀ p r rs ds (d :: q) es s)
    (hsz : shm.sz < 2 ^ 31) (hr : s.reader = some shm) (hw : Waits readnoaaport lib s.loop) :
    ∃ as t, received as = [] ∧ Trace (Step shm lib) s as t ∧ Captures shm lib l c s₀ p r rs (ds ++ [d]) q es t ∧
      t.loop = s.loop.feed d ∧ t.held = s.held ∧ t.reader = some shm := by
  cases hg : s.fifo.getting with
  | none =>
    obtain ⟨t, ht, htake, hloop, hheld, hreader⟩ := h.getTake hsz s.waking
    have hstep : Step shm lib s .get t := by
      rw [← ht, ← h.step_get hr hg]
      exact .get hr h.relays.alive hg hw
    exact ⟨[.get], t, rfl, .cons hstep (.nil _), htake, hloop, hheld, hreader.trans hr⟩
  | some sz =>
    have hretry {u : Sys} (hu : Captures shm lib l c s₀ p r rs ds (d :: q) es u) (hru : u.reader = some shm)
        (hsome : u.fifo.getting.isSome) (hwoken : u.waking.getWoken = true) :
        ∃ t, Step shm lib u .getRetry t ∧ Captures shm lib l c s₀ p r rs (ds ++ [d]) q es t ∧
          t.loop = u.loop.feed d ∧ t.held = u.held ∧ t.reader = some shm := by
      obtain ⟨t, ht, htake, hloop, hheld, hreader⟩ := hu.getTake hsz u.getLocks.waking
      refine ⟨t, ?_, htake, hloop, hheld, hreader.trans hru⟩
      rw [← ht, ← hu.step_getRetry hru hsome]
      exact .getRetry hru hu.relays.alive hsome hwoken
    have hsome : s.fifo.getting.isSome := by simp [hg]
    cases hwoken : s.waking.getWoken with
    | true =>
      obtain ⟨t, ht, htake⟩ := hretry h hr hsome hwoken
      exact ⟨[.getRetry], t, rfl, .cons ht (.nil _), htake⟩
    | false =>
      have hsem : s.waking.siReader = true := by
        rcases h.relays.roused.reader hsome with hnil | hsem | hdone
        · cases hnil
        · exact hsem
        · exact absurd (hwoken.symm.trans hdone) (by decide)
      obtain ⟨t, ht, htake⟩ := hretry (h.wake h.relays.alive hsome hwoken hsem) hr hsome rfl
      exact ⟨[.getWake, .getRetry], t, rfl, .cons (.getWake h.relays.alive hsome hwoken hsem) (.cons ht (.nil _)),
        htake⟩

/-- What the parent does for itself, it does here. -/
theorem Captures.parents (lib : Library) {bs : List DvbsMulticast.Act} {u : DvbsMulticast.Sys}
    (hbs : ∀ b ∈ bs, b = .put ∨ b = .putWake ∨ b = .putRetry)
    (hu : Trace (DvbsMulticast.Step shm false) (s.relay (child ds)) bs u) :
    ∃ as, received as = [] ∧ Trace (Step shm lib) s as
        { s with fifo := u.fifo, waking := u.waking, parent := u.parent, pending := u.pending } ∧
      u = Sys.relay { s with fifo := u.fifo, waking := u.waking, parent := u.parent, pending := u.pending } (child ds) ∧
      u.fifo.getting = s.fifo.getting := by
  generalize hs : s.relay (child ds) = v at hu
  induction hu generalizing s with
  | nil =>
    subst hs
    exact ⟨[], rfl, .nil _, rfl, rfl⟩
  | @cons _ v _ b bs hstep _ ih =>
    subst hs
    have hparent : ∃ a : Act, a.ofParent = some b ∧ a.received = [] := by
      rcases hbs b List.mem_cons_self with rfl | rfl | rfl
      · exact ⟨.put, rfl, rfl⟩
      · exact ⟨.putWake, rfl, rfl⟩
      · exact ⟨.putRetry, rfl, rfl⟩
    obtain ⟨a, ha, hrec⟩ := hparent
    obtain ⟨hsame, hgetting, hready, halive⟩ := parent_step ha hstep (child ds)
    have hchild : v = { v with child := child ds } := Option.some.inj (hstep.symm.trans hsame)
    have hv : v = Sys.relay { s with fifo := v.fifo, waking := v.waking, parent := v.parent, pending := v.pending }
        (child ds) := by
      rw [hready, halive] at hchild
      exact hchild
    obtain ⟨as, hrecs, htr, hend, hget⟩ := ih (fun b hb => hbs b (List.mem_cons_of_mem _ hb)) hv.symm
    refine ⟨a :: as, ?_, .cons (.parent ha hstep) htr, hend, hget.trans hgetting⟩
    rw [received, List.flatMap_cons, hrec]
    exact hrecs

/-- With none in it the parent puts the datagram that it holds. -/
theorem Captures.puts {d : List UInt8} (h : Captures shm lib l c s₀ p r rs ds [] es s) (hc : 10008 < c)
    (hheld : s.held = [d]) :
    ∃ as t, received as = [] ∧ Trace (Step shm lib) s as t ∧ Captures shm lib l c s₀ p r rs ds [d] es t ∧
      t.loop = s.loop ∧ t.held = [] ∧ t.reader = s.reader := by
  obtain ⟨bs, u, hbs, hu, g, hnone⟩ := h.relays.putsHeld hc hheld
  obtain ⟨as, hrec, htr, hend, hgetting⟩ := Captures.parents lib hbs hu
  refine ⟨as, _, hrec, htr, ⟨?_, h.made, h.reader, h.loop, fun hw => h.waits (hgetting ▸ hw)⟩, rfl, hnone, rfl⟩
  exact hend ▸ g

theorem Captures.held_cases (h : Captures shm lib l c s₀ p r rs ds q es s) : s.held = [] ∨ ∃ d, s.held = [d] := by
  rcases h.relays.held_cases with ⟨he, -, -⟩ | ⟨n, he, -, -⟩ | ⟨d, he, -, -⟩
  · exact .inl he
  · exact .inr ⟨_, he⟩
  · exact .inr ⟨d, he⟩

theorem Captures.attached (h : Captures shm lib l c s₀ p r rs ds q es s) :
    ∃ acts t, received acts = [] ∧ Trace (Step shm lib) s acts t ∧ Captures shm lib l c s₀ p r rs ds q es t ∧
      t.loop = s.loop ∧ t.held = s.held ∧ t.reader = some shm := by
  cases hr : s.reader with
  | none => exact ⟨[.attach], _, rfl, .cons (.attach hr) (.nil _), h.attach, rfl, rfl, congrArg some h.key⟩
  | some k => exact ⟨[], s, rfl, .nil s, h, rfl, rfl, by rw [hr, h.reader k hr]⟩

/-- What the loop does on all that was received and not taken, it comes to do. -/
theorem Captures.advance (hc : 10008 < c) (hsz : shm.sz < 2 ^ 31) (n : Nat) {fs : List Noaaport.Event} {w : State}
    (h : Captures shm lib l c s₀ p r rs ds q es s) (hr : s.reader = some shm)
    (hrun : Trace (Noaaport.Step readnoaaport lib) (s.loop.feed (q ++ s.held).flatten) fs w)
    (hn : fs.length + q.length + 2 * s.held.length ≤ n) :
    ∃ acts u more, received acts = [] ∧ Trace (Step shm lib) s acts u ∧ w = u.loop.feed more := by
  induction n generalizing s ds q es fs with
  | zero =>
    cases hrun with
    | nil => exact ⟨[], s, _, rfl, .nil s, rfl⟩
    | cons => simp at hn
  | succ n ih =>
    have hthen : ∀ {as : List Act} {t : Sys}, received as = [] → Trace (Step shm lib) s as t →
        (∃ acts u more, received acts = [] ∧ Trace (Step shm lib) t acts u ∧ w = u.loop.feed more) →
        ∃ acts u more, received acts = [] ∧ Trace (Step shm lib) s acts u ∧ w = u.loop.feed more := by
      intro as t ha htr hrest
      obtain ⟨acts, u, more, hrec, hu, hw⟩ := hrest
      refine ⟨as ++ acts, u, more, ?_, htr.append hu, hw⟩
      rw [received, List.flatMap_append]
      exact List.append_eq_nil_iff.2 ⟨ha, hrec⟩
    cases hrun with
    | nil => exact ⟨[], s, _, rfl, .nil s, rfl⟩
    | @cons _ v _ e fs hstep hrest =>
      obtain hwait | ⟨u, rfl, hu⟩ := readnoaaport_patient.step_of_feed hstep
      · cases q with
        | nil =>
          obtain hnone | ⟨d, hd⟩ := h.held_cases
          · -- all is taken: a loop that waits makes no step
            rw [hnone] at hstep
            simp only [List.append_nil, List.flatten_nil, State.feed_nil] at hstep
            exact absurd hstep hwait.not_step
          · obtain ⟨as, t, ha, hput, h', hloop, hheld, hreader⟩ := h.puts hc hd
            have hsame : Trace (Noaaport.Step readnoaaport lib) (t.loop.feed ([d] ++ t.held).flatten) (e :: fs) w := by
              simpa [hloop, hheld, hd] using Trace.cons hstep hrest
            refine hthen ha hput (ih h' (hreader.trans hr) hsame ?_)
            simp [hheld, hd] at hn ⊢
            omega
        | cons d q =>
          obtain ⟨as, t, ha, hget, h', hloop, hheld, hreader⟩ := h.takes hsz hr hwait
          have hsame : Trace (Noaaport.Step readnoaaport lib) (t.loop.feed (q ++ t.held).flatten) (e :: fs) w := by
            simpa [hloop, hheld] using Trace.cons hstep hrest
          refine hthen ha hget (ih h' hreader hsame ?_)
          simp [hheld] at hn ⊢
          omega
      · have hidle : s.fifo.getting = none := by
          by_contra hne
          exact (h.waits (Option.isSome_iff_ne_none.2 hne)).not_step hu
        have hwork : Step shm lib s (.work e) { s with loop := u } :=
          .work (by simp [hr]) h.relays.alive hidle hu
        have h' : Captures shm lib l c s₀ p r rs ds q (es ++ [e]) { s with loop := u } :=
          ⟨h.relays, h.made, h.reader, h.loop.append (.cons hu (.nil _)), by simp [hidle]⟩
        refine @hthen [.work e] _ rfl (.cons hwork (.nil _)) (ih h' hr hrest ?_)
        change fs.length + q.length + 2 * s.held.length ≤ n
        simp only [List.length_cons] at hn
        omega

/-- From any state, attached or not. -/
theorem Captures.completes (h : Captures shm lib l c s₀ p r rs ds q es s) (hc : 10008 < c) (hsz : shm.sz < 2 ^ 31)
    {fs : List Noaaport.Event}
    (hrun : Trace (Noaaport.Step readnoaaport lib) (s.loop.feed (q ++ s.held).flatten) fs w) :
    ∃ acts u more, received acts = [] ∧ Trace (Step shm lib) s acts u ∧ w = u.loop.feed more := by
  obtain ⟨acts, t, hrec, ht, h', hloop, hheld, hreader⟩ := h.attached
  rw [← hloop, ← hheld] at hrun
  obtain ⟨acts', u, more, hrec', hu, hw⟩ := h'.advance hc hsz _ hreader hrun (Nat.le_refl _)
  refine ⟨acts ++ acts', u, more, ?_, ht.append hu, hw⟩
  rw [received, List.flatMap_append]
  exact List.append_eq_nil_iff.2 ⟨hrec, hrec'⟩

/-- What the loop has done is the beginning of what it does on all that was received. -/
theorem Captures.loop_all (h : Captures shm lib l c s₀ p r rs ds q es s) :
    Trace (Noaaport.Step readnoaaport lib) (r.feed rs.flatten) es (s.loop.feed (q ++ s.held).flatten) := by
  have hrun := readnoaaport_patient.run_feed h.loop (q ++ s.held).flatten
  have hkept : rs = ds ++ q ++ s.held := h.relays.kept
  rw [State.feed_feed, ← List.flatten_append, ← List.append_assoc, ← hkept] at hrun
  exact hrun

variable {b : Option Int} {pagesize : Int}

theorem reachable_captures (hpage : 32 ≤ pagesize) (hint : DvbsMulticast.bufpag b * pagesize < 2 ^ 31)
    (mem : Mem UInt8) (counter : Int) (msg : Buffer)
    (h : Trace (Step (DvbsMulticast.segmentOf (DvbsMulticast.bufpag b) pagesize) lib)
      (Sys.init (DvbsMulticast.segmentOf (DvbsMulticast.bufpag b) pagesize) mem counter msg r) acts s) :
    ∃ c : Nat, 10008 < c ∧ (DvbsMulticast.segmentOf (DvbsMulticast.bufpag b) pagesize).capacity = c ∧
      ∃ delivered queued, Captures (DvbsMulticast.segmentOf (DvbsMulticast.bufpag b) pagesize) lib 24 c
        (Sys.init (DvbsMulticast.segmentOf (DvbsMulticast.bufpag b) pagesize) mem counter msg r).fifo.seg
        ⟨msg, 0, []⟩ r (received acts) delivered queued (worked acts) s := by
  obtain ⟨c, hroom, hc, hlow, hlc⟩ := DvbsMulticast.segment_layout (b := b) hpage
  obtain ⟨delivered, queued, hs⟩ :=
    Captures.run hroom hint h (Captures.start mem counter msg hlow hlc (by omega))
  exact ⟨c, hroom, hc, delivered, queued, hs⟩

/-- Whatever the order of their steps, `readnoaaport` works as on a file of the datagrams: those that
were received are those it has taken, then those in the segment, then the one that the parent holds;
and its run is one on those it has taken, which is one on all of them. -/
theorem captured (hpage : 32 ≤ pagesize) (hint : DvbsMulticast.bufpag b * pagesize < 2 ^ 31) (mem : Mem UInt8)
    (counter : Int) (msg : Buffer)
    (h : Trace (Step (DvbsMulticast.segmentOf (DvbsMulticast.bufpag b) pagesize) lib)
      (Sys.init (DvbsMulticast.segmentOf (DvbsMulticast.bufpag b) pagesize) mem counter msg r) acts s) :
    s.alive = true ∧ ∃ delivered queued, received acts = delivered ++ queued ++ s.held ∧ s.held.length ≤ 1 ∧
      Queued (DvbsMulticast.segmentOf (DvbsMulticast.bufpag b) pagesize)
        (DvbsMulticast.segmentOf (DvbsMulticast.bufpag b) pagesize).low.toNat
        (DvbsMulticast.segmentOf (DvbsMulticast.bufpag b) pagesize).capacity.toNat s.fifo.seg queued ∧
      Trace (Noaaport.Step readnoaaport lib) (r.feed delivered.flatten) (worked acts) s.loop ∧
      Trace (Noaaport.Step readnoaaport lib) (r.feed (received acts).flatten) (worked acts)
        (s.loop.feed (queued ++ s.held).flatten) := by
  obtain ⟨c, -, hcap, delivered, queued, hs⟩ := reachable_captures hpage hint mem counter msg h
  have hkept : received acts = delivered ++ queued ++ s.held := hs.relays.kept
  refine ⟨hs.relays.alive, delivered, queued, hkept, ?_, ?_, hs.loop, hs.loop_all⟩
  · obtain he | ⟨d, he⟩ := hs.held_cases <;> simp [he]
  · rw [hcap]
    exact hs.relays.fifo.queued

/-- `readnoaaport` waits, is notified of a product of one packet, takes it and hands it over; then
another datagram comes. -/
def captureActs : List Act :=
  [.attach, .get, .recv singlePacket, .put, .getWake, .getRetry, .work .taken, .recv [3]]

theorem captureActs_run : ∃ s, Trace
    (Step (DvbsMulticast.segmentOf (DvbsMulticast.bufpag none) 4096) .plain)
    (Sys.init (DvbsMulticast.segmentOf (DvbsMulticast.bufpag none) 4096) (fun _ => 0) 0 (fun _ => 0)
      (State.fresh [] .blank)) captureActs s ∧ s.loop.asm.calls.length = 1 ∧ s.held = [[3]] := by
  have hwork : (iteration readnoaaport .plain (State.fresh singlePacket .blank)).Ends
      (fun t => t.asm.calls.length = 1) fun _ _ => False := by decide +kernel
  obtain ⟨t, ht, hone⟩ | ⟨_, _, -, hno⟩ := hwork.cases
  · have hstep : Noaaport.Step readnoaaport .plain (State.fresh singlePacket .blank) .taken t :=
      ⟨t, .inl ⟨ht, rfl⟩, rfl, fun _ => rfl⟩
    exact ⟨_, .cons (.attach rfl) <| .cons (.get rfl rfl rfl (waits_of_rest_nil rfl)) <|
      .cons (@Step.parent _ _ _ _ _ (child []) _ rfl rfl) <|
      .cons (@Step.parent _ _ _ _ _ (child []) _ rfl rfl) <| .cons (.getWake rfl rfl rfl rfl) <|
      .cons (.getRetry rfl rfl rfl rfl) <| .cons (.work (by rintro ⟨⟩) rfl rfl hstep) <|
      .cons (@Step.parent _ _ _ _ _ (child []) _ rfl rfl) <| .nil _, hone, rfl⟩
  · exact hno.elim

theorem captured_run : ∃ s : Sys, s.loop.asm.calls.length = 1 ∧ s.alive = true ∧
    ∃ delivered queued, [singlePacket, [3]] = delivered ++ queued ++ s.held := by
  obtain ⟨s, h, hone, -⟩ := captureActs_run
  obtain ⟨halive, delivered, queued, hkept, -⟩ :=
    captured (b := none) (by decide : (32 : Int) ≤ 4096) (by decide) _ _ _ h
  exact ⟨s, hone, halive, delivered, queued, hkept⟩

/-- All that `readnoaaport` would hand over of the datagrams, were they in a file, it can come to hand
over without another one: nothing in the segment or with the parent is in the way of it. -/
theorem captured_all (hpage : 32 ≤ pagesize) (hint : DvbsMulticast.bufpag b * pagesize < 2 ^ 31) (mem : Mem UInt8)
    (counter : Int) (msg : Buffer)
    (h : Trace (Step (DvbsMulticast.segmentOf (DvbsMulticast.bufpag b) pagesize) lib)
      (Sys.init (DvbsMulticast.segmentOf (DvbsMulticast.bufpag b) pagesize) mem counter msg r) acts s)
    (hrun : Trace (Noaaport.Step readnoaaport lib) (r.feed (received acts).flatten) es w) :
    ∃ acts' u, received acts' = [] ∧
      Trace (Step (DvbsMulticast.segmentOf (DvbsMulticast.bufpag b) pagesize) lib) s acts' u ∧
      w.asm.calls <+: u.loop.asm.calls ∧ w.asm.inserts <+: u.loop.asm.inserts := by
  obtain ⟨c, hroom, -, delivered, queued, hs⟩ := reachable_captures hpage hint mem counter msg h
  obtain ⟨fs, -, hfs⟩ | ⟨fs, -, hfs⟩ := hs.loop_all.extends_or (fun _ _ _ _ _ h h' => h.unique rfl h') hrun
  · obtain ⟨acts', u, more, hrec, hu, rfl⟩ := hs.completes hroom hint hfs
    exact ⟨acts', u, hrec, hu, List.prefix_refl _, List.prefix_refl _⟩
  · exact ⟨[], s, rfl, .nil s, (trace_calls hfs).1, (trace_calls hfs).2⟩

/-- The parent has received a product of one packet. -/
theorem captured_all_run : ∃ acts u, received acts = [] ∧ u.loop.asm.calls ≠ [] ∧ Trace
    (Step (DvbsMulticast.segmentOf (DvbsMulticast.bufpag none) 4096) .plain)
    (Sys.init (DvbsMulticast.segmentOf (DvbsMulticast.bufpag none) 4096) (fun _ => 0) 0 (fun _ => 0)
      (State.fresh [] .blank)) (.recv singlePacket :: acts) u := by
  have hrecv : Trace (Step (DvbsMulticast.segmentOf (DvbsMulticast.bufpag none) 4096) .plain)
      (Sys.init (DvbsMulticast.segmentOf (DvbsMulticast.bufpag none) 4096) (fun _ => 0) 0 (fun _ => 0)
        (State.fresh [] .blank)) [.recv singlePacket] _ :=
    .cons (@Step.parent _ _ _ _ _ (child []) _ rfl rfl) (.nil _)
  obtain ⟨es, hrun⟩ := iterate_trace readnoaaport .plain 1 (State.fresh singlePacket .blank)
  have hone : (iterate readnoaaport .plain 1 (State.fresh singlePacket .blank)).asm.calls.length = 1 := by
    decide +kernel
  obtain ⟨acts, u, hrec, hu, hcalls, -⟩ :=
    captured_all (b := none) (by decide : (32 : Int) ≤ 4096) (by decide) _ _ _ hrecv hrun
  refine ⟨acts, u, hrec, fun hnone => ?_, hrecv.append hu⟩
  rw [hnone, List.prefix_nil] at hcalls
  rw [hcalls] at hone
  cases hone

end Capturing

section Assembling
variable {lib : Library} {r s : State} {st : Reassembly.Progress NwstgProduct} {sent : Set NwstgProduct}
  {xs : List (NwstgProduct × Nat)}

/-- Packets of products that were sent, whichever come and in whichever order. -/
structure Sent (sent : Set NwstgProduct) (xs : List (NwstgProduct × Nat)) : Prop where
  blocks : ∀ x ∈ xs, x.1 ∈ sent ∧ x.2 < x.1.size
  seqno : ∀ P ∈ sent, ∀ Q ∈ sent, P.seqno = Q.seqno → P = Q

/-- The products whose blocks come one behind the other, from the first to the last. -/
def reassembled (xs : List (NwstgProduct × Nat)) : List NwstgProduct :=
  (Reassembly.run NwstgProduct.seqno NwstgProduct.size .idle xs).2

/-- The loop takes the packets one by one, and hands over what the reassembly delivers. -/
theorem loop_reassembles (lib : Library) (hxs : Sent sent xs) (hst : Stands st s)
    (hsent : ∀ P j, st = .building P j → P ∈ sent) (hpng : s.asm.pnginit = false) (hrest : s.inp.rest = stream xs) :
    ∃ es t, Trace (Noaaport.Step readnoaaport lib) s es t ∧ t.inp.rest = [] ∧
      ∃ cs, t.asm.calls = s.asm.calls ++ cs ∧
        List.Forall₂ Assembled cs (Reassembly.run NwstgProduct.seqno NwstgProduct.size st xs).2 := by
  induction xs generalizing s st with
  | nil => exact ⟨[], s, .nil s, hrest, [], by rw [List.append_nil], .nil⟩
  | cons x xs ih =>
    obtain ⟨P, j⟩ := x
    obtain ⟨hP, hj⟩ := hxs.blocks (P, j) List.mem_cons_self
    obtain ⟨e, u, hs, hserved⟩ := step_serves lib (readnoaaport_servesAll 10000) (fun _ => hst) hj hrest
      (fun _ => .inr hpng) fun Q k hq heq => hxs.seqno P hP Q (hsent Q k hq) heq
    obtain ⟨hnext, -⟩ := Reassembly.step_from NwstgProduct.seqno NwstgProduct.size (x := (P, j)) hP hsent
    have hlater : Sent sent xs := ⟨fun y hy => hxs.blocks y (List.mem_cons_of_mem _ hy), hxs.seqno⟩
    obtain ⟨es, t, htr, hdone, cs, hcs, hall⟩ :=
      ih hlater hserved.stands hnext (hserved.pnginit hpng) hserved.rest
    obtain ⟨ds, hds, hall'⟩ := hserved.calls
    exact ⟨e :: es, t, .cons hs htr, hdone, ds ++ cs, by rw [hcs, hds, List.append_assoc], List.rel_append hall' hall⟩

end Assembling

section Products
variable {lib : Library} {r : State} {s : Sys} {acts : List Act} {b : Option Int} {pagesize : Int}
  {sent : Set NwstgProduct} {xs : List (NwstgProduct × Nat)}

/-- From the multicast group to the product queue: whichever packets of well-formed products the
network lets through, and in whichever order, what `readnoaaport` has handed over is what their
reassembly begins with, and it can come to hand over all that this delivers. -/
theorem captured_products (hpage : 32 ≤ pagesize) (hint : DvbsMulticast.bufpag b * pagesize < 2 ^ 31)
    (mem : Mem UInt8) (counter : Int) (msg : Buffer) (h0 : Initial r) (hr : r.inp.rest = []) (hxs : Sent sent xs)
    (h : Trace (Step (DvbsMulticast.segmentOf (DvbsMulticast.bufpag b) pagesize) lib)
      (Sys.init (DvbsMulticast.segmentOf (DvbsMulticast.bufpag b) pagesize) mem counter msg r) acts s)
    (hrecv : received acts = xs.map fun x => (x.1.packet x.2).bytes) :
    (∃ n, List.Forall₂ Assembled s.loop.asm.calls ((reassembled xs).take n)) ∧
      ∃ acts' u, received acts' = [] ∧
        Trace (Step (DvbsMulticast.segmentOf (DvbsMulticast.bufpag b) pagesize) lib) s acts' u ∧
        List.Forall₂ Assembled u.loop.asm.calls (reassembled xs) := by
  obtain ⟨c, hroom, -, delivered, queued, hs⟩ := reachable_captures hpage hint mem counter msg h
  have hstream : (received acts).flatten = stream xs := by rw [hrecv, stream, List.flatMap_def]
  have hrest : (r.feed (received acts).flatten).inp.rest = stream xs := by
    simp [State.feed, Input.feed, State.setInp, hr, hstream]
  obtain ⟨es, w, hw, hdone, cs, hcs, hall⟩ := loop_reassembles lib hxs
    (show Stands .idle (r.feed (received acts).flatten) from h0.frags) (by simp) h0.pnginit hrest
  have hcalls : w.asm.calls = cs := by
    rw [hcs]
    change r.asm.calls ++ cs = cs
    rw [h0.calls.1, List.nil_append]
  rw [← hcalls] at hall
  -- the run on all the packets ends at their end, so that what was done is a part of it
  have hahead : ∃ fs, Trace (Noaaport.Step readnoaaport lib) (s.loop.feed (queued ++ s.held).flatten) fs w := by
    obtain ⟨fs, -, hfs⟩ | ⟨fs, -, hfs⟩ := hs.loop_all.extends_or (fun _ _ _ _ _ h h' => h.unique rfl h') hw
    · exact ⟨fs, hfs⟩
    · cases hfs with
      | nil => exact ⟨[], .nil _⟩
      | cons hstep => exact absurd hdone hstep.rest_ne_nil
  obtain ⟨fs, hfs⟩ := hahead
  constructor
  · have hprefix : s.loop.asm.calls <+: w.asm.calls := (trace_calls hfs).1
    refine ⟨s.loop.asm.calls.length, ?_⟩
    have htake := List.forall₂_take s.loop.asm.calls.length hall
    rwa [← List.prefix_iff_eq_take.1 hprefix] at htake
  · obtain ⟨acts', u, more, hrec, hu, rfl⟩ := hs.completes hroom hint hfs
    exact ⟨acts', u, hrec, hu, hall⟩

/-- The second block of a product arrives while the first waits in the segment. -/
theorem captured_products_run : ∃ acts u, received acts = [] ∧ Trace
    (Step (DvbsMulticast.segmentOf (DvbsMulticast.bufpag none) 4096) .plain)
    (Sys.init (DvbsMulticast.segmentOf (DvbsMulticast.bufpag none) 4096) (fun _ => 0) 0 (fun _ => 0)
      (State.fresh [] .blank))
    (.recv (textProduct.packet 0).bytes :: .put :: .recv (textProduct.packet 1).bytes :: acts) u ∧
    List.Forall₂ Assembled u.loop.asm.calls [textProduct] := by
  have hrecv : Trace (Step (DvbsMulticast.segmentOf (DvbsMulticast.bufpag none) 4096) .plain)
      (Sys.init (DvbsMulticast.segmentOf (DvbsMulticast.bufpag none) 4096) (fun _ => 0) 0 (fun _ => 0)
        (State.fresh [] .blank))
      [.recv (textProduct.packet 0).bytes, .put, .recv (textProduct.packet 1).bytes] _ :=
    .cons (@Step.parent _ _ _ _ _ (child []) _ rfl rfl) <| .cons (@Step.parent _ _ _ _ _ (child []) _ rfl rfl) <|
    .cons (@Step.parent _ _ _ _ _ (child []) _ rfl rfl) <| .nil _
  have hsent : Sent {textProduct} [(textProduct, 0), (textProduct, 1)] := by
    refine ⟨?_, fun P hP Q hQ _ => hP.trans hQ.symm⟩
    intro x hx
    rcases List.mem_cons.1 hx with rfl | hx
    · exact ⟨rfl, by decide⟩
    · obtain rfl := List.mem_singleton.1 hx
      exact ⟨rfl, by decide⟩
  obtain ⟨-, acts, u, hrec, hu, hall⟩ := captured_products (b := none) (by decide : (32 : Int) ≤ 4096) (by decide)
    _ _ _ (State.fresh_initial [] .blank) rfl hsent hrecv rfl
  exact ⟨acts, u, hrec, hrecv.append hu, hall⟩

end Products
end Noaaport.Capture
