import Noaaport.FifoSession

/-! The end of the stream: a byte string committed and closed, and one thread that
reads it in pieces. -/
namespace Noaaport.Fifo
open Lib

/-- Under way to a commit, or with a reservation. -/
def Place.Writing (k : Place) : Prop := k.InWriter ∨ ∃ n, k = .wantWriter n

/-- The discipline: `T` and nothing else is committed, the FIFO is closed when all of
it is and nobody writes, nobody writes later, and `rd` reads `ns` in order. -/
def EndRules {Tid : Type*} (T : List UInt8) (ns : List Nat) (rd : Tid) (x : Session Tid) :
    Note Tid → Prop
  | .reserve _ _ => x.closing = false
  | .commit _ bs => x.sent ++ bs <+: T
  | .close _ => x.sent = T ∧ ∀ u, ¬ (x.sys.pc u).Writing
  | .read t n => t = rd ∧ ns[x.reads]? = some n
  | _ => True

/-- What the reads are to return: the next bytes while there are enough of them. -/
def expected : List UInt8 → List Nat → List (Option (List UInt8))
  | _, [] => []
  | rest, n :: ns =>
    if n ≤ rest.length then some (rest.take n) :: expected (rest.drop n) ns
    else none :: expected rest ns

/-- Each read has what it is to return, and none is asleep once the FIFO is closed. -/
def EndOfStream {Tid : Type*} [DecidableEq Tid] (S : Nat) (T : List UInt8) (ns : List Nat)
    (rd : Tid) : Prop :=
  ∀ (buf : Mem UInt8) (es : List (Note Tid)) (x : Session Tid),
    Trace (SessionStep (EndRules T ns rd)) (Session.init buf S) es x →
      x.results <+: expected T ns ∧
      (x.sys.fifo.closeIfEmpty → (∀ u, ¬ (x.sys.pc u).Writing) → x.sys.mutex = none →
        ∀ n, x.sys.pc rd ≠ .readSleep n)

/-- The reads end exactly where the stream does, and go on with at least one byte. -/
def Ends : Nat → List Nat → Prop
  | _, [] => True
  | r, n :: ns => (r = 0 → 0 < n) ∧ (0 < r → n ≤ r) ∧ Ends (r - n) ns

section Places

/-- The size of the read under way, and the result of one that has it. -/
def Place.asked : Place → List Nat
  | .wantReader n | .readLock n | .readTest n | .readWait n | .readSleep n | .readWoken n
  | .readSignal n | .readCopy n => [n]
  | _ => []

def Place.pending : Place → List (Option (List UInt8))
  | .readUnlock r | .readRelease r => [r]
  | _ => []

def Place.Closing : Place → Prop
  | .closeLock | .closeSet | .closeSignalWriter | .closeSignalReader | .closeUnlock => True
  | _ => False

/-- No read, write or close begins or ends. -/
structure Place.Like (k k' : Place) : Prop where
  asked : k'.asked = k.asked
  pending : k'.pending = k.pending
  writing : k'.Writing → k.Writing
  closing : k'.Closing → k.Closing

theorem Place.Like.refl (k : Place) : k.Like k := ⟨rfl, rfl, id, id⟩

variable {k k' : Place} {fifo fifo' : Fifo}

theorem Place.not_writing (h : ¬ k.InWriter) (hk : ∀ n, k ≠ .wantWriter n) : ¬ k.Writing := by
  rintro (hw | ⟨n, hn⟩)
  · exact h hw
  · exact hk n hn

theorem Place.Same.writing (h : k.Same k') (hk : ∀ n, k' ≠ .wantWriter n) (hw : k'.Writing) :
    k.Writing := by
  obtain hin | ⟨n, hn⟩ := hw
  · exact .inl (h.1.1 hin)
  · exact absurd hn (hk n)

theorem Place.lock_like (h : k.lock = some k') : k.Like k' := by
  refine ⟨?_, ?_, (Place.lock_spec h).2.2.writing ?_, ?_⟩ <;> cases k <;> cases h <;>
    first | rfl | exact id | exact nofun

theorem Place.unlock_like (h : k.unlock = some k') : k.Like k' := by
  refine ⟨?_, ?_, (Place.unlock_spec h).2.2.writing ?_, ?_⟩ <;> cases k <;> cases h <;>
    first | rfl | exact id | exact nofun

theorem Place.sleep_like (h : k.sleep = some k') : k.Like k' := by
  refine ⟨?_, ?_, (Place.sleep_spec h).2.2.writing ?_, ?_⟩ <;> cases k <;> cases h <;>
    first | rfl | exact id | exact nofun

theorem Place.wake_like (h : k.wake = some k') : k.Like k' := by
  refine ⟨?_, ?_, (Place.wake_spec h).2.2.writing ?_, ?_⟩ <;> cases k <;> cases h <;>
    first | rfl | exact id | exact nofun

theorem Place.signal_like {cond : Cond} (h : k.signal = some (cond, k')) : k.Like k' := by
  refine ⟨?_, ?_, (Place.signal_spec h).2.2.writing ?_, ?_⟩ <;> cases k <;> cases h <;>
    first | rfl | exact id | exact nofun

/-- Between two calls a read may find the FIFO closed and empty, and
`fifoCloseWhenEmpty` sets the flag. -/
theorem Place.work_like (h : k.work fifo = some (fifo', k')) :
    ((∃ n, k = .readTest n ∧ k' = .readUnlock none ∧ fifo' = fifo ∧ fifo.closeIfEmpty ∧
      fifo.nbytes = 0) ∨ k.Like k') ∧
    (fifo'.closeIfEmpty = fifo.closeIfEmpty ∨ k.Closing) := by
  have hsame := (Place.work_spec h).2.2
  cases k <;> simp only [Place.work, reduceCtorEq] at h
  case reserveTest n =>
    split at h
    · cases h
      exact ⟨.inr ⟨rfl, rfl, hsame.writing (by rintro _ ⟨⟩), id⟩, .inl rfl⟩
    · next addr avail fifo hr =>
      cases h
      unfold fifoWriteReserve at hr
      split_ifs at hr
      cases hr
      exact ⟨.inr ⟨rfl, rfl, hsame.writing (by rintro _ ⟨⟩), id⟩, .inl rfl⟩
    · cases h
      exact ⟨.inr ⟨rfl, rfl, hsame.writing (by rintro _ ⟨⟩), id⟩, .inl rfl⟩
  case commitTest n addr avail c =>
    split at h
    · cases h
      exact ⟨.inr ⟨rfl, rfl, hsame.writing (by rintro _ ⟨⟩), id⟩, .inl rfl⟩
    · split at h <;> cases h <;>
        exact ⟨.inr ⟨rfl, rfl, hsame.writing (by rintro _ ⟨⟩), id⟩, .inl rfl⟩
  case readTest n =>
    split_ifs at h with h₁ h₂
    · cases h
      exact ⟨.inl ⟨n, rfl, rfl, rfl, h₁⟩, .inl rfl⟩
    · cases h
      exact ⟨.inr ⟨rfl, rfl, hsame.writing (by rintro _ ⟨⟩), id⟩, .inl rfl⟩
    · cases h
      exact ⟨.inr ⟨rfl, rfl, hsame.writing (by rintro _ ⟨⟩), id⟩, .inl rfl⟩
  case closeSet =>
    cases h
    exact ⟨.inr ⟨rfl, rfl, hsame.writing (by rintro _ ⟨⟩), fun _ => trivial⟩, .inr trivial⟩

end Places

variable {Tid : Type*} {x y : Session Tid} {e : Note Tid} {S : Nat} {T : List UInt8}
  {ns : List Nat} {rd t : Tid} {k : Place}

/-- The results so far, the one under way and those to come are the expected ones. -/
structure Progress (T : List UInt8) (ns : List Nat) (rd : Tid) (x : Session Tid) : Prop where
  reads : ∃ rest, T = x.taken ++ rest ∧
    expected T ns = x.results ++ (x.sys.pc rd).pending ++
      expected rest ((x.sys.pc rd).asked ++ ns.drop x.reads) ∧
    Ends rest.length ((x.sys.pc rd).asked ++ ns.drop x.reads)
  only : ∀ u, u ≠ rd → (x.sys.pc u).asked = [] ∧ (x.sys.pc u).pending = []
  sent : x.sent <+: T
  closed : x.closing = true → x.sent = T ∧ ∀ u, ¬ (x.sys.pc u).Writing
  flag : x.sys.fifo.closeIfEmpty = true → x.closing = true
  closers : ∀ u, (x.sys.pc u).Closing → x.closing = true

section Progress

theorem Progress.init (buf : Mem UInt8) (h : Ends T.length ns) :
    Progress T ns rd (Session.init buf S) where
  reads := ⟨T, rfl, rfl, h⟩
  only := fun _ _ => ⟨rfl, rfl⟩
  sent := List.nil_prefix
  closed := nofun
  flag := nofun
  closers := fun _ h => h.elim

/-- A step that neither begins nor ends anything. -/
theorem Progress.keep (h : Progress T ns rd x) (hlike : ∀ u, (x.sys.pc u).Like (y.sys.pc u))
    (hsent : y.sent = x.sent) (htaken : y.taken = x.taken) (hreads : y.reads = x.reads)
    (hresults : y.results = x.results) (hclosing : y.closing = x.closing)
    (hflag : y.sys.fifo.closeIfEmpty = true → x.closing = true) : Progress T ns rd y where
  reads := by
    rw [htaken, hresults, hreads, (hlike rd).asked, (hlike rd).pending]
    exact h.reads
  only := by
    intro u hu
    rw [(hlike u).asked, (hlike u).pending]
    exact h.only u hu
  sent := by
    rw [hsent]
    exact h.sent
  closed := by
    rw [hsent, hclosing]
    intro hc
    obtain ⟨hall, hw⟩ := h.closed hc
    exact ⟨hall, fun u hu => hw u ((hlike u).writing hu)⟩
  flag := by
    rw [hclosing]
    exact hflag
  closers := by
    rw [hclosing]
    exact fun u hu => h.closers u ((hlike u).closing hu)

variable [DecidableEq Tid]

theorem goto_like {s : Threads Tid} (h : (s.pc t).Like k) (u : Tid) :
    (s.pc u).Like ((s.goto t k).pc u) := by
  by_cases hu : u = t
  · subst u
    rw [Threads.goto_self]
    exact h
  · rw [Threads.goto_of_ne s k hu]
    exact .refl _

theorem Progress.quiet (h : Progress T ns rd x) {sys : Threads Tid}
    (hpc : sys.pc = (x.sys.goto t k).pc) (hlike : (x.sys.pc t).Like k)
    (hflag : sys.fifo.closeIfEmpty = true → x.closing = true) :
    Progress T ns rd (x.after .quiet sys) := by
  refine h.keep (fun u => ?_) (List.append_nil _) (List.append_nil _) rfl rfl rfl hflag
  change (x.sys.pc u).Like (sys.pc u)
  rw [hpc]
  exact goto_like hlike u

/-- In the reader alone something changes. -/
theorem Progress.reader (h : Progress T ns rd x) (hpc : y.sys.pc = (x.sys.goto rd k).pc)
    (hwriting : k.Writing → (x.sys.pc rd).Writing) (hclose : ¬ k.Closing)
    (hreads : ∃ rest, T = y.taken ++ rest ∧
      expected T ns = y.results ++ k.pending ++ expected rest (k.asked ++ ns.drop y.reads) ∧
      Ends rest.length (k.asked ++ ns.drop y.reads))
    (hsent : y.sent = x.sent) (hclosing : y.closing = x.closing)
    (hflag : y.sys.fifo.closeIfEmpty = x.sys.fifo.closeIfEmpty) : Progress T ns rd y where
  reads := by
    rw [hpc, Threads.goto_self]
    exact hreads
  only := by
    intro u hu
    rw [hpc, Threads.goto_of_ne _ _ hu]
    exact h.only u hu
  sent := by
    rw [hsent]
    exact h.sent
  closed := by
    rw [hsent, hclosing]
    intro hc
    obtain ⟨hall, hw⟩ := h.closed hc
    refine ⟨hall, fun u hu => ?_⟩
    rw [hpc] at hu
    by_cases hur : u = rd
    · subst u
      rw [Threads.goto_self] at hu
      exact hw rd (hwriting hu)
    · rw [Threads.goto_of_ne _ _ hur] at hu
      exact hw u hu
  flag := by
    rw [hflag, hclosing]
    exact h.flag
  closers := by
    intro u hu
    rw [hpc] at hu
    rw [hclosing]
    by_cases hur : u = rd
    · subst u
      rw [Threads.goto_self] at hu
      exact absurd hu hclose
    · rw [Threads.goto_of_ne _ _ hur] at hu
      exact h.closers u hu

/-- An idle thread calls something other than `fifoRead`. -/
theorem Progress.start (h : Progress T ns rd x) (ht : x.sys.pc t = .idle) {e : Note Tid}
    (hk : k.asked = [] ∧ k.pending = []) (he : e.sent = [] ∧ e.taken = [])
    (hreads : (x.after e (x.sys.goto t k)).reads = x.reads)
    (hresults : (x.after e (x.sys.goto t k)).results = x.results)
    (hclosed : (x.after e (x.sys.goto t k)).closing = true →
      x.sent = T ∧ ∀ u, ¬ ((x.sys.goto t k).pc u).Writing)
    (hclosers : ∀ u, ((x.sys.goto t k).pc u).Closing → (x.after e (x.sys.goto t k)).closing = true)
    (hmono : x.closing = true → (x.after e (x.sys.goto t k)).closing = true) :
    Progress T ns rd (x.after e (x.sys.goto t k)) := by
  have hsame : ∀ u, ((x.sys.goto t k).pc u).asked = (x.sys.pc u).asked ∧
      ((x.sys.goto t k).pc u).pending = (x.sys.pc u).pending := by
    intro u
    by_cases hu : u = t
    · subst u
      rw [Threads.goto_self, ht]
      exact hk
    · rw [Threads.goto_of_ne _ _ hu]
      exact ⟨rfl, rfl⟩
  have hsent : (x.after e (x.sys.goto t k)).sent = x.sent := by simp [Session.after, he.1]
  have htaken : (x.after e (x.sys.goto t k)).taken = x.taken := by simp [Session.after, he.2]
  refine ⟨?_, fun u hu => ?_, ?_, ?_, fun hf => hmono (h.flag hf), hclosers⟩
  · have hpc : (x.after e (x.sys.goto t k)).sys.pc rd = (x.sys.goto t k).pc rd := rfl
    rw [htaken, hreads, hresults, hpc, (hsame rd).1, (hsame rd).2]
    exact h.reads
  · change ((x.sys.goto t k).pc u).asked = [] ∧ ((x.sys.goto t k).pc u).pending = []
    rw [(hsame u).1, (hsame u).2]
    exact h.only u hu
  · rw [hsent]
    exact h.sent
  · rw [hsent]
    exact hclosed

theorem Progress.is_reader (h : Progress T ns rd x)
    (ht : (x.sys.pc t).asked ≠ [] ∨ (x.sys.pc t).pending ≠ []) : t = rd := by
  by_contra hne
  obtain ⟨h₁, h₂⟩ := h.only t hne
  obtain ht | ht := ht
  · exact ht h₁
  · exact ht h₂

/-- The FIFO is closed and empty: the stream is at its end. -/
theorem Progress.readClosed (h : Progress T ns rd x) (hx : x.Sound S) {n : Nat}
    (ht : x.sys.pc t = .readTest n) (hc : x.sys.fifo.closeIfEmpty = true)
    (hn : x.sys.fifo.nbytes = 0) :
    Progress T ns rd (x.after .quiet (x.sys.goto t (.readUnlock none))) := by
  obtain rfl := h.is_reader (t := t) (.inl (by simp [ht, Place.asked]))
  obtain ⟨rest, hT, hexp, hends⟩ := h.reads
  have hall := (h.closed (h.flag hc)).1
  have hrest : rest = [] := by
    have hlen := hx.nbytes
    rw [hall, hT, List.length_append] at hlen
    exact List.length_eq_zero_iff.1 (by omega)
  subst rest
  rw [ht] at hexp hends
  simp only [Place.asked, Place.pending, List.append_nil, List.singleton_append] at hexp hends
  refine h.reader (k := .readUnlock none) rfl (fun hw => absurd hw (Place.not_writing not_false nofun))
    not_false ⟨[], ?_, ?_, ?_⟩ (List.append_nil _) rfl rfl
  · simpa [Session.after, Note.taken] using hT
  · have hpos : ¬ n ≤ ([] : List UInt8).length := not_le.2 (hends.1 rfl)
    rw [expected, if_neg hpos] at hexp
    simpa [Session.after, Place.pending, Place.asked] using hexp
  · simpa [Session.after, Place.asked] using hends.2.2

/-- The bytes a read takes are the next ones of the stream. -/
theorem Progress.take (h : Progress T ns rd x) (hx : x.Sound S) {n : Nat}
    (ht : x.sys.pc t = .readCopy n) :
    Progress T ns rd (x.after (.take t (copyOut x.sys.fifo n).1)
      { x.sys.goto t (.readUnlock (some (copyOut x.sys.fifo n).1)) with
        fifo := (copyOut x.sys.fifo n).2 }) := by
  obtain rfl := h.is_reader (t := t) (.inl (by simp [ht, Place.asked]))
  obtain ⟨rest, hT, hexp, hends⟩ := h.reads
  have hle := hx.stored.places t
  rw [ht] at hle
  change n ≤ x.sys.fifo.nbytes at hle
  have hsize := hx.stored.size
  have hpos := hx.stored.pos
  have hroom := hx.stored.room
  obtain ⟨hlen, -, hunread⟩ :=
    copyOut_spec (f := x.sys.fifo) (n := n) (by omega) (by omega) hle
  -- what is unread begins the rest of the stream
  have hprefix : (copyOut x.sys.fifo n).1 <+: rest := by
    have hsent := h.sent
    rw [hx.stored.stream, hT, List.prefix_append_right_inj, hunread] at hsent
    exact (List.prefix_append _ _).trans hsent
  obtain ⟨rest', rfl⟩ := hprefix
  rw [ht] at hexp hends
  simp only [Place.asked, Place.pending, List.append_nil, List.singleton_append] at hexp hends
  rw [expected, if_pos (by rw [List.length_append]; omega), List.take_left' hlen,
    List.drop_left' hlen] at hexp
  refine h.reader (k := .readUnlock _) rfl (fun hw => absurd hw (Place.not_writing not_false nofun))
    not_false ⟨rest', ?_, ?_, ?_⟩ (List.append_nil _) rfl rfl
  · simpa [Session.after, Note.taken] using hT
  · simpa [Session.after, Place.pending, Place.asked] using hexp
  · have hrest := hends.2.2
    rw [List.length_append, hlen, Nat.add_sub_cancel_left] at hrest
    exact hrest

theorem Progress.step (h : Progress T ns rd x) (hx : x.Sound S)
    (hs : SessionStep (EndRules T ns rd) x e y) : Progress T ns rd y := by
  obtain ⟨sys, ⟨t, hs⟩, ha, rfl⟩ := hs
  cases hs
  case tooLarge n hpc hn =>
    exact h.keep (fun u => .refl _) (List.append_nil _) (List.append_nil _) rfl rfl rfl h.flag
  case reserve n hpc hn =>
    have hopen : x.closing ≠ true := by
      rw [ha]
      decide
    refine h.start hpc ⟨rfl, rfl⟩ ⟨rfl, rfl⟩ rfl rfl (fun hc => absurd hc hopen) (fun u hu => ?_) id
    obtain ⟨-, hk⟩ | ⟨-, hk⟩ := goto_cases (s := x.sys) (t := t) (k := .wantWriter n) rfl
      (rfl : (x.sys.goto t (.wantWriter n)).pc u = _)
    · rw [← hk] at hu
      exact hu.elim
    · rw [← hk] at hu
      exact h.closers u hu
  case read n hpc hn =>
    obtain ⟨rfl, hget⟩ := ha
    obtain ⟨rest, hT, hexp, hends⟩ := h.reads
    obtain ⟨hlt, hn'⟩ := List.getElem?_eq_some_iff.1 hget
    have hdrop : ns.drop x.reads = n :: ns.drop (x.reads + 1) := by
      rw [List.drop_eq_getElem_cons hlt, hn']
    rw [hpc, hdrop] at hexp hends
    refine h.reader (k := .wantReader n) rfl (fun hw => absurd hw (Place.not_writing not_false (by rintro _ ⟨⟩)))
      not_false ⟨rest, ?_, hexp, hends⟩ (List.append_nil _) rfl rfl
    simpa [Session.after, Note.taken] using hT
  case close hpc =>
    obtain ⟨hall, hw⟩ := ha
    refine h.start hpc ⟨rfl, rfl⟩ ⟨rfl, rfl⟩ rfl rfl (fun _ => ⟨hall, fun u hu => ?_⟩)
      (fun _ _ => rfl) (fun _ => rfl)
    obtain ⟨-, hk⟩ | ⟨-, hk⟩ := goto_cases (s := x.sys) (t := t) (k := .closeLock) rfl
      (rfl : (x.sys.goto t .closeLock).pc u = _)
    · rw [← hk] at hu
      obtain hu | ⟨m, hm⟩ := hu
      · exact hu
      · cases hm
    · rw [← hk] at hu
      exact hw u hu
  case commit n addr avail c hpc =>
    exact h.quiet (k := .commitLock n addr avail c) rfl
      (by rw [hpc]; exact ⟨rfl, rfl, fun _ => .inl trivial, id⟩) h.flag
  case fill n addr avail i b hpc hi havail =>
    exact h.keep (fun u => .refl _) (List.append_nil _) (List.append_nil _) rfl rfl rfl h.flag
  case lockWrite n hpc hfree =>
    exact h.quiet (k := .reserveLock n) rfl
      (by rw [hpc]; exact ⟨rfl, rfl, fun _ => .inr ⟨n, rfl⟩, id⟩) h.flag
  case lockRead n hpc hfree =>
    refine h.quiet (k := .readLock n) rfl ?_ h.flag
    rw [hpc]
    exact ⟨rfl, rfl, fun hw => absurd hw (Place.not_writing not_false (by rintro _ ⟨⟩)), id⟩
  case lock k hpc hfree => exact h.quiet rfl (Place.lock_like hpc) h.flag
  case unlock k hpc => exact h.quiet rfl (Place.unlock_like hpc) h.flag
  case sleep k hpc => exact h.quiet rfl (Place.sleep_like hpc) h.flag
  case wake k hpc => exact h.quiet rfl (Place.wake_like hpc) h.flag
  case signal cond k pc hpc hwoken =>
    refine h.keep (fun u => ?_) (List.append_nil _) (List.append_nil _) rfl rfl rfl h.flag
    change (x.sys.pc u).Like (Function.update pc t k u)
    by_cases hu : u = t
    · subst u
      rw [Function.update_self]
      exact Place.signal_like hpc
    · rw [Function.update_of_ne hu]
      obtain heq | ⟨-, hw⟩ := hwoken.only u
      · rw [heq]
        exact .refl _
      · exact Place.wake_like hw
  case work fifo k hpc =>
    obtain ⟨⟨n, ht, rfl, rfl, hc, hn⟩ | hlike, hflag⟩ := Place.work_like hpc
    · exact h.readClosed hx ht hc hn
    · refine h.quiet rfl hlike ?_
      obtain hflag | hclosing := hflag
      · rw [hflag]
        exact h.flag
      · exact fun _ => h.closers t hclosing
  case store c hpc =>
    -- a commit is under way, so the FIFO is not being closed
    have hopen : x.closing ≠ true := by
      intro hc
      exact (h.closed hc).2 t (by rw [hpc]; exact .inl trivial)
    have hlike : (x.sys.pc t).Like .commitRelease := by
      rw [hpc]
      exact ⟨rfl, rfl, fun _ => .inl trivial, id⟩
    have hkeep : Progress T ns rd (x.after .quiet (x.sys.goto t .commitRelease)) :=
      h.quiet rfl hlike h.flag
    refine ⟨?_, hkeep.only, ha, fun hc => absurd hc hopen, h.flag, hkeep.closers⟩
    simpa [Session.after, Note.taken] using hkeep.reads
  case take n hpc => exact h.take hx hpc
  case unlockWrite hpc =>
    exact h.quiet (k := .commitUnlock) rfl
      (by rw [hpc]; exact ⟨rfl, rfl, fun _ => .inl trivial, id⟩) h.flag
  case giveUp hpc =>
    exact h.quiet (k := .idle) rfl
      (by rw [hpc]; exact ⟨rfl, rfl, fun _ => .inl trivial, id⟩) h.flag
  case unlockRead r hpc =>
    obtain rfl := h.is_reader (t := t) (.inr (by simp [hpc, Place.pending]))
    obtain ⟨rest, hT, hexp, hends⟩ := h.reads
    rw [hpc] at hexp hends
    refine h.reader (k := .idle) rfl (fun hw => absurd hw (Place.not_writing not_false (by rintro _ ⟨⟩))) not_false
      ⟨rest, ?_, ?_, hends⟩ (List.append_nil _) rfl rfl
    · simpa [Session.after, Note.taken] using hT
    · simpa [Session.after, Place.pending, Place.asked] using hexp

end Progress

section Contract

theorem endRules_lax (T : List UInt8) (ns : List Nat) (rd : Tid) : Lax (EndRules T ns rd) :=
  ⟨fun _ => trivial, fun _ _ _ => trivial, fun _ _ _ => trivial⟩

theorem not_writing_calm (fifo : Fifo) (u : Tid) : ¬ ((Threads.calm fifo).pc u).Writing :=
  Place.not_writing not_false nofun

/-- Between two reads of a run by one thread that commits the bytes of a read just
before it: the FIFO is empty, and closed only at the end. -/
structure Between (T : List UInt8) (ns : List Nat) (x : Session Tid) (fifo : Fifo)
    (rest : List UInt8) (todo : List Nat) : Prop where
  sys : x.sys = .calm fifo
  sent : x.sent = x.taken
  stream : T = x.taken ++ rest
  toRead : ns.drop x.reads = todo
  results : expected T ns = x.results ++ expected rest todo
  closed : x.closing = false ∧ fifo.closeIfEmpty = false ∨ rest = [] ∧ fifo.closeIfEmpty = true

variable {fifo : Fifo} {rest : List UInt8} {todo : List Nat} {n : Nat}

theorem Between.empty (h : Between T ns x fifo rest todo) (hx : x.Sound S) :
    fifo.size = S ∧ fifo.nextWrite < S ∧ fifo.nbytes = 0 := by
  have hlen := hx.nbytes
  have hsize := hx.stored.size
  have hpos := hx.stored.pos
  rw [h.sent] at hlen
  rw [h.sys] at hlen hsize hpos
  exact ⟨hsize, hpos, Nat.left_eq_add.1 hlen⟩

theorem Between.next (h : Between T ns x fifo rest (n :: todo)) :
    ns[x.reads]? = some n ∧ ns.drop (x.reads + 1) = todo := by
  have hget := congrArg List.head? h.toRead
  have htail := congrArg List.tail h.toRead
  rw [List.head?_drop] at hget
  rw [List.tail_drop] at htail
  exact ⟨hget, htail⟩

theorem Between.opened (h : Between T ns x fifo rest todo) (hrest : rest ≠ []) :
    x.closing = false ∧ fifo.closeIfEmpty = false :=
  h.closed.resolve_right fun hc => hrest hc.1

variable [DecidableEq Tid]

theorem not_writing_readSleep (fifo : Fifo) (m w r : Option Tid) (t u : Tid) (n : Nat) :
    ¬ ((Threads.solo fifo m w r t (.readSleep n)).pc u).Writing := by
  by_cases hu : u = t
  · subst u
    rw [solo_pc]
    exact Place.not_writing not_false (by rintro _ ⟨⟩)
  · simp only [Threads.solo, Function.update_of_ne hu]
    exact Place.not_writing not_false (by rintro _ ⟨⟩)

/-- Every run keeps the contract where the reads end with the stream. -/
theorem endOfStream_of_ends (hS : 0 < S) (h : Ends T.length ns) : EndOfStream S T ns rd := by
  intro buf es x hr
  obtain ⟨hx, hp⟩ := hr.invariant (P := fun x => x.Sound S ∧ Progress T ns rd x)
    (fun x e y ⟨hx, hp⟩ hs => ⟨hx.step hs, hp.step hx hs⟩)
    ⟨Session.Sound.init buf hS, Progress.init buf h⟩
  obtain ⟨rest, hT, hexp, hends⟩ := hp.reads
  refine ⟨?_, fun hc _ hfree n hpc => ?_⟩
  · rw [hexp, List.append_assoc]
    exact List.prefix_append _ _
  · obtain ⟨hlt, hopen⟩ := (hx.waiting.asleep hx.own hfree).2 rd n hpc
    have hlen := hx.nbytes
    rw [(hp.closed (hp.flag hc)).1, hT, List.length_append] at hlen
    rw [hpc] at hends
    have hle := hends.2.1
    have hne : x.sys.fifo.nbytes ≠ 0 := fun h0 => hopen ⟨hc, h0⟩
    omega

/-- At the end of the stream the FIFO can be closed. -/
theorem Between.close (rd : Tid) (h : Between T ns x fifo [] todo) :
    ∃ y fifo', Reaches (EndRules T ns rd) x y ∧ Between T ns y fifo' [] todo ∧
      fifo'.closeIfEmpty = true := by
  obtain ⟨hopen, hflag⟩ | ⟨-, hflag⟩ := h.closed
  · have hall : x.sent = T := by rw [h.sent, h.stream, List.append_nil]
    have hclose := reaches_close (t := rd) h.sys (endRules_lax T ns rd)
      ⟨hall, fun u => by rw [h.sys]; exact not_writing_calm fifo u⟩
    exact ⟨_, _, hclose, ⟨rfl, h.sent, h.stream, h.toRead, h.results, .inr ⟨rfl, rfl⟩⟩, rfl⟩
  · exact ⟨x, fifo, .refl x, h, hflag⟩

/-- A read then returns at once, -/
theorem Between.readClosed (rd : Tid) (h : Between T ns x fifo [] (n :: todo)) (hx : x.Sound S) (hn : n ≤ S)
    (hflag : fifo.closeIfEmpty = true) :
    Reaches (EndRules T ns rd) x
      { x with reads := x.reads + 1, results := x.results ++ [none] } :=
  reaches_readClosed h.sys (endRules_lax T ns rd) (by rw [(h.empty hx).1]; exact hn)
    ⟨hflag, (h.empty hx).2.2⟩ ⟨rfl, h.next.1⟩

/-- before it, some bytes of the rest can be committed, -/
theorem Between.commit (rd : Tid) (h : Between T ns x fifo rest todo) (hx : x.Sound S) (hrest : rest ≠ [])
    (hn : n ≤ S) : ∃ fifo', Reaches (EndRules T ns rd) x
        { x with sys := .calm fifo', sent := x.sent ++ rest.take n } ∧
      fifo'.closeIfEmpty = false ∧ fifo'.size = S ∧ fifo'.nbytes = (rest.take n).length := by
  obtain ⟨hsize, hpos, h0⟩ := h.empty hx
  obtain ⟨hclosing, hflag⟩ := h.opened hrest
  have hpre : x.sent ++ rest.take n <+: T := by
    rw [h.sent, h.stream, List.prefix_append_right_inj]
    exact List.take_prefix n rest
  obtain ⟨fifo', hcommit, hflag'⟩ := reaches_commit (t := rd) n (rest.take n) h.sys
    (endRules_lax T ns rd) (by rw [hsize]; exact hpos)
    (List.length_take_le n rest) (by omega) (by simp [hflag]) hclosing (fun _ => hpre)
  obtain ⟨es, hrun⟩ := hcommit
  have hy := hx.run hrun
  have hlen := hy.nbytes
  change (x.sent ++ rest.take n).length = x.taken.length + fifo'.nbytes at hlen
  rw [h.sent, List.length_append] at hlen
  exact ⟨fifo', ⟨es, hrun⟩, hflag'.trans hflag, hy.stored.size, by omega⟩

/-- and a read with enough bytes left delivers them. -/
theorem Between.read (rd : Tid) (h : Between T ns x fifo rest (n :: todo)) (hx : x.Sound S) (hn : n ≤ S)
    (hrest : rest ≠ []) (hle : n ≤ rest.length) :
    ∃ fifo' bs, Reaches (EndRules T ns rd) x
        { x with sys := .calm fifo', sent := x.sent ++ rest.take n, taken := x.taken ++ bs
                 reads := x.reads + 1, results := x.results ++ [some bs] } ∧
      fifo'.closeIfEmpty = false := by
  obtain ⟨fifo₁, hcommit, hflag, hsize, hlen⟩ := h.commit rd hx hrest hn
  rw [List.length_take, Nat.min_eq_left hle] at hlen
  obtain ⟨fifo₂, bs, hread, hflag₂, -⟩ := reaches_read (t := rd)
    (x := { x with sys := .calm fifo₁, sent := x.sent ++ rest.take n }) (n := n) rfl
    (endRules_lax T ns rd) (by omega) (by omega) (by simp [hflag]) ⟨rfl, h.next.1⟩
  exact ⟨fifo₂, bs, hcommit.trans hread, hflag₂.trans hflag⟩

/-- With too few it goes to sleep on the closed FIFO. -/
theorem Between.stuck (rd : Tid) (h : Between T ns x fifo rest (n :: todo)) (hx : x.Sound S) (hn : n ≤ S)
    (hrest : rest ≠ []) (hlt : rest.length < n) :
    ∃ y, Reaches (EndRules T ns rd) x y ∧ y.sys.fifo.closeIfEmpty = true ∧
      (∀ u, ¬ (y.sys.pc u).Writing) ∧ y.sys.mutex = none ∧ y.sys.pc rd = .readSleep n := by
  obtain ⟨fifo₁, hcommit, -, hsize, hlen⟩ := h.commit rd (n := rest.length) hx hrest (by omega)
  rw [List.take_length] at hcommit hlen
  have hpos := List.length_pos_iff.2 hrest
  have hall : x.sent ++ rest = T := by rw [h.sent, h.stream]
  have hclose := reaches_close (t := rd)
    (x := { x with sys := .calm fifo₁, sent := x.sent ++ rest }) rfl (endRules_lax T ns rd)
    ⟨hall, not_writing_calm fifo₁⟩
  have hsleep := reaches_readSleep (t := rd) (n := n)
    (x := { x with sys := .calm { fifo₁ with closeIfEmpty := true }, sent := x.sent ++ rest
                   closing := true }) rfl (endRules_lax T ns rd)
    (by change n ≤ fifo₁.size; omega) (by change fifo₁.nbytes < n; omega)
    (fun hc => by have h0 : fifo₁.nbytes = 0 := hc.2; omega) ⟨rfl, h.next.1⟩
  exact ⟨_, (hcommit.trans hclose).trans hsleep, rfl,
    fun u => not_writing_readSleep _ _ _ _ _ u n, rfl, solo_pc ..⟩

/-- Only so. -/
theorem ends_of_endOfStream (hS : 0 < S) (hns : ∀ n ∈ ns, n ≤ S)
    (h : EndOfStream S T ns rd) (todo : List Nat) :
    ∀ (x : Session Tid) (fifo : Fifo) (rest : List UInt8),
      Reaches (EndRules T ns rd) (Session.init (fun _ => 0) S) x →
      Between T ns x fifo rest todo → Ends rest.length todo := by
  induction todo with
  | nil =>
    intros
    trivial
  | cons n todo ih =>
    intro x fifo rest hr hb
    have hx : x.Sound S := by
      obtain ⟨es, hr⟩ := hr
      exact (Session.Sound.init _ hS).run hr
    have hn : n ≤ S := hns n (List.mem_of_getElem? hb.next.1)
    by_cases hrest : rest = []
    · subst rest
      obtain ⟨y, fifo', hxy, hy, hflag⟩ := hb.close rd
      have hyS : y.Sound S := by
        obtain ⟨es, hxy⟩ := hxy
        exact hx.run hxy
      have hreach := (hr.trans hxy).trans (hy.readClosed rd hyS hn hflag)
      obtain ⟨es, hrun⟩ := hreach
      -- the result is status 3, so 0 bytes were not asked for
      have hpre := (h _ es _ hrun).1
      rw [hy.results, List.prefix_append_right_inj] at hpre
      have hpos : 0 < n := by
        by_contra h0
        rw [expected, if_pos (by simp; omega)] at hpre
        cases (List.cons_prefix_cons.1 hpre).1
      have hexp : expected [] (n :: todo) = none :: expected [] todo := by
        rw [expected, if_neg (by simp; omega)]
      refine ⟨fun _ => hpos, fun h0 => absurd h0 (lt_irrefl 0), ?_⟩
      rw [List.length_nil, Nat.zero_sub]
      refine ih _ fifo' [] ⟨es, hrun⟩ ⟨hy.sys, hy.sent, hy.stream, hy.next.2, ?_, .inr ⟨rfl, hflag⟩⟩
      rw [hy.results, hexp, List.append_assoc]
      rfl
    · by_cases hlt : rest.length < n
      · obtain ⟨y, hxy, hc, hw, hm, hpc⟩ := hb.stuck rd hx hn hrest hlt
        obtain ⟨es, hrun⟩ := hr.trans hxy
        exact absurd hpc ((h _ es y hrun).2 hc hw hm n)
      · have hle := not_lt.1 hlt
        obtain ⟨fifo', bs, hxy, hflag⟩ := hb.read rd hx hn hrest hle
        obtain ⟨es, hrun⟩ := hr.trans hxy
        have hexp : expected rest (n :: todo) =
            some (rest.take n) :: expected (rest.drop n) todo := by
          rw [expected, if_pos hle]
        have hpre := (h _ es _ hrun).1
        rw [hb.results, List.prefix_append_right_inj, hexp] at hpre
        obtain rfl := Option.some.inj (List.cons_prefix_cons.1 hpre).1
        refine ⟨fun h0 => ?_, fun _ => hle, ?_⟩
        · exact absurd (List.length_eq_zero_iff.1 h0) hrest
        · rw [← List.length_drop]
          refine ih _ fifo' (rest.drop n) ⟨es, hrun⟩
            ⟨rfl, by rw [hb.sent], ?_, hb.next.2, ?_, .inl ⟨(hb.opened hrest).1, hflag⟩⟩
          · rw [hb.stream, List.append_assoc, List.take_append_drop]
          · rw [hb.results, hexp, List.append_assoc]
            rfl

/-- The end of the stream is as the reads expect it, in every interleaving and
whenever the FIFO is closed, exactly where they end with the stream and go on with at
least one byte. -/
theorem endOfStream_iff (hS : 0 < S) (hns : ∀ n ∈ ns, n ≤ S) :
    EndOfStream S T ns rd ↔ Ends T.length ns := by
  refine ⟨fun h => ?_, endOfStream_of_ends hS⟩
  exact ends_of_endOfStream hS hns h ns _ (initializeFifo (fun _ => 0) S) T (.refl _)
    ⟨rfl, rfl, rfl, rfl, rfl, .inl ⟨rfl, rfl⟩⟩

/-- Two bytes read as two and then at the end. -/
theorem endOfStream_iff_run : EndOfStream 4 [1, 2] [2, 1] () :=
  (endOfStream_iff (by decide) (by decide)).2 ⟨by decide, by decide, by decide, by decide, trivial⟩

/-- One byte committed, a read of two: asleep for ever on the closed FIFO. -/
theorem short_rest_not_ended : ¬ EndOfStream 4 [1] [2] () := by
  intro h
  have hends := ends_of_endOfStream (by decide) (by decide) h [2] _ (initializeFifo (fun _ => 0) 4)
    [1] (.refl _) ⟨rfl, rfl, rfl, rfl, rfl, .inl ⟨rfl, rfl⟩⟩
  exact absurd (hends.2.1 (by decide)) (by decide)

end Contract
end Noaaport.Fifo
