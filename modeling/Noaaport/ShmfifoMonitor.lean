import Noaaport.ShmfifoLocks

/-! The three semaphores of `shmfifo.c` make a monitor: mutual exclusion, no false
alarm of the owner checks, no lost wake-up. -/
namespace Noaaport.Shmfifo
open Lib

variable {shm : Shmhandle} {s t : Procs} {p q : Role} {k : Pc} {e : LockEvent}

section Places

/-- Not in the second `shmfifo_printmemstatus` of `shmfifo_get`. -/
def Pc.Calm : Pc → Prop
  | .getval site | .getpid site _ | .semop site => site ≠ .innerLock ∧ site ≠ .innerUnlock
  | _ => True

/-- What a value of SI_LOCK that `p` has read means while it has yet to read the
pid: when it is 0, `p` cannot be the last process for `checkUnlocked`, and it is
0 for `checkLocked`. -/
def Read (pid : Option Role) (p : Role) : Pc → Prop
  | .getpid site semval => if site.locks then semval = 0 → pid ≠ some p else semval = 0
  | _ => True

theorem Site.inside_eq {site : Site} (h : site ≠ .innerLock ∧ site ≠ .innerUnlock) :
    site.inside = !site.locks := by
  cases site <;> simp_all [Site.inside, Site.locks]

theorem Read.other {pid : Option Role} (h : Read pid q k) (hne : q ≠ p) : Read (some p) q k := by
  cases k with
  | getpid site semval =>
    simp only [Read] at h ⊢
    split_ifs with hl
    · intro _ heq
      exact hne (Option.some.inj heq).symm
    · rwa [if_neg hl] at h
  | _ => trivial

/-- Where a call that succeeds leads. -/
theorem Site.next_take {site : Site} (h : site ≠ .innerLock) (hl : site.locks = true) :
    (site.next p true).Inside ∧ (site.next p true).Calm ∧ Read (some p) p (site.next p true) := by
  cases site <;> cases p <;> simp_all [Site.next, Site.locks, Pc.Inside, Pc.Calm, Read, Site.inside]

theorem Site.next_give {site : Site} (h : site ≠ .innerUnlock) (hl : site.locks = false)
    (hn : site ≠ .notify) :
    ¬ (site.next p true).Inside ∧ (site.next p true).Calm ∧ Read (some p) p (site.next p true) := by
  cases site <;> simp_all [Site.next, Site.locks, Pc.Inside, Pc.Calm, Read, Site.inside]

/-- Memory is looked at inside, and all that changes is the segment, the reader's
`header` and the place. -/
theorem work_goto (h : work shm s p = some t) : (s.pc p).Inside ∧
    ∃ seg header k, t = { s.goto p k with seg, header } ∧ k.Inside ∧ k.Calm ∧
      ∀ pid, Read pid p k := by
  cases p with
  | writer =>
    simp only [work] at h
    cases hpc : s.pc .writer <;> simp only [hpc, writerWork, reduceCtorEq] at h
    case size =>
      refine ⟨trivial, ?_⟩
      split_ifs at h <;> cases h <;>
        exact ⟨_, _, _, rfl, by simp [Pc.Inside, Site.inside], by simp [Pc.Calm], fun _ => trivial⟩
    case test =>
      refine ⟨trivial, ?_⟩
      split_ifs at h <;> cases h <;>
        exact ⟨_, _, _, rfl, by simp [Pc.Inside, Site.inside], by simp [Pc.Calm], fun _ => trivial⟩
    case header =>
      cases h
      exact ⟨trivial, _, _, _, rfl, trivial, trivial, fun _ => trivial⟩
    case body =>
      cases h
      exact ⟨trivial, _, _, _, rfl, rfl, by simp [Pc.Calm], fun _ => trivial⟩
  | reader =>
    simp only [work] at h
    cases hpc : s.pc .reader <;> simp only [hpc, readerWork, reduceCtorEq] at h
    case test =>
      refine ⟨trivial, ?_⟩
      split_ifs at h <;> cases h <;>
        exact ⟨_, _, _, rfl, by simp [Pc.Inside, Site.inside], by simp [Pc.Calm], fun _ => trivial⟩
    case header =>
      refine ⟨trivial, ?_⟩
      split at h
      · cases h
      · cases h
        exact ⟨_, _, _, rfl, trivial, trivial, fun _ => trivial⟩
    case check =>
      refine ⟨trivial, ?_⟩
      split_ifs at h <;> cases h <;>
        exact ⟨_, _, _, rfl, by simp [Pc.Inside, Site.inside], by simp [Pc.Calm], fun _ => trivial⟩
    case body =>
      refine ⟨trivial, ?_⟩
      split at h
      · cases h
      · cases h
        exact ⟨_, _, _, rfl, trivial, trivial, fun _ => trivial⟩

end Places

/-- Who is inside, and what SI_LOCK and its pid say about it. -/
structure Mutual (s : Procs) (o : Option Role) : Prop where
  owned : Owned Pc.Inside s.pc o
  free : o = none → s.lock = 1
  taken : ∀ p, o = some p → s.lock = 0 ∧ s.pid = some p
  read : ∀ p, Read s.pid p (s.pc p)
  calm : ∀ p, (s.pc p).Calm

section Mutual
variable {o : Option Role}

theorem goto_self (s : Procs) (p : Role) (k : Pc) : (s.goto p k).pc p = k :=
  Function.update_self ..

theorem goto_of_ne (s : Procs) {p q : Role} (k : Pc) (h : q ≠ p) : (s.goto p k).pc q = s.pc q :=
  Function.update_of_ne h ..

/-- What is true of every place stays so where one process goes on. -/
theorem goto_forall {P : Role → Pc → Prop} (h : ∀ q, q ≠ p → P q (s.pc q)) (hk : P p k) (q : Role) :
    P q ((s.goto p k).pc q) := by
  by_cases hq : q = p
  · subst q
    rw [goto_self]
    exact hk
  · rw [goto_of_ne s k hq]
    exact h q hq

/-- A step that leaves the semaphore alone. -/
theorem Mutual.stay (h : Mutual s o) (hin : k.Inside ↔ (s.pc p).Inside) (hc : k.Calm)
    (hr : Read s.pid p k) (hpc : t.pc = (s.goto p k).pc) (hlock : t.lock = s.lock)
    (hpid : t.pid = s.pid) : Mutual t o where
  owned := by
    rw [hpc]
    exact h.owned.stay hin
  free := by
    rw [hlock]
    exact h.free
  taken := by
    rw [hlock, hpid]
    exact h.taken
  read := by
    rw [hpc, hpid]
    exact goto_forall (P := fun q k => Read s.pid q k) (fun q _ => h.read q) hr
  calm := by
    rw [hpc]
    exact goto_forall (P := fun _ k => k.Calm) (fun q _ => h.calm q) hc

theorem Mutual.take (h : Mutual s o) (hfree : 0 < s.lock) (hin : k.Inside) (hc : k.Calm)
    (hr : Read (some p) p k) (hpc : t.pc = (s.goto p k).pc) (hlock : t.lock = s.lock - 1)
    (hpid : t.pid = some p) : Mutual t (some p) := by
  have ho : o = none := by
    cases o with
    | none => rfl
    | some q =>
      rw [(h.taken q rfl).1] at hfree
      exact absurd hfree (lt_irrefl 0)
  subst o
  refine ⟨?_, nofun, ?_, ?_, ?_⟩
  · rw [hpc]
    exact h.owned.enter hin
  · rintro q hq
    cases hq
    rw [hlock, h.free rfl]
    exact ⟨rfl, hpid⟩
  · rw [hpc, hpid]
    exact goto_forall (P := fun q k => Read (some p) q k) (fun q hq => (h.read q).other hq) hr
  · rw [hpc]
    exact goto_forall (P := fun _ k => k.Calm) (fun q _ => h.calm q) hc

theorem Mutual.give (h : Mutual s o) (hin : (s.pc p).Inside) (hout : ¬ k.Inside) (hc : k.Calm)
    (hr : Read (some p) p k) (hpc : t.pc = (s.goto p k).pc) (hlock : t.lock = s.lock + 1)
    (hpid : t.pid = some p) : Mutual t none := by
  have ho := (h.owned p).1 hin
  subst o
  refine ⟨?_, ?_, nofun, ?_, ?_⟩
  · rw [hpc]
    exact h.owned.leave hout
  · intro _
    rw [hlock, (h.taken p rfl).1]
  · rw [hpc, hpid]
    exact goto_forall (P := fun q k => Read (some p) q k) (fun q hq => (h.read q).other hq) hr
  · rw [hpc]
    exact goto_forall (P := fun _ k => k.Calm) (fun q _ => h.calm q) hc

/-- GETVAL reads what `Read` says, -/
theorem Mutual.getval (h : Mutual s o) {site : Site} (hpc : s.pc p = .getval site) :
    Read s.pid p (.getpid site s.lock) := by
  have hcalm := h.calm p
  rw [hpc] at hcalm
  have hin := h.owned p
  rw [hpc] at hin
  simp only [Pc.Inside, Site.inside_eq hcalm] at hin
  simp only [Read]
  split_ifs with hl
  · intro hz hpid
    rw [hl] at hin
    cases o with
    | none =>
      rw [h.free rfl] at hz
      cases hz
    | some q =>
      rw [(h.taken q rfl).2] at hpid
      cases hin.2 hpid
  · rw [Bool.not_eq_true] at hl
    rw [hl] at hin
    exact (h.taken p (hin.1 rfl)).1

/-- so no check ever fails. -/
theorem Mutual.passes (h : Mutual s o) {site : Site} {semval : Nat}
    (hpc : s.pc p = .getpid site semval) : site.passes p semval s.pid = true := by
  have hcalm := h.calm p
  have hread := h.read p
  have hin := h.owned p
  rw [hpc] at hcalm hread hin
  simp only [Pc.Inside, Site.inside_eq hcalm] at hin
  simp only [Read] at hread
  unfold Site.passes
  split_ifs at hread ⊢ with hl
  · simpa [imp_iff_not_or] using hread
  · rw [Bool.not_eq_true] at hl
    rw [hl] at hin
    simpa [hread] using (h.taken p (hin.1 rfl)).2

/-- One step, debug logging off in the locked section of `shmfifo_get`. -/
theorem Mutual.step (h : Mutual s o) (hs : LockStep shm s e t) (he : e ≠ .inner true) :
    (∃ o', Mutual t o') ∧ ∀ p site, e ≠ .error p site := by
  cases hs with
  | put data hpc hfits =>
    refine ⟨⟨o, h.stay (p := .writer) (k := .stat) ?_ trivial trivial rfl rfl rfl⟩, nofun⟩
    rw [hpc]
    rfl
  | get sz hpc hsz =>
    refine ⟨⟨o, h.stay (p := .reader) (k := .stat) ?_ trivial trivial rfl rfl rfl⟩, nofun⟩
    rw [hpc]
    rfl
  | stat p debug hpc =>
    refine ⟨⟨o, h.stay (p := p) (k := .getval (if debug then .statLock else .lock)) ?_ ?_ trivial
      rfl rfl rfl⟩, nofun⟩
    · rw [hpc]
      cases debug <;> simp [Pc.Inside, Site.inside]
    · cases debug <;> simp [Pc.Calm]
  | innerStat p debug hpc =>
    cases debug with
    | true => exact absurd rfl he
    | false =>
      refine ⟨⟨o, h.stay (p := p) (k := .getval .notify) ?_ (by simp [Pc.Calm]) trivial rfl rfl
        rfl⟩, nofun⟩
      rw [hpc]
      simp [Pc.Inside, Site.inside]
  | getval p site hpc =>
    have hcalm := h.calm p
    rw [hpc] at hcalm
    refine ⟨⟨o, h.stay (p := p) (k := .getpid site s.lock) ?_ hcalm (h.getval hpc) rfl rfl rfl⟩,
      nofun⟩
    rw [hpc]
    rfl
  | getpid p site semval hpc hok =>
    have hcalm := h.calm p
    rw [hpc] at hcalm
    refine ⟨⟨o, h.stay (p := p) (k := .semop site) ?_ hcalm trivial rfl rfl rfl⟩, nofun⟩
    rw [hpc]
    rfl
  | refused p site semval hpc hbad =>
    rw [h.passes hpc] at hbad
    cases hbad
  | take p site hpc hsite hfree =>
    have hcalm := h.calm p
    rw [hpc] at hcalm
    obtain ⟨hin, hc, hr⟩ := Site.next_take (p := p) hcalm.1 hsite
    exact ⟨⟨_, h.take hfree hin hc hr rfl rfl rfl⟩, nofun⟩
  | give p site hpc hsite hnote =>
    have hcalm := h.calm p
    rw [hpc] at hcalm
    obtain ⟨hout, hc, hr⟩ := Site.next_give (p := p) hcalm.2 hsite hnote
    have hin : (s.pc p).Inside := by
      rw [hpc]
      simp [Pc.Inside, Site.inside_eq hcalm, hsite]
    exact ⟨⟨_, h.give hin hout hc hr rfl rfl rfl⟩, nofun⟩
  | set p hpc =>
    refine ⟨⟨o, h.stay (p := p) (k := .getval .unlock) ?_ (by simp [Pc.Calm]) trivial rfl rfl rfl⟩,
      nofun⟩
    rw [hpc]
    rfl
  | wake p hpc hnote =>
    refine ⟨⟨o, h.stay (p := p) (k := .getval .waitLock) ?_ (by simp [Pc.Calm]) trivial rfl rfl
      rfl⟩, nofun⟩
    rw [hpc]
    simp [Pc.Inside, Site.inside]
  | work p s' hwork =>
    obtain ⟨hin, seg, header, k, rfl, hk, hc, hr⟩ := work_goto hwork
    exact ⟨⟨o, h.stay (iff_of_true hk hin) hc (hr _) rfl rfl rfl⟩, nofun⟩

end Mutual

section Halves
variable {l c : Nat} {s₀ s₁ : Segment} {q : List (List UInt8)} {d : List UInt8}

/-- The second half of a put. -/
theorem put_half (h : Queued shm l c s₀ q) (hd : d ≠ [])
    (hroom : d.length + sizeofShmbh < shmfifoLlMemfree shm s₀)
    (hs₁ : s₁ = (shmfifoLlPut shm s₀ (Shmbh.bytes d.length)).2) :
    Queued shm l c (shmfifoLlPut shm s₁ d).2 (q ++ [d]) := by
  obtain ⟨s₂, hp, hq, -⟩ := put_append h hd hroom
  rw [putRetry, if_neg (not_le.2 hroom)] at hp
  cases hp
  rw [hs₁]
  exact hq

/-- The halves of a get: after the header there is a record's length of data, and 8
more bytes are free; taking the header back undoes this, and the data follows. -/
theorem get_half (h : Queued shm l c s₀ (d :: q)) (hsz : shm.sz < 2 ^ 31) {hdr : List UInt8}
    {n : Int} (hg : shmfifoLlGet shm s₀ sizeofShmbh = .ret n hdr s₁) :
    Shmbh.ofBytes hdr = ⟨d.length, deadbeef⟩ ∧ (d.length : Int) ≤ shmfifoLlMemused shm s₁ ∧
      shmfifoLlMemfree shm s₁ = shmfifoLlMemfree shm s₀ + 8 ∧
      Queued shm l c (shmfifoLlHrewind shm s₁) (d :: q) ∧
      shmfifoLlMemfree shm (shmfifoLlHrewind shm s₁) = shmfifoLlMemfree shm s₀ ∧
      ∃ st s₂, shmfifoLlGet shm s₁ d.length = .ret st d s₂ ∧ Queued shm l c s₂ q := by
  obtain ⟨r, u, s', ha, hu, -, hg', hh, ha', -, -⟩ := get_header h hsz
  rw [hg'] at hg
  cases hg
  have hback := ha'.hrewind ha.r_lt ha.u_lt (by omega)
  have hpass : ∀ {sz : Int} {r : GetPass}, shmfifoGet shm s₀ sz = r →
      (d.length : Int) > sz ∧ r = .ret EINVAL none (shmfifoLlHrewind shm s₁) ∨
      r = .abort ∨ ∃ st data s₂, shmfifoLlGet shm s₁ d.length = .ret st data s₂ ∧
        r = .ret 0 (some data) s₂ := by
    intro sz r hr
    rw [shmfifoGet, ha.memused, if_neg (by omega), if_neg (by rw [sizeofShmbh]; omega), hg'] at hr
    simp only [hh] at hr
    rw [if_neg (by simp), ha'.memused, if_neg (by omega)] at hr
    split_ifs at hr with hlt
    · exact .inl ⟨hlt, hr.symm⟩
    · split at hr
      · exact .inr (.inl hr.symm)
      · next st data s₂ hdata => exact .inr (.inr ⟨st, data, s₂, hdata, hr.symm⟩)
  refine ⟨hh, ?_, ?_, ?_, ?_, ?_⟩
  · rw [ha'.memused]
    omega
  · rw [ha'.memfree, ha.memfree]
    omega
  · obtain ⟨s₃, hget, hq, -⟩ := get_small h hsz (show (-1 : Int) < d.length by omega)
    obtain ⟨-, h₃⟩ | h₃ | ⟨st, data, s₂, -, h₃⟩ := hpass hget
    · cases h₃
      exact hq
    · cases h₃
    · cases h₃
  · rw [hback.memfree, ha.memfree]
  · obtain ⟨s₂, hget, hq, -⟩ := get_head h hsz (le_refl (d.length : Int))
    obtain ⟨-, h₂⟩ | h₂ | ⟨st, data, s₃, hdata, h₂⟩ := hpass hget
    · cases h₂
    · cases h₂
    · cases h₂
      exact ⟨st, s₂, hdata, hq⟩

end Halves

/-- Between two halves, or about to begin the first. -/
def Pc.Busy : Pc → Prop
  | .header | .check | .body => True
  | _ => False

/-- The records in the segment; the header of the one that is being put or got may
be there alone, or be gone. -/
structure Records (shm : Shmhandle) (l c : Nat) (s : Procs) : Prop where
  fits : s.pc .writer ≠ .idle → Fits shm s.data
  room : s.pc .writer = .header → s.data.length + sizeofShmbh < shmfifoLlMemfree shm s.seg
  filled : s.pc .reader = .header → shmfifoLlMemused shm s.seg ≠ 0
  whole : s.pc .writer ≠ .body → s.pc .reader ≠ .check → s.pc .reader ≠ .body →
    ∃ q, Queued shm l c s.seg q
  putting : s.pc .writer = .body → ∃ s₀ q, Queued shm l c s₀ q ∧
    s.data.length + sizeofShmbh < shmfifoLlMemfree shm s₀ ∧
    s.seg = (shmfifoLlPut shm s₀ (Shmbh.bytes s.data.length)).2
  getting : s.pc .reader = .check ∨ s.pc .reader = .body → ∃ s₀ d q n hdr,
    Queued shm l c s₀ (d :: q) ∧ shmfifoLlGet shm s₀ sizeofShmbh = .ret n hdr s.seg ∧
    s.header = Shmbh.ofBytes hdr

section Records
variable {l c : Nat}

/-- A step that does not touch the segment, of a process that is not between halves. -/
theorem Records.move (h : Records shm l c s) (hp : ¬ (s.pc p).Busy) (hk : ¬ k.Busy)
    (hpc : t.pc = (s.goto p k).pc) (hseg : t.seg = s.seg) (hheader : t.header = s.header)
    (hdata : p = .reader → t.data = s.data)
    (hfits : p = .writer → k ≠ .idle → Fits shm t.data) : Records shm l c t := by
  cases p with
  | writer =>
    have hw : t.pc .writer = k := by rw [hpc, goto_self]
    have hr : t.pc .reader = s.pc .reader := by rw [hpc, goto_of_ne s k (by decide)]
    refine ⟨?_, ?_, ?_, ?_, ?_, ?_⟩
    · rw [hw]
      exact hfits rfl
    · rw [hw]
      rintro rfl
      exact absurd trivial hk
    · rw [hr, hseg]
      exact h.filled
    · rw [hr, hseg]
      refine fun _ => h.whole fun hbody => ?_
      rw [hbody] at hp
      exact hp trivial
    · rw [hw]
      rintro rfl
      exact absurd trivial hk
    · rw [hr, hseg, hheader]
      exact h.getting
  | reader =>
    have hr : t.pc .reader = k := by rw [hpc, goto_self]
    have hw : t.pc .writer = s.pc .writer := by rw [hpc, goto_of_ne s k (by decide)]
    refine ⟨?_, ?_, ?_, ?_, ?_, ?_⟩
    · rw [hw, hdata rfl]
      exact h.fits
    · rw [hw, hdata rfl, hseg]
      exact h.room
    · rw [hr]
      rintro rfl
      exact absurd trivial hk
    · rw [hw, hseg]
      refine fun hbody _ _ => h.whole hbody ?_ ?_
      · intro hcheck
        rw [hcheck] at hp
        exact hp trivial
      · intro hbody
        rw [hbody] at hp
        exact hp trivial
    · rw [hw, hdata rfl, hseg]
      exact h.putting
    · rw [hr]
      rintro (rfl | rfl) <;> exact absurd trivial hk

/-- A process that is not inside is not between halves. -/
theorem Pc.Busy.inside (h : k.Busy) : k.Inside := by
  cases k <;> trivial

/-- The same for a process in the middle of a call. -/
theorem Records.on (h : Records shm l c s) {k₀ : Pc} (h₀ : s.pc p = k₀) (hp : ¬ k₀.Busy)
    (hidle : k₀ ≠ .idle) (hk : ¬ k.Busy) (hpc : t.pc = (s.goto p k).pc) (hseg : t.seg = s.seg)
    (hheader : t.header = s.header) (hdata : t.data = s.data) : Records shm l c t := by
  subst k₀
  refine h.move hp hk hpc hseg hheader (fun _ => hdata) ?_
  rintro rfl -
  rw [hdata]
  exact h.fits hidle

/-- A step of the writer leaves nothing of the reader to be said, -/
theorem Records.ofWriter (hpc : t.pc = (s.goto .writer k).pc) (hfits : Fits shm t.data)
    (hr : ¬ (s.pc .reader).Busy)
    (hroom : k = .header → t.data.length + sizeofShmbh < shmfifoLlMemfree shm t.seg)
    (hwhole : k ≠ .body → ∃ q, Queued shm l c t.seg q)
    (hputting : k = .body → ∃ s₀ q, Queued shm l c s₀ q ∧
      t.data.length + sizeofShmbh < shmfifoLlMemfree shm s₀ ∧
      t.seg = (shmfifoLlPut shm s₀ (Shmbh.bytes t.data.length)).2) : Records shm l c t := by
  have hw : t.pc .writer = k := by rw [hpc, goto_self]
  rw [← goto_of_ne s k (show Role.reader ≠ .writer by decide), ← hpc] at hr
  refine ⟨fun _ => hfits, by rwa [hw], fun hh => ?_, fun hb _ _ => hwhole (by rwa [hw] at hb),
    by rwa [hw], ?_⟩
  · rw [hh] at hr
    exact absurd trivial hr
  · rintro (hh | hh) <;>
    · rw [hh] at hr
      exact absurd trivial hr

theorem Records.of_writerWork (h : Records shm l c s) (hr : ¬ (s.pc .reader).Busy)
    (hs : work shm s .writer = some t) : Records shm l c t := by
  have hrest : s.pc .writer ≠ .body → ∃ q, Queued shm l c s.seg q := by
    intro hw
    refine h.whole hw ?_ ?_ <;>
    · intro hpc
      rw [hpc] at hr
      exact hr trivial
  simp only [work] at hs
  cases hpc : s.pc .writer <;> simp only [hpc, writerWork, reduceCtorEq] at hs
  case size =>
    split_ifs at hs
    · cases hs
      exact h.on (k := .getval .unlock) hpc not_false (by simp) not_false rfl rfl rfl rfl
    · cases hs
      exact h.on (k := .test) hpc not_false (by simp) not_false rfl rfl rfl rfl
  case test =>
    split_ifs at hs with hroom
    · cases hs
      exact h.on (k := .getval .waitUnlock) hpc not_false (by simp) not_false rfl rfl rfl rfl
    · cases hs
      exact Records.ofWriter (k := .header) rfl (h.fits (by simp [hpc])) hr
        (fun _ => not_le.1 hroom) (fun _ => hrest (by simp [hpc])) nofun
  case header =>
    cases hs
    obtain ⟨q, hq⟩ := hrest (by simp [hpc])
    exact Records.ofWriter (k := .body) rfl (h.fits (by simp [hpc])) hr nofun
      (fun hn => absurd rfl hn) (fun _ => ⟨s.seg, q, hq, h.room hpc, rfl⟩)
  case body =>
    cases hs
    obtain ⟨s₀, q, hq, hroom, hseg⟩ := h.putting hpc
    have hfits := h.fits (by simp [hpc])
    exact Records.ofWriter (k := .getval .notify) rfl hfits hr nofun
      (fun _ => ⟨_, put_half hq hfits.1 hroom hseg⟩) nofun

/-- and one of the reader nothing of the writer but its record. -/
theorem Records.ofReader (h : Records shm l c s) (hpc : t.pc = (s.goto .reader k).pc)
    (hdata : t.data = s.data) (hw : ¬ (s.pc .writer).Busy)
    (hfilled : k = .header → shmfifoLlMemused shm t.seg ≠ 0)
    (hwhole : k ≠ .check → k ≠ .body → ∃ q, Queued shm l c t.seg q)
    (hgetting : k = .check ∨ k = .body → ∃ s₀ d q n hdr,
      Queued shm l c s₀ (d :: q) ∧ shmfifoLlGet shm s₀ sizeofShmbh = .ret n hdr t.seg ∧
      t.header = Shmbh.ofBytes hdr) : Records shm l c t := by
  have hr : t.pc .reader = k := by rw [hpc, goto_self]
  have hsame : t.pc .writer = s.pc .writer := by rw [hpc, goto_of_ne s k (by decide)]
  refine ⟨by rw [hsame, hdata]; exact h.fits, fun hh => ?_, by rwa [hr],
    fun _ => by rwa [hr], fun hh => ?_, by rwa [hr]⟩
  · rw [← hsame, hh] at hw
    exact absurd trivial hw
  · rw [← hsame, hh] at hw
    exact absurd trivial hw

theorem Queued.nonempty {s : Segment} {q : List (List UInt8)} (h : Queued shm l c s q)
    (hne : shmfifoLlMemused shm s ≠ 0) : ∃ d q', q = d :: q' := by
  cases q with
  | nil =>
    rw [h.used] at hne
    exact absurd rfl hne
  | cons d q' => exact ⟨d, q', rfl⟩

theorem Records.of_readerWork (h : Records shm l c s) (hsz : shm.sz < 2 ^ 31)
    (hw : ¬ (s.pc .writer).Busy) (hs : work shm s .reader = some t) : Records shm l c t := by
  have hbody : s.pc .writer ≠ .body := by
    intro hpc
    rw [hpc] at hw
    exact hw trivial
  simp only [work] at hs
  cases hpc : s.pc .reader <;> simp only [hpc, readerWork, reduceCtorEq] at hs
  case test =>
    split_ifs at hs with hempty hshort
    · cases hs
      exact h.on (k := .getval .waitUnlock) hpc not_false (by simp) not_false rfl rfl rfl rfl
    · cases hs
      exact h.on (k := .getval .unlock) hpc not_false (by simp) not_false rfl rfl rfl rfl
    · cases hs
      exact h.ofReader (k := .header) rfl rfl hw (fun _ => hempty)
        (fun _ _ => h.whole hbody (by simp [hpc]) (by simp [hpc])) (by simp)
  case header =>
    obtain ⟨q, hq⟩ := h.whole hbody (by simp [hpc]) (by simp [hpc])
    obtain ⟨d, q, rfl⟩ := hq.nonempty (h.filled hpc)
    split at hs
    · cases hs
    · next n hdr seg hg =>
      cases hs
      exact h.ofReader (k := .check) rfl rfl hw nofun (fun hc _ => absurd rfl hc)
        (fun _ => ⟨s.seg, d, q, n, hdr, hq, hg, rfl⟩)
  case check =>
    obtain ⟨s₀, d, q, n, hdr, hq, hg, hheader⟩ := h.getting (.inl hpc)
    obtain ⟨hbytes, hlen, -, hback, -, -⟩ := get_half hq hsz hg
    have hh := hheader.trans hbytes
    rw [hh] at hs
    simp only at hs
    rw [if_neg (by simp), if_neg (by omega)] at hs
    split_ifs at hs with hsmall
    · cases hs
      exact h.ofReader (k := .getval .unlock) rfl rfl hw nofun (fun _ _ => ⟨_, hback⟩) (by simp)
    · cases hs
      exact h.ofReader (k := .body) rfl rfl hw nofun (fun _ hb => absurd rfl hb)
        (fun _ => ⟨s₀, d, q, n, hdr, hq, hg, hheader⟩)
  case body =>
    obtain ⟨s₀, d, q, n, hdr, hq, hg, hheader⟩ := h.getting (.inr hpc)
    obtain ⟨hbytes, -, -, -, -, st, s₂, hg₂, hq₂⟩ := get_half hq hsz hg
    rw [hheader, hbytes, hg₂] at hs
    cases hs
    exact h.ofReader (k := .innerStat) rfl rfl hw nofun (fun _ _ => ⟨_, hq₂⟩) (by simp)

theorem Site.next_not_busy (site : Site) (p : Role) (ok : Bool) : ¬ (site.next p ok).Busy := by
  cases site <;> cases p <;> cases ok <;> simp [Site.next, Pc.Busy]

theorem Records.step {o : Option Role} (h : Records shm l c s) (hm : Mutual s o)
    (hsz : shm.sz < 2 ^ 31) (hs : LockStep shm s e t) : Records shm l c t := by
  cases hs with
  | put data hpc hfits =>
    refine h.move (p := .writer) (k := .stat) ?_ not_false rfl rfl rfl nofun fun _ _ => hfits
    rw [hpc]
    exact not_false
  | get sz hpc hsz =>
    refine h.move (p := .reader) (k := .stat) ?_ not_false rfl rfl rfl (fun _ => rfl) nofun
    rw [hpc]
    exact not_false
  | work p s' hwork =>
    obtain ⟨hin, -⟩ := work_goto hwork
    cases p with
    | writer =>
      refine h.of_writerWork (fun hb => ?_) hwork
      exact absurd (hm.owned.unique hb.inside hin) (by decide)
    | reader =>
      refine h.of_readerWork hsz (fun hb => ?_) hwork
      exact absurd (hm.owned.unique hb.inside hin) (by decide)
  | stat p debug hpc =>
    exact h.on (k := .getval (if debug then .statLock else .lock)) hpc not_false (by simp)
      not_false rfl rfl rfl rfl
  | innerStat p debug hpc =>
    exact h.on (k := .getval (if debug then .innerLock else .notify)) hpc not_false (by simp)
      not_false rfl rfl rfl rfl
  | getval p site hpc =>
    exact h.on (k := .getpid site s.lock) hpc not_false (by simp) not_false rfl rfl rfl rfl
  | getpid p site semval hpc hok =>
    exact h.on (k := .semop site) hpc not_false (by simp) not_false rfl rfl rfl rfl
  | refused p site semval hpc hbad =>
    exact h.on hpc not_false (by simp) (site.next_not_busy p false) rfl rfl rfl rfl
  | take p site hpc hsite hfree =>
    exact h.on hpc not_false (by simp) (site.next_not_busy p true) rfl rfl rfl rfl
  | give p site hpc hsite hnote =>
    exact h.on hpc not_false (by simp) (site.next_not_busy p true) rfl rfl rfl rfl
  | set p hpc =>
    exact h.on hpc not_false (by simp) (Site.notify.next_not_busy p true) rfl rfl rfl rfl
  | wake p hpc hnote =>
    exact h.on (k := .getval .waitLock) hpc not_false (by simp) not_false rfl rfl rfl rfl

end Records

/-- From the test that failed to the end of the sleep. -/
def Pc.Waits : Pc → Prop
  | .getval site | .getpid site _ | .semop site => site = .waitUnlock
  | .asleep => True
  | _ => False

/-- From a change of the segment to the notification. -/
def Pc.Announces : Pc → Prop
  | .getval site | .getpid site _ | .semop site => site = .notify
  | .body | .innerStat => True
  | _ => False

/-- A process that waits without a note has nothing to wait for to come true, or the
other one has yet to leave it a note. The header that the reader has taken may
still go back. -/
structure Waking (shm : Shmhandle) (s : Procs) : Prop where
  reader : (s.pc .reader).Waits → s.note .reader = 0 →
    shmfifoLlMemused shm s.seg = 0 ∨ (s.pc .writer).Announces
  writer : (s.pc .writer).Waits → s.note .writer = 0 →
    shmfifoLlMemfree shm s.seg ≤ s.data.length + sizeofShmbh ∨ (s.pc .reader).Announces ∨
      s.pc .reader = .check ∧
        shmfifoLlMemfree shm s.seg ≤ s.data.length + sizeofShmbh + sizeofShmbh

section Waking
variable {l c : Nat}

/-- A step that does not touch the segment, of a process that has nothing to announce
and does not begin to wait. -/
theorem Waking.move (h : Waking shm s) (hpc : t.pc = (s.goto p k).pc) (hseg : t.seg = s.seg)
    (hdata : p = .reader ∨ k.Waits → t.data = s.data)
    (hnote : ∀ q, q ≠ p ∨ k.Waits → t.note q = s.note q) (hw : k.Waits → (s.pc p).Waits)
    (ha : (s.pc p).Announces → k.Announces) (hc : s.pc p ≠ .check) : Waking shm t := by
  cases p with
  | writer =>
    have hwriter : t.pc .writer = k := by rw [hpc, goto_self]
    have hreader : t.pc .reader = s.pc .reader := by rw [hpc, goto_of_ne s k (by decide)]
    constructor
    · rw [hreader, hwriter, hseg, hnote .reader (.inl (by decide))]
      exact fun hr h0 => (h.reader hr h0).imp_right ha
    · intro hk h0
      rw [hwriter] at hk
      rw [hnote .writer (.inr hk)] at h0
      rw [hreader, hseg, hdata (.inr hk)]
      exact h.writer (hw hk) h0
  | reader =>
    have hreader : t.pc .reader = k := by rw [hpc, goto_self]
    have hwriter : t.pc .writer = s.pc .writer := by rw [hpc, goto_of_ne s k (by decide)]
    constructor
    · intro hk h0
      rw [hreader] at hk
      rw [hnote .reader (.inr hk)] at h0
      rw [hwriter, hseg]
      exact h.reader (hw hk) h0
    · rw [hwriter, hreader, hseg, hdata (.inl rfl), hnote .writer (.inl (by decide))]
      intro hwait h0
      obtain hb | hb | hb := h.writer hwait h0
      · exact .inl hb
      · exact .inr (.inl (ha hb))
      · exact absurd hb.1 hc

/-- A step of the writer inside, which does not wait before and is what the reader
may wait for, -/
theorem Waking.of_writer (hpc : t.pc = (s.goto .writer k).pc)
    (hr : (s.pc .reader).Waits → t.note .reader = 0 →
      shmfifoLlMemused shm t.seg = 0 ∨ k.Announces)
    (hw : k.Waits → shmfifoLlMemfree shm t.seg ≤ t.data.length + sizeofShmbh) : Waking shm t := by
  have hwriter : t.pc .writer = k := by rw [hpc, goto_self]
  have hreader : t.pc .reader = s.pc .reader := by rw [hpc, goto_of_ne s k (by decide)]
  constructor
  · rwa [hreader, hwriter]
  · rw [hwriter]
    exact fun hk _ => .inl (hw hk)

/-- and one of the reader. -/
theorem Waking.of_reader (hpc : t.pc = (s.goto .reader k).pc)
    (hr : k.Waits → shmfifoLlMemused shm t.seg = 0)
    (hw : (s.pc .writer).Waits → t.note .writer = 0 →
      shmfifoLlMemfree shm t.seg ≤ t.data.length + sizeofShmbh ∨ k.Announces ∨
        k = .check ∧ shmfifoLlMemfree shm t.seg ≤ t.data.length + sizeofShmbh + sizeofShmbh) :
    Waking shm t := by
  have hreader : t.pc .reader = k := by rw [hpc, goto_self]
  have hwriter : t.pc .writer = s.pc .writer := by rw [hpc, goto_of_ne s k (by decide)]
  constructor
  · rw [hreader]
    exact fun hk _ => .inl (hr hk)
  · rwa [hwriter, hreader]

theorem Waking.of_writerWork (h : Waking shm s) (hs : work shm s .writer = some t) :
    Waking shm t := by
  simp only [work] at hs
  cases hpc : s.pc .writer <;> simp only [hpc, writerWork, reduceCtorEq] at hs
  case size =>
    split_ifs at hs
    · cases hs
      exact h.move (p := .writer) (k := .getval .unlock) rfl rfl (fun _ => rfl) (fun _ _ => rfl)
        nofun (by simp [hpc, Pc.Announces]) (by simp [hpc])
    · cases hs
      exact h.move (p := .writer) (k := .test) rfl rfl (fun _ => rfl) (fun _ _ => rfl)
        False.elim (by simp [hpc, Pc.Announces]) (by simp [hpc])
  case test =>
    have hr : (s.pc .reader).Waits → s.note .reader = 0 → shmfifoLlMemused shm s.seg = 0 := by
      intro hwait h0
      refine (h.reader hwait h0).resolve_right ?_
      simp [hpc, Pc.Announces]
    split_ifs at hs with hroom
    · cases hs
      exact Waking.of_writer (k := .getval .waitUnlock) rfl (fun hwait h0 => .inl (hr hwait h0))
        fun _ => hroom
    · cases hs
      exact Waking.of_writer (k := .header) rfl (fun hwait h0 => .inl (hr hwait h0)) False.elim
  case header =>
    cases hs
    exact Waking.of_writer (k := .body) rfl (fun _ _ => .inr trivial) False.elim
  case body =>
    cases hs
    exact Waking.of_writer (k := .getval .notify) rfl (fun _ _ => .inr rfl) nofun

theorem Waking.of_readerWork (h : Waking shm s) (hrec : Records shm l c s)
    (hsz : shm.sz < 2 ^ 31) (hw : ¬ (s.pc .writer).Busy) (hs : work shm s .reader = some t) :
    Waking shm t := by
  have hbody : s.pc .writer ≠ .body := by
    intro hpc
    rw [hpc] at hw
    exact hw trivial
  simp only [work] at hs
  cases hpc : s.pc .reader <;> simp only [hpc, readerWork, reduceCtorEq] at hs
  case test =>
    have hblocked : (s.pc .writer).Waits → s.note .writer = 0 →
        shmfifoLlMemfree shm s.seg ≤ s.data.length + sizeofShmbh := by
      intro hwait h0
      have hb := h.writer hwait h0
      simpa [hpc, Pc.Announces] using hb
    split_ifs at hs with hempty hshort
    · cases hs
      exact Waking.of_reader (k := .getval .waitUnlock) rfl (fun _ => hempty)
        fun hwait h0 => .inl (hblocked hwait h0)
    · cases hs
      exact Waking.of_reader (k := .getval .unlock) rfl nofun
        fun hwait h0 => .inl (hblocked hwait h0)
    · cases hs
      exact Waking.of_reader (k := .header) rfl False.elim
        fun hwait h0 => .inl (hblocked hwait h0)
  case header =>
    obtain ⟨q, hq⟩ := hrec.whole hbody (by simp [hpc]) (by simp [hpc])
    obtain ⟨d, q, rfl⟩ := hq.nonempty (hrec.filled hpc)
    split at hs
    · cases hs
    · next n hdr seg hg =>
      cases hs
      obtain ⟨-, -, hfree, -⟩ := get_half hq hsz hg
      refine Waking.of_reader (k := .check) rfl False.elim fun hwait h0 => .inr (.inr ⟨rfl, ?_⟩)
      have hb := h.writer hwait h0
      simp [hpc, Pc.Announces] at hb
      change shmfifoLlMemfree shm seg ≤ s.data.length + 8 + 8
      change _ ≤ (s.data.length : Int) + 8 at hb
      omega
  case check =>
    obtain ⟨s₀, d, q, n, hdr, hq, hg, hheader⟩ := hrec.getting (.inl hpc)
    obtain ⟨hbytes, hlen, hfree, -, hback, -⟩ := get_half hq hsz hg
    rw [hheader.trans hbytes] at hs
    simp only at hs
    rw [if_neg (by simp), if_neg (by omega)] at hs
    split_ifs at hs with hsmall
    · cases hs
      refine Waking.of_reader (k := .getval .unlock) rfl nofun fun hwait h0 => .inl ?_
      change shmfifoLlMemfree shm (shmfifoLlHrewind shm s.seg) ≤ s.data.length + 8
      rw [hback]
      obtain hb | hb | ⟨-, hb⟩ := h.writer hwait h0
      · rw [hfree, sizeofShmbh] at hb
        omega
      · rw [hpc] at hb
        cases hb
      · rw [hfree, sizeofShmbh] at hb
        omega
    · cases hs
      exact Waking.of_reader (k := .body) rfl False.elim fun _ _ => .inr (.inl trivial)
  case body =>
    split at hs
    · cases hs
    · cases hs
      exact Waking.of_reader (k := .innerStat) rfl False.elim fun _ _ => .inr (.inl trivial)

theorem Site.next_waits {site : Site} {ok : Bool} (h : (site.next p ok).Waits) :
    site = .waitUnlock := by
  cases site <;> cases p <;> cases ok <;> simp_all [Site.next, Pc.Waits]

theorem Waking.step {o : Option Role} (h : Waking shm s) (hrec : Records shm l c s)
    (hm : Mutual s o) (hsz : shm.sz < 2 ^ 31) (hs : LockStep shm s e t) (he : e ≠ .inner true) :
    Waking shm t := by
  cases hs with
  | put data hpc hfits =>
    exact h.move (p := .writer) (k := .stat) rfl rfl (by simp [Pc.Waits]) (fun _ _ => rfl)
      False.elim (by simp [hpc, Pc.Announces]) (by simp [hpc])
  | get sz hpc hsz =>
    exact h.move (p := .reader) (k := .stat) rfl rfl (fun _ => rfl) (fun _ _ => rfl) False.elim
      (by simp [hpc, Pc.Announces]) (by simp [hpc])
  | stat p debug hpc =>
    refine h.move (p := p) (k := .getval (if debug then .statLock else .lock)) rfl rfl
      (fun _ => rfl) (fun _ _ => rfl) ?_ (by simp [hpc, Pc.Announces]) (by simp [hpc])
    cases debug <;> exact nofun
  | innerStat p debug hpc =>
    cases debug with
    | true => exact absurd rfl he
    | false =>
      exact h.move (p := p) (k := .getval .notify) rfl rfl (fun _ => rfl) (fun _ _ => rfl) nofun
        (fun _ => rfl) (by simp [hpc])
  | getval p site hpc =>
    exact h.move (p := p) (k := .getpid site s.lock) rfl rfl (fun _ => rfl) (fun _ _ => rfl)
      (by simp [hpc, Pc.Waits]) (by simp [hpc, Pc.Announces]) (by simp [hpc])
  | getpid p site semval hpc hok =>
    exact h.move (p := p) (k := .semop site) rfl rfl (fun _ => rfl) (fun _ _ => rfl)
      (by simp [hpc, Pc.Waits]) (by simp [hpc, Pc.Announces]) (by simp [hpc])
  | refused p site semval hpc hbad =>
    rw [hm.passes hpc] at hbad
    cases hbad
  | take p site hpc hsite hfree =>
    refine h.move (p := p) (k := site.next p true) rfl rfl (fun _ => rfl) (fun _ _ => rfl)
      (fun hw => ?_) (fun ha => ?_) (by simp [hpc])
    · rw [hpc]
      exact Site.next_waits hw
    · rw [hpc] at ha
      cases ha
      cases hsite
  | give p site hpc hsite hnote =>
    refine h.move (p := p) (k := site.next p true) rfl rfl (fun _ => rfl) (fun _ _ => rfl)
      (fun hw => ?_) (fun ha => ?_) (by simp [hpc])
    · rw [hpc]
      exact Site.next_waits hw
    · rw [hpc] at ha
      exact absurd ha hnote
  | set p hpc =>
    -- the other one has its note now
    cases p with
    | writer =>
      exact Waking.of_writer (k := .getval .unlock) rfl nofun nofun
    | reader =>
      exact Waking.of_reader (k := .getval .unlock) rfl nofun nofun
  | wake p hpc hnote =>
    refine h.move (p := p) (k := .getval .waitLock) rfl rfl (fun _ => rfl) (fun q hq => ?_)
      nofun (by simp [hpc, Pc.Announces]) (by simp [hpc])
    obtain hq | hq := hq
    · exact Function.update_of_ne hq ..
    · cases hq
  | work p s' hwork =>
    obtain ⟨hin, -⟩ := work_goto hwork
    cases p with
    | writer => exact h.of_writerWork hwork
    | reader =>
      refine h.of_readerWork hrec hsz (fun hb => ?_) hwork
      exact absurd (hm.owned.unique hb.inside hin) (by decide)

end Waking

/-- What every reachable state meets. -/
structure Monitored (shm : Shmhandle) (l c : Nat) (s : Procs) : Prop where
  mutual_ : ∃ o, Mutual s o
  records : Records shm l c s
  waking : Waking shm s

theorem Monitored.step {l c : Nat} (h : Monitored shm l c s) (hsz : shm.sz < 2 ^ 31)
    (he : e ≠ .inner true) (hs : LockStep shm s e t) :
    Monitored shm l c t ∧ ∀ p site, e ≠ .error p site := by
  obtain ⟨o, hm⟩ := h.mutual_
  obtain ⟨hm', hok⟩ := hm.step hs he
  exact ⟨⟨hm', h.records.step hm hsz hs, h.waking.step h.records hm hsz hs he⟩, hok⟩

theorem monitored_init {l c : Nat} (mem : Mem UInt8) (counter : Int) (pid : Option Role)
    (hlow : shm.low = l) (hsz : shm.sz = l + c) (hc : 0 < c) :
    Monitored shm l c (Procs.init shm mem counter pid) where
  mutual_ := ⟨none, fun _ => ⟨False.elim, nofun⟩, fun _ => rfl, nofun, fun _ => trivial,
    fun _ => trivial⟩
  records :=
    { fits := fun h => absurd rfl h
      room := nofun
      filled := nofun
      whole := fun _ _ _ => ⟨[], queued_create mem counter hlow hsz hc⟩
      putting := nofun
      getting := by rintro (h | h) <;> cases h }
  waking := ⟨False.elim, False.elim⟩

/-- Nobody is inside while SI_LOCK is not 0, so then a sleeper without a note has
nothing to wake up for. -/
theorem Monitored.asleep {l c : Nat} (h : Monitored shm l c s)
    (hfree : ∀ p, ¬ (s.pc p).Inside) :
    (s.pc .reader = .asleep → s.note .reader = 0 → shmfifoLlMemused shm s.seg = 0) ∧
      (s.pc .writer = .asleep → s.note .writer = 0 →
        shmfifoLlMemfree shm s.seg ≤ s.data.length + sizeofShmbh) := by
  have hquiet : ∀ p, ¬ (s.pc p).Announces := by
    intro p ha
    refine hfree p ?_
    cases hk : s.pc p <;> rw [hk] at ha <;> simp_all [Pc.Announces, Pc.Inside, Site.inside]
  constructor
  · intro hpc h0
    exact (h.waking.reader (by rw [hpc]; trivial) h0).resolve_right (hquiet _)
  · intro hpc h0
    obtain hb | hb | ⟨hb, -⟩ := h.waking.writer (by rw [hpc]; trivial) h0
    · exact hb
    · exact absurd hb (hquiet _)
    · have hin := hfree .reader
      rw [hb] at hin
      exact absurd trivial hin

/-- From `shmfifo_create` on, in every interleaving in which `ulogIsDebug` answers no
in the locked section of `shmfifo_get`: at most one process is between a successful
`shmfifo_lock` and the matching `shmfifo_unlock`, no owner check reports an error, a
process asleep without a note while the lock is free has nothing to wake up for, and
the two are never asleep without a note together. -/
theorem shmfifo_monitor (mem : Mem UInt8) (counter : Int) (pid : Option Role)
    (hpriv : 0 ≤ shm.privsz) (hcap : 0 < shm.capacity) (hsz : shm.sz < 2 ^ 31)
    {es : List LockEvent} (h : Trace (LockStep shm) (Procs.init shm mem counter pid) es s)
    (hdebug : ∀ e ∈ es, e ≠ .inner true) :
    (∀ p q, (s.pc p).Inside → (s.pc q).Inside → p = q) ∧
    (∀ e ∈ es, ∀ p site, e ≠ .error p site) ∧
    (s.lock ≠ 0 →
      (s.pc .reader = .asleep → s.note .reader = 0 → shmfifoLlMemused shm s.seg = 0) ∧
      (s.pc .writer = .asleep → s.note .writer = 0 →
        shmfifoLlMemfree shm s.seg ≤ s.data.length + sizeofShmbh)) ∧
    ¬ ((s.pc .reader = .asleep ∧ s.note .reader = 0) ∧
      (s.pc .writer = .asleep ∧ s.note .writer = 0)) := by
  obtain ⟨l, hl⟩ : ∃ l : Nat, shm.low = l := ⟨shm.low.toNat, by
    simp only [Shmhandle.low, sizeofShmprefix]; omega⟩
  obtain ⟨c, hc⟩ : ∃ c : Nat, shm.capacity = c := ⟨shm.capacity.toNat, by omega⟩
  have hlc : shm.sz = l + c := by
    simp only [Shmhandle.capacity] at hc
    omega
  obtain ⟨hi, hok⟩ := h.events (P := Monitored shm l c) (A := fun e => e ≠ .inner true)
    (Q := fun e => ∀ p site, e ≠ .error p site) (fun s e t hi he hs => hi.step hsz he hs) hdebug
    (monitored_init mem counter pid hl hlc (by omega))
  obtain ⟨o, hm⟩ := hi.mutual_
  refine ⟨fun p q => hm.owned.unique, hok, fun hfree => hi.asleep ?_, ?_⟩
  · intro p hin
    exact hfree (hm.taken p ((hm.owned p).1 hin)).1
  · rintro ⟨⟨hr, hr0⟩, hw, hw0⟩
    have hnone : ∀ p, ¬ (s.pc p).Inside := by
      intro p hin
      cases p with
      | writer =>
        rw [hw] at hin
        exact hin
      | reader =>
        rw [hr] at hin
        exact hin
    obtain ⟨hused, hroom⟩ := hi.asleep hnone
    obtain ⟨q, hq⟩ := hi.records.whole (by simp [hw]) (by simp [hr]) (by simp [hr])
    have hfits := (hi.records.fits (by simp [hw])).2
    have hall := hq.free
    rw [hused hr hr0] at hall
    have hneed := hroom hw hw0
    omega

/-- Sixteen record bytes. -/
def smallFifo : Shmhandle := ⟨0, 36⟩

/-- `shmfifo_get` on the empty segment, a put behind it, and the next `shmfifo_get` to its sleep. -/
theorem shmfifo_monitor_run :
    ∃ (es : List LockEvent) (s : Procs),
      Trace (LockStep smallFifo) (Procs.init smallFifo (fun _ => 0) 0 (some .writer)) es s ∧
        .inner false ∈ es ∧ s.data = [1] ∧ s.pc .reader = .asleep ∧ shmfifoLlMemused smallFifo s.seg = 0 := by
  have h : Trace (LockStep smallFifo) (Procs.init smallFifo (fun _ => 0) 0 (some .writer)) _ _ :=
    -- the reader finds nothing and sleeps, while the writer waits for the lock
    .cons (.get 8 rfl (by decide)) <| .cons (.stat .reader false rfl) <|
      .cons (.put [1] rfl ⟨by simp, by decide⟩) <| .cons (.stat .writer false rfl) <|
      .cons (.getval .reader .lock rfl) <| .cons (.getval .writer .lock rfl) <|
      .cons (.getpid .reader .lock 1 rfl rfl) <| .cons (.getpid .writer .lock 1 rfl rfl) <|
      .cons (.take .reader .lock rfl rfl (by decide)) <| .cons (.work .reader _ rfl) <|
      .cons (.getval .reader .waitUnlock rfl) <| .cons (.getpid .reader .waitUnlock 0 rfl rfl) <|
      .cons (.give .reader .waitUnlock rfl rfl nofun) <|
    -- the record, and the note that wakes the reader
      .cons (.take .writer .lock rfl rfl (by decide)) <| .cons (.work .writer _ rfl) <|
      .cons (.work .writer _ rfl) <| .cons (.work .writer _ rfl) <| .cons (.work .writer _ rfl) <|
      .cons (.getval .writer .notify rfl) <| .cons (.getpid .writer .notify 0 rfl rfl) <|
      .cons (.set .writer rfl) <| .cons (.wake .reader rfl (by decide)) <|
      .cons (.getval .reader .waitLock rfl) <| .cons (.getval .writer .unlock rfl) <|
      .cons (.getpid .writer .unlock 0 rfl rfl) <| .cons (.give .writer .unlock rfl rfl nofun) <|
      .cons (.getpid .reader .waitLock 0 rfl rfl) <| .cons (.take .reader .waitLock rfl rfl (by decide)) <|
      .cons (.work .reader _ rfl) <| .cons (.work .reader _ rfl) <| .cons (.work .reader _ rfl) <|
      .cons (.work .reader _ rfl) <| .cons (.innerStat .reader false rfl) <|
      .cons (.getval .reader .notify rfl) <| .cons (.getpid .reader .notify 0 rfl rfl) <|
      .cons (.set .reader rfl) <| .cons (.getval .reader .unlock rfl) <|
      .cons (.getpid .reader .unlock 0 rfl rfl) <| .cons (.give .reader .unlock rfl rfl nofun) <|
    -- and the next one finds nothing again
      .cons (.get 8 rfl (by decide)) <| .cons (.stat .reader false rfl) <|
      .cons (.getval .reader .lock rfl) <| .cons (.getpid .reader .lock 1 rfl rfl) <|
      .cons (.take .reader .lock rfl rfl (by decide)) <| .cons (.work .reader _ rfl) <|
      .cons (.getval .reader .waitUnlock rfl) <| .cons (.getpid .reader .waitUnlock 0 rfl rfl) <|
      .cons (.give .reader .waitUnlock rfl rfl nofun) <| .nil _
  have hmon := shmfifo_monitor _ _ _ (by decide) (by decide) (by decide) h (by simp)
  exact ⟨_, _, h, by simp, rfl, rfl, (hmon.2.2.1 (by decide)).1 rfl rfl⟩

/-- One record put and got with debug logging on in the reader: its second
`shmfifo_printmemstatus` locks what is locked. -/
theorem printmemstatus_reports_error :
    ∃ (es : List LockEvent) (s : Procs),
      Trace (LockStep smallFifo) (Procs.init smallFifo (fun _ => 0) 0 (some .writer)) es s ∧
        .error .reader .innerLock ∈ es := by
  have h : Trace (LockStep smallFifo) (Procs.init smallFifo (fun _ => 0) 0 (some .writer)) _ _ :=
    .cons (.put [1] rfl ⟨by simp, by decide⟩) <| .cons (.stat .writer false rfl) <|
      .cons (.getval .writer .lock rfl) <| .cons (.getpid .writer .lock 1 rfl rfl) <|
      .cons (.take .writer .lock rfl rfl (by decide)) <| .cons (.work .writer _ rfl) <|
      .cons (.work .writer _ rfl) <| .cons (.work .writer _ rfl) <| .cons (.work .writer _ rfl) <|
      .cons (.getval .writer .notify rfl) <| .cons (.getpid .writer .notify 0 rfl rfl) <|
      .cons (.set .writer rfl) <| .cons (.getval .writer .unlock rfl) <|
      .cons (.getpid .writer .unlock 0 rfl rfl) <|
      .cons (.give .writer .unlock rfl rfl nofun) <|
      .cons (.get 8 rfl (by decide)) <| .cons (.stat .reader false rfl) <|
      .cons (.getval .reader .lock rfl) <| .cons (.getpid .reader .lock 1 rfl rfl) <|
      .cons (.take .reader .lock rfl rfl (by decide)) <| .cons (.work .reader _ rfl) <|
      .cons (.work .reader _ rfl) <| .cons (.work .reader _ rfl) <| .cons (.work .reader _ rfl) <|
      .cons (.innerStat .reader true rfl) <| .cons (.getval .reader .innerLock rfl) <|
      .cons (.refused .reader .innerLock 0 rfl rfl) <| .nil _
  exact ⟨_, _, h, by simp⟩

end Noaaport.Shmfifo
