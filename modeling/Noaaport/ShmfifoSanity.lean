import Noaaport.Lib.Calls
import Noaaport.ShmfifoRefinement

/-! The sanity check of `shmfifo_ll_get` and the sizes that `shmfifo_put` accepts. -/
namespace Noaaport.Shmfifo
open Lib

variable {shm : Shmhandle} {l c : Nat} {s : Segment} {q : List (List UInt8)} {d : List UInt8}

/-- `shmfifo_put` refuses negative sizes only. -/
def anyStep (shm : Shmhandle) (s : Sys) : Act → Option (Event × Sys)
  | .put data =>
    if s.putting = none then some (afterPut s data (shmfifoPut shm s.seg data)) else none
  | a => step shm s a

/-- The states of a run, with the records appended and removed up to here. -/
structure Log where
  sys : Sys
  appended : List (List UInt8)
  removed : List (List UInt8)

def Log.start (shm : Shmhandle) (mem : Mem UInt8) (counter : Int) : Log where
  sys := Sys.init shm mem counter
  appended := []
  removed := []

def logged (shm : Shmhandle) (a : Act) (h : Log) : Option Log :=
  match anyStep shm h.sys a with
  | none => none
  | some (e, sys) =>
    some { sys, appended := h.appended ++ e.added, removed := h.removed ++ e.removed }

/-- The reader looks into the segment, for a buffer of this size. -/
def Gets (s : Sys) (sz : Int) : Act → Prop
  | .get sz' => s.getting = none ∧ 0 < sz' ∧ sz' = sz
  | .getRetry => s.getting = some sz
  | _ => False

/-- No `abort`, and what has been removed is what was appended first. -/
def Sane (shm : Shmhandle) (h : Log) (a : Act) : Prop :=
  (∀ sz, Gets h.sys sz a → shmfifoGet shm h.sys.seg sz ≠ .abort) ∧
    ∀ h' ∈ logged shm a h, h'.removed <+: h'.appended

/-- A reader that looks does not find a record of size 0 as the oldest. -/
def OldestFull (h : Log) (a : Act) : Prop :=
  ∀ sz, Gets h.sys sz a → h.appended[h.removed.length]? ≠ some []

/-- The header of an empty record passes every test of `shmfifo_get`. -/
theorem Held.get_abort (h : Held shm l c s ([] :: q)) (hsz : shm.sz < 2 ^ 31) {sz : Int}
    (hbuf : 0 ≤ sz) : shmfifoGet shm s sz = .abort := by
  obtain ⟨r, u, s', ha, hu, -, hg, hh, ha', -⟩ := h.get_header hsz
  simp only [List.length_nil] at hu hg hh
  rw [shmfifoGet, ha.memused, if_neg (by omega), if_neg (by rw [sizeofShmbh]; omega), hg]
  simp only [hh]
  rw [if_neg (by simp), ha'.memused, if_neg (by omega), if_neg (by omega)]
  rfl

theorem Held.get_abort_iff (h : Held shm l c s q) (hsz : shm.sz < 2 ^ 31) {sz : Int}
    (hbuf : 0 ≤ sz) : shmfifoGet shm s sz = .abort ↔ q.head? = some [] := by
  cases q with
  | nil => simp [h.get_empty sz]
  | cons d q =>
    by_cases hd : d = []
    · subst hd
      simp [h.get_abort hsz hbuf]
    · have hret : shmfifoGet shm s sz ≠ .abort := by
        by_cases hlen : (d.length : Int) ≤ sz
        · obtain ⟨s', hget, -⟩ := h.get_head hd hsz hlen
          simp [hget]
        · obtain ⟨s', hget, -⟩ := h.get_unmoved hsz (not_le.1 hlen)
          simp [hget]
      simp [hret, hd]

/-- A segment without a single cell for records. -/
structure Cellless (shm : Shmhandle) (s : Segment) : Prop where
  used : shmfifoLlMemused shm s = 0
  free : shmfifoLlMemfree shm s = 0

/-- The queue is what was appended and not yet removed. -/
structure Logged (shm : Shmhandle) (h : Log) (q : List (List UInt8)) : Prop where
  seg : (∃ l c, Held shm l c h.sys.seg q) ∨ Cellless shm h.sys.seg ∧ q = []
  balance : h.appended = h.removed ++ q
  getting : ∀ sz, h.sys.getting = some sz → 0 < sz

theorem Logged.oldest {h : Log} (hl : Logged shm h q) :
    h.appended[h.removed.length]? = q.head? := by
  rw [hl.balance, List.getElem?_append_right (Nat.le_refl _), Nat.sub_self, List.head?_eq_getElem?]

theorem Gets.pos {h : Log} (hl : Logged shm h q) {sz : Int} {a : Act} (hg : Gets h.sys sz a) :
    0 < sz := by
  cases a with
  | get sz' =>
    obtain ⟨-, hpos, rfl⟩ := hg
    exact hpos
  | getRetry => exact hl.getting sz hg
  | put _ => exact hg.elim
  | putRetry => exact hg.elim

theorem Logged.abort_iff {h : Log} (hl : Logged shm h q) (hsz : shm.sz < 2 ^ 31) {sz : Int}
    (hbuf : 0 < sz) :
    shmfifoGet shm h.sys.seg sz = .abort ↔ h.appended[h.removed.length]? = some [] := by
  rw [hl.oldest]
  rcases hl.seg with ⟨l, c, hh⟩ | ⟨hcell, rfl⟩
  · exact hh.get_abort_iff hsz (Int.le_of_lt hbuf)
  · simp [shmfifoGet, hcell.used]

theorem Logged.prefix_of {h : Log} (hl : Logged shm h q) : h.removed <+: h.appended :=
  ⟨q, hl.balance.symm⟩

theorem Logged.putPass {h : Log} (hl : Logged shm h q) {pass : PutPass}
    (hpass : pass = putRetry shm h.sys.seg d ∨ pass = .ret E2BIG h.sys.seg) :
    ∃ q', Logged shm ⟨(afterPut h.sys d pass).2, h.appended ++ (afterPut h.sys d pass).1.added,
      h.removed ++ (afterPut h.sys d pass).1.removed⟩ q' := by
  have hquiet : ∀ putting, Logged shm ⟨{ h.sys with putting }, h.appended ++ [], h.removed ++ []⟩ q :=
    fun _ => ⟨hl.seg, by rw [List.append_nil, List.append_nil, hl.balance], hl.getting⟩
  rcases hpass with rfl | rfl
  · by_cases hf : shmfifoLlMemfree shm h.sys.seg ≤ d.length + sizeofShmbh
    · rw [put_wait hf]
      exact ⟨q, hquiet _⟩
    · rcases hl.seg with ⟨l, c, hh⟩ | ⟨hcell, -⟩
      · obtain ⟨seg, hp, hq, -⟩ := hh.put_append (not_le.1 hf)
        rw [hp]
        refine ⟨q ++ [d], .inl ⟨l, c, hq⟩, ?_, hl.getting⟩
        simp [afterPut, Event.added, Event.removed, hl.balance]
      · rw [hcell.free, sizeofShmbh] at hf
        omega
  · exact ⟨q, hquiet none⟩

theorem Logged.getPass {h : Log} (hl : Logged shm h q) (hsz : shm.sz < 2 ^ 31) {sz : Int}
    (hbuf : 0 < sz) {e : Event} {sys : Sys}
    (hs : afterGet h.sys sz (shmfifoGet shm h.sys.seg sz) = some (e, sys)) :
    ∃ q', Logged shm ⟨sys, h.appended ++ e.added, h.removed ++ e.removed⟩ q' := by
  have hbal : h.appended ++ [] = h.removed ++ [] ++ q := by
    rw [List.append_nil, List.append_nil, hl.balance]
  rcases hl.seg with ⟨l, c, hh⟩ | ⟨hcell, rfl⟩
  · cases q with
    | nil =>
      rw [hh.get_empty] at hs
      cases hs
      exact ⟨[], .inl ⟨l, c, hh⟩, hbal, fun _ heq => Option.some.inj heq ▸ hbuf⟩
    | cons d q =>
      by_cases hd : d = []
      · subst hd
        rw [hh.get_abort hsz (Int.le_of_lt hbuf)] at hs
        cases hs
      · by_cases hlen : (d.length : Int) ≤ sz
        · obtain ⟨seg, hg, hq, -⟩ := hh.get_head hd hsz hlen
          rw [hg] at hs
          cases hs
          refine ⟨q, .inl ⟨l, c, hq⟩, ?_, fun _ heq => by cases heq⟩
          simp [Event.added, Event.removed, hl.balance]
        · obtain ⟨seg, hg, -, hq⟩ := hh.get_unmoved hsz (not_le.1 hlen)
          rw [hg] at hs
          cases hs
          exact ⟨d :: q, .inl ⟨l, c, hq⟩, hbal, fun _ heq => by cases heq⟩
  · have hwait : shmfifoGet shm h.sys.seg sz = .wait := by rw [shmfifoGet, if_pos hcell.used]
    rw [hwait] at hs
    cases hs
    exact ⟨[], .inr ⟨hcell, rfl⟩, hbal, fun _ heq => Option.some.inj heq ▸ hbuf⟩

/-- One locked section, whatever the size of the record. -/
theorem Logged.next {h h' : Log} (hl : Logged shm h q) (hsz : shm.sz < 2 ^ 31) {a : Act}
    (hs : logged shm a h = some h') : ∃ q', Logged shm h' q' := by
  rw [logged] at hs
  cases a with
  | put data =>
    rw [anyStep] at hs
    by_cases hp : h.sys.putting = none
    · rw [if_pos hp] at hs
      cases hs
      exact hl.putPass (shmfifoPut_eq h.sys.seg data)
    · rw [if_neg hp] at hs
      cases hs
  | putRetry =>
    simp only [anyStep, step] at hs
    cases hp : h.sys.putting with
    | none =>
      rw [hp] at hs
      cases hs
    | some data =>
      rw [hp] at hs
      cases hs
      exact hl.putPass (.inl rfl)
  | get sz =>
    simp only [anyStep, step] at hs
    split at hs
    · cases hs
    · next e sys hstep =>
      cases hs
      split_ifs at hstep with hg h0
      · cases hstep
        exact ⟨q, hl.seg, by simp [Event.added, Event.removed, hl.balance], hl.getting⟩
      · exact hl.getPass hsz (not_le.1 h0) hstep
  | getRetry =>
    simp only [anyStep, step] at hs
    split at hs
    · cases hs
    · next e sys hstep =>
      cases hs
      cases hg : h.sys.getting with
      | none =>
        rw [hg] at hstep
        cases hstep
      | some sz =>
        rw [hg] at hstep
        exact hl.getPass hsz (hl.getting sz hg) hstep

theorem Logged.start (shm : Shmhandle) (mem : Mem UInt8) (counter : Int)
    (hpriv : 0 ≤ shm.privsz) (hcap : 0 ≤ shm.capacity) : Logged shm (.start shm mem counter) [] := by
  refine ⟨?_, rfl, fun _ hg => by cases hg⟩
  have hlow : 0 ≤ shm.low := by
    simp only [Shmhandle.low, sizeofShmprefix]
    omega
  by_cases h0 : shm.capacity = 0
  · refine .inr ⟨?_, rfl⟩
    have hsz : shm.sz = shm.low := by
      simp only [Shmhandle.capacity] at h0
      omega
    constructor <;>
      simp [Log.start, Sys.init, shmfifoCreate, shmfifoLlMemused, shmfifoLlMemfree, hsz,
        Shmhandle.low]
  · have hlc : shm.sz = (shm.low.toNat : Int) + shm.capacity.toNat := by
      simp only [Shmhandle.capacity] at hcap ⊢
      omega
    exact .inl ⟨shm.low.toNat, shm.capacity.toNat,
      (queued_create mem counter (by omega) hlc (by omega)).held⟩

theorem Logged.sane_iff {h : Log} (hl : Logged shm h q) (hsz : shm.sz < 2 ^ 31) (a : Act) :
    Sane shm h a ↔ OldestFull h a := by
  constructor
  · rintro ⟨hget, -⟩ sz hg hempty
    exact hget sz hg ((hl.abort_iff hsz (hg.pos hl)).2 hempty)
  · intro hfull
    refine ⟨fun sz hg habort => hfull sz hg ((hl.abort_iff hsz (hg.pos hl)).1 habort), ?_⟩
    intro h' hs
    obtain ⟨q', hl'⟩ := hl.next hsz hs
    exact hl'.prefix_of

/-- No record of size 0, appended or waiting for room. -/
structure Filled (h : Log) : Prop where
  appended : ∀ d ∈ h.appended, d ≠ []
  putting : ∀ d, h.sys.putting = some d → d ≠ []

theorem Filled.putPass {h : Log} (hf : Filled h) (hd : d ≠ []) {pass : PutPass} {e : Event}
    {sys : Sys} (hs : afterPut h.sys d pass = (e, sys)) (removed : List (List UInt8)) :
    Filled ⟨sys, h.appended ++ e.added, removed⟩ := by
  cases pass with
  | wait =>
    cases hs
    exact ⟨by simpa [Event.added] using hf.appended, fun _ heq => Option.some.inj heq ▸ hd⟩
  | ret status seg =>
    cases hs
    refine ⟨fun d' hd' => ?_, fun _ heq => by cases heq⟩
    rcases List.mem_append.1 hd' with hold | hnew
    · exact hf.appended d' hold
    · by_cases h0 : status = 0
      · simp only [if_pos h0, Event.added, List.mem_singleton] at hnew
        rwa [hnew]
      · simp [if_neg h0, Event.added] at hnew

theorem Filled.getPass {h : Log} (hf : Filled h) {sz : Int} {pass : GetPass} {e : Event} {sys : Sys}
    (hs : afterGet h.sys sz pass = some (e, sys)) (removed : List (List UInt8)) :
    Filled ⟨sys, h.appended ++ e.added, removed⟩ := by
  have hadded : e.added = [] ∧ sys.putting = h.sys.putting := by
    unfold afterGet at hs
    split at hs <;> cases hs <;> exact ⟨rfl, rfl⟩
  exact ⟨by simpa [hadded.1] using hf.appended, by simpa [hadded.2] using hf.putting⟩

theorem Filled.next {h h' : Log} (hf : Filled h) {a : Act} (ha : ∀ data, a = .put data → data ≠ [])
    (hs : logged shm a h = some h') : Filled h' := by
  rw [logged] at hs
  split at hs
  · cases hs
  next e sys hstep =>
  cases hs
  cases a with
  | put data =>
    simp only [anyStep] at hstep
    split_ifs at hstep
    exact hf.putPass (ha data rfl) (Option.some.inj hstep) _
  | putRetry =>
    simp only [anyStep, step] at hstep
    cases hp : h.sys.putting with
    | none =>
      rw [hp] at hstep
      cases hstep
    | some data =>
      rw [hp] at hstep
      exact hf.putPass (hf.putting data hp) (Option.some.inj hstep) _
  | get sz =>
    simp only [anyStep, step] at hstep
    split_ifs at hstep
    · cases hstep
      exact ⟨by simpa [Event.added] using hf.appended, hf.putting⟩
    · exact hf.getPass hstep _
  | getRetry =>
    simp only [anyStep, step] at hstep
    cases hg : h.sys.getting with
    | none =>
      rw [hg] at hstep
      cases hstep
    | some sz =>
      rw [hg] at hstep
      exact hf.getPass hstep _

theorem Filled.oldest {h : Log} (hf : Filled h) (a : Act) : OldestFull h a :=
  fun _ _ hempty => hf.appended [] (List.mem_of_getElem? hempty) rfl

/-- `shmfifo_put` accepts a record of size 0, and the get that meets it as the oldest aborts:
these gets, and no others. Whatever is removed comes in the order it was appended. -/
theorem sanity_iff (mem : Mem UInt8) (counter : Int) (hpriv : 0 ≤ shm.privsz)
    (hcap : 0 ≤ shm.capacity) (hsz : shm.sz < 2 ^ 31) (acts : List Act) :
    (Throughout (logged shm) (Sane shm) (.start shm mem counter) acts ↔
      Throughout (logged shm) OldestFull (.start shm mem counter) acts) ∧
    ((∀ data, .put data ∈ acts → data ≠ []) →
      Throughout (logged shm) (Sane shm) (.start shm mem counter) acts) := by
  have hstart := Logged.start shm mem counter hpriv hcap
  have hiff : Throughout (logged shm) (Sane shm) (.start shm mem counter) acts ↔
      Throughout (logged shm) OldestFull (.start shm mem counter) acts := by
    refine Throughout.iff_of_invariant (A := fun _ _ => True) (I := fun h => ∃ q, Logged shm h q)
      ?_ ?_ ⟨[], hstart⟩ (Throughout.of_true _ _)
    · rintro h a ⟨q, hl⟩ -
      exact hl.sane_iff hsz a
    · rintro h a h' ⟨q, hl⟩ - - hs
      exact hl.next hsz hs
  have hfilled : Filled (.start shm mem counter) := ⟨nofun, nofun⟩
  refine ⟨hiff, fun hputs => hiff.2 ?_⟩
  refine Throughout.of_invariant (A := fun _ a => ∀ data, a = .put data → data ≠ []) (I := Filled)
    (fun h a hf _ => hf.oldest a) (fun h a h' hf ha hs => hf.next ha hs) hfilled ?_
  refine Throughout.of_forall (fun a ha _ data heq => ?_) _
  subst heq
  exact hputs data ha

/-- The second record wraps around the end of the segment. -/
theorem sanity_iff_run :
    Throughout (logged ⟨0, 36⟩) (Sane ⟨0, 36⟩) (.start ⟨0, 36⟩ (fun _ => 0) 0)
      [.get 8, .put [1, 2], .getRetry, .put [3, 4], .get 1, .get 8] := by
  refine (sanity_iff (fun _ => 0) 0 (by decide) (by decide) (by decide) _).2 fun data hdata => ?_
  simp only [List.mem_cons, List.not_mem_nil, Act.put.injEq, reduceCtorEq, false_or, or_false]
    at hdata
  rcases hdata with rfl | rfl <;> exact List.cons_ne_nil _ _

/-- The put of an empty record returns with the record appended; the get after it aborts. -/
theorem empty_record_aborts :
    ¬ Throughout (logged ⟨0, 36⟩) (Sane ⟨0, 36⟩) (.start ⟨0, 36⟩ (fun _ => 0) 0)
      [.put [], .get 8] :=
  fun h => (h.2 _ rfl).1.1 8 ⟨rfl, by decide, rfl⟩ rfl

end Noaaport.Shmfifo
