import Noaaport.QueueRegistry

/-! The life of a queue handle: who may use it, and when it is open. -/
namespace Noaaport.ProductQueue
open Lib

inductive Op where
  | get (c : GetCall)
  | insert (lpq : Nat) (ans : InsertAnswers)
  | close (lpq : Nat) (ans : CloseAnswers)

/-- The registry, with the handles that a caller may use: returned by an `lpqGet` that came
after the last `lpqClose` of them. -/
structure World where
  reg : Registry
  usable : List Nat

def World.start : World := ⟨.empty, []⟩

def call : Op → World → Option World
  | .get c, w => (lpqGet c.pathname c.answers w.reg).map fun res => ⟨res.reg, res.lpq.toList ++ w.usable⟩
  | .insert _ _, w => some w
  | .close lpq ans, w =>
    (lpqClose lpq ans w.reg).map fun res => ⟨res.2, w.usable.filter (· ≠ lpq)⟩

/-- What the callers see to. -/
def Allowed (w : World) : Op → Prop
  | .get _ => True
  | .insert lpq _ => lpq ∈ w.usable
  | .close lpq _ => lpq ∈ w.usable

def Registry.Open (r : Registry) (lpq : Nat) : Prop :=
  ∃ q, r.lpqs lpq = some q ∧ r.isOpen q.pq = true

/-- A handle comes with an open queue, and only open queues are used and closed. -/
def Proper (w : World) : Op → Prop
  | .get c => ∃ res, lpqGet c.pathname c.answers w.reg = some res ∧ ∀ h ∈ res.lpq, res.reg.Open h
  | .insert lpq _ => w.reg.Open lpq
  | .close lpq _ => w.reg.Open lpq

/-- The registry is there, and has no closed queue of that path. -/
def Fresh (w : World) : Op → Prop
  | .get c =>
    c.answers.locked = true →
      ∃ d, Holds w.reg d ∧ ∀ h, (c.path, h) ∈ d → w.reg.Open h
  | .insert _ _ => True
  | .close _ _ => True

instance (w : World) : ∀ op, Decidable (Allowed w op)
  | .get _ => inferInstanceAs (Decidable True)
  | .insert lpq _ => inferInstanceAs (Decidable (lpq ∈ w.usable))
  | .close lpq _ => inferInstanceAs (Decidable (lpq ∈ w.usable))

structure Alive (w : World) : Prop where
  registry : Dangling w.reg ∨ ∃ d, Sound w.reg d
  old : ∀ h q, w.reg.lpqs h = some q → h < w.reg.nextLpq ∧ q.pq < w.reg.nextPq
  apart : ∀ h h' q q', w.reg.lpqs h = some q → w.reg.lpqs h' = some q' → q.pq = q'.pq → h = h'
  usable : ∀ h ∈ w.usable, w.reg.Open h

theorem Alive.start : Alive .start :=
  ⟨.inr ⟨[], .nil⟩, nofun, nofun, nofun⟩

variable {w w' : World} {op : Op} {c : GetCall} {r r' : Registry} {d : List (Text × Nat)}

theorem Holds.unique {d' : List (Text × Nat)} (h : Holds r d) (h' : Holds r d') : d = d' := by
  have hsnd : d.map Prod.snd = d'.map Prod.snd := Option.some.inj (h.handles.symm.trans h'.handles)
  refine List.ext_getElem (h.count.symm.trans h'.count) fun i hi hi' => ?_
  have hi2 : d[i].2 = d'[i].2 := by
    have hget := List.getElem_of_eq hsnd (i := i) (by simpa)
    simpa using hget
  have hp := h.paths d[i] (List.getElem_mem hi)
  rw [hi2, h'.paths d'[i] (List.getElem_mem hi')] at hp
  exact Prod.ext (Option.some.inj hp).symm hi2

/-- Nothing can be looked up in an array that has been freed. -/
theorem Dangling.get (h : Dangling r) (hl : c.answers.locked = true) :
    lpqGet c.pathname c.answers r = none := by
  have hread : r.read 0 = none := by
    unfold Registry.read
    cases hq : r.queues with
    | none => rfl
    | some b => simp [h.freed b hq]
  obtain ⟨n, hn⟩ := Nat.exists_eq_succ_of_ne_zero (Nat.ne_of_gt h.count)
  unfold lpqGet
  rw [if_neg (by simp [hl])]
  dsimp only
  rw [hn, search, hread]
  rfl

/-- A call of `lpqGet` gives an open queue exactly if it finds no closed one. -/
theorem Alive.get_iff (h : Alive w) (c : GetCall) : Proper w (.get c) ↔ Fresh w (.get c) := by
  cases hl : c.answers.locked with
  | false =>
    have hres : lpqGet c.pathname c.answers w.reg = some ⟨2, none, w.reg⟩ := by rw [lpqGet, if_pos hl]
    exact ⟨fun _ ht => absurd (hl.symm.trans ht) (by decide), fun _ => ⟨_, hres, by rintro _ ⟨⟩⟩⟩
  | true =>
    obtain hd | ⟨d, hs⟩ := h.registry
    · constructor
      · rintro ⟨res, hres, -⟩
        cases (hd.get hl).symm.trans hres
      · intro hf
        obtain ⟨d, hholds, -⟩ := hf hl
        exact absurd hholds hd.not_holds
    obtain ⟨res, hget, hcase⟩ := hs.get_cases c
    have hnew : c.path ∉ d.map Prod.fst → Fresh w (.get c) :=
      fun hp _ => ⟨d, hs.toHolds, fun h hm => absurd (List.mem_map_of_mem (f := Prod.fst) hm) hp⟩
    cases hcase with
    | unchanged status hst hor =>
      refine ⟨fun _ => hnew ?_, fun _ => ⟨_, hget, by rintro _ ⟨⟩⟩⟩
      obtain hf | ⟨hp, -⟩ := hor
      · cases hl.symm.trans hf
      · exact hp
    | registered _ handle hm =>
      constructor
      · rintro ⟨res, hget', hopen⟩ -
        cases hget.symm.trans hget'
        refine ⟨d, hs.toHolds, fun h' hm' => ?_⟩
        rw [hs.mem_unique hm' hm]
        exact hopen handle rfl
      · intro hf
        obtain ⟨d', hd', hopen⟩ := hf hl
        refine ⟨_, hget, fun h' hh' => ?_⟩
        rw [hs.toHolds.unique hd'] at hm
        rw [← Option.some.inj hh']
        exact hopen handle hm
    | lost _ hp hr hf status hst r' hlost => exact ⟨fun _ => hnew hp, fun _ => ⟨_, hget, by rintro _ ⟨⟩⟩⟩
    | added _ hp hf r' hadded =>
      refine ⟨fun _ => hnew hp, fun _ => ⟨_, hget, fun h' hh' => ?_⟩⟩
      rw [← Option.some.inj hh']
      refine ⟨⟨c.path, w.reg.nextPq⟩, ?_, ?_⟩
      · rw [hadded.lpqs, Function.update_self]
      · rw [hadded.opened, Function.update_self]

/-- Handles and queues stay what they are; a new handle comes with a new queue. -/
theorem Alive.mono (h : Alive w) (hreg : Dangling r' ∨ ∃ d, Sound r' d)
    (hlpqs : r'.lpqs = w.reg.lpqs) (hnext : r'.nextLpq = w.reg.nextLpq)
    (hpq : w.reg.nextPq ≤ r'.nextPq) (hopen : ∀ pq, pq < w.reg.nextPq → r'.isOpen pq = w.reg.isOpen pq)
    (us : List Nat) (hus : ∀ k ∈ us, w.reg.Open k) : Alive ⟨r', us⟩ where
  registry := hreg
  old k q hq := by
    obtain ⟨h1, h2⟩ := h.old k q (hlpqs ▸ hq)
    exact ⟨hnext ▸ h1, Nat.lt_of_lt_of_le h2 hpq⟩
  apart k k' q q' hq hq' := h.apart k k' q q' (hlpqs ▸ hq) (hlpqs ▸ hq')
  usable k hk := by
    obtain ⟨q, hq, ho⟩ := hus k hk
    exact ⟨q, hlpqs ▸ hq, (hopen q.pq (h.old k q hq).2).trans ho⟩

theorem Alive.added (h : Alive w) (hs : Sound w.reg d) (hp : c.path ∉ d.map Prod.fst)
    (ha : Added w.reg (d.map Prod.snd) c.path r') : Alive ⟨r', w.reg.nextLpq :: w.usable⟩ := by
  have hnew : r'.lpqs w.reg.nextLpq = some ⟨c.path, w.reg.nextPq⟩ := by
    rw [ha.lpqs, Function.update_self]
  have hkept : ∀ k, k ≠ w.reg.nextLpq → r'.lpqs k = w.reg.lpqs k := by
    intro k hk
    rw [ha.lpqs, Function.update_of_ne hk]
  -- a handle of before has a queue of before
  have hcases : ∀ k q, r'.lpqs k = some q →
      k = w.reg.nextLpq ∧ q.pq = w.reg.nextPq ∨
        k < w.reg.nextLpq ∧ q.pq < w.reg.nextPq ∧ w.reg.lpqs k = some q := by
    intro k q hq
    by_cases hk : k = w.reg.nextLpq
    · subst hk
      cases hnew.symm.trans hq
      exact .inl ⟨rfl, rfl⟩
    · have hold := (hkept k hk).symm.trans hq
      exact .inr ⟨(h.old k q hold).1, (h.old k q hold).2, hold⟩
  refine ⟨.inr ⟨_, hs.added hp ha⟩, ?_, ?_, ?_⟩
  · intro k q hq
    have hn1 : r'.nextLpq = w.reg.nextLpq + 1 := ha.next.1
    have hn2 : r'.nextPq = w.reg.nextPq + 1 := ha.next.2
    have hk := hcases k q hq
    dsimp only
    omega
  · intro k k' q q' hq hq' hpq
    obtain ⟨hk, hkq⟩ | ⟨hk, hkq, hold⟩ := hcases k q hq
    · obtain ⟨hk', -⟩ | ⟨-, hkq', -⟩ := hcases k' q' hq'
      · rw [hk, hk']
      · omega
    · obtain ⟨-, hkq'⟩ | ⟨-, -, hold'⟩ := hcases k' q' hq'
      · omega
      · exact h.apart k k' q q' hold hold' hpq
  · intro k hk
    obtain rfl | hk := List.mem_cons.1 hk
    · refine ⟨_, hnew, ?_⟩
      rw [ha.opened, Function.update_self]
    · obtain ⟨q, hq, ho⟩ := h.usable k hk
      obtain ⟨hlt, hltq⟩ := h.old k q hq
      refine ⟨q, (hkept k (Nat.ne_of_lt hlt)).trans hq, ?_⟩
      rw [ha.opened, Function.update_of_ne (Nat.ne_of_lt hltq)]
      exact ho

theorem Alive.get (h : Alive w) (hp : Proper w (.get c)) (hc : call (.get c) w = some w') :
    Alive w' := by
  obtain ⟨res, hget, hopen⟩ := hp
  simp only [call, hget, Option.map_some, Option.some.injEq] at hc
  subst hc
  have hsame : res.reg = w.reg → Alive ⟨res.reg, res.lpq.toList ++ w.usable⟩ := by
    intro heq
    refine h.mono (heq ▸ h.registry) (by rw [heq]) (by rw [heq]) (by rw [heq]) (fun _ _ => by rw [heq]) _ ?_
    intro k hk
    obtain hnew | hold := List.mem_append.1 hk
    · exact heq ▸ hopen k (Option.mem_toList.1 hnew)
    · exact h.usable k hold
  cases hl : c.answers.locked with
  | false =>
    have hres : lpqGet c.pathname c.answers w.reg = some ⟨2, none, w.reg⟩ := by rw [lpqGet, if_pos hl]
    exact hsame (by cases hres.symm.trans hget; rfl)
  | true =>
    obtain hd | ⟨d, hs⟩ := h.registry
    · cases (hd.get hl).symm.trans hget
    obtain ⟨res', hget', hcase⟩ := hs.get_cases c
    cases hget'.symm.trans hget
    cases hcase with
    | unchanged => exact hsame rfl
    | registered => exact hsame rfl
    | lost _ _ _ _ _ _ r' hlost =>
      refine h.mono ?_ hlost.lpqs hlost.next.1 hlost.next.2.1 hlost.opened _ h.usable
      by_cases hd : d = []
      · subst hd
        exact .inr ⟨[], hs.lost_nil hlost⟩
      · exact .inl (hs.lost_cons hd hlost)
    | added _ hp _ r' hadded => exact h.added hs hp hadded

/-- Closing a queue concerns no other handle. -/
theorem Alive.pqClose (h : Alive w) {lpq : Nat} {q : Lpq} (hq : w.reg.lpqs lpq = some q) :
    Alive ⟨w.reg.pqClose q.pq, w.usable.filter (· ≠ lpq)⟩ where
  registry := by
    obtain hd | ⟨d, hs⟩ := h.registry
    · exact .inl ⟨hd.count, hd.freed⟩
    · exact .inr ⟨d, ⟨⟨hs.handles, hs.count, hs.paths⟩, hs.distinct, hs.empty, hs.array, hs.old⟩⟩
  old := h.old
  apart := h.apart
  usable k hk := by
    obtain ⟨hmem, hne⟩ := List.mem_filter.1 hk
    obtain ⟨q', hq', ho⟩ := h.usable k hmem
    refine ⟨q', hq', ?_⟩
    have hpq : q'.pq ≠ q.pq := fun he => (of_decide_eq_true hne) (h.apart k lpq q' q hq' hq he)
    exact (Function.update_of_ne hpq _ _).trans ho

theorem Alive.close (h : Alive w) {lpq : Nat} {ans : CloseAnswers}
    (hc : call (.close lpq ans) w = some w') : Alive w' := by
  obtain ⟨res, hres, rfl⟩ := Option.map_eq_some_iff.1 hc
  obtain ⟨q, hq, rfl⟩ := Option.map_eq_some_iff.1 hres
  have hfilter : ∀ k ∈ w.usable.filter (· ≠ lpq), w.reg.Open k :=
    fun k hk => h.usable k (List.mem_filter.1 hk).1
  have hkept : Alive ⟨w.reg, w.usable.filter (· ≠ lpq)⟩ :=
    h.mono h.registry rfl rfl (Nat.le_refl _) (fun _ _ => rfl) _ hfilter
  have hclosed := h.pqClose hq
  split
  · exact hkept
  split
  · exact hclosed
  · cases ans.gone with
    | true => exact hclosed
    | false => exact hkept
  · cases ans.gone with
    | true => exact hclosed
    | false => exact hkept

/-- Handles come with open queues, and only open ones are used, exactly as long as no
call of `lpqGet` finds a closed one under its path, or no array. -/
theorem open_handles_iff (ops : List Op) (hops : Throughout call Allowed .start ops) :
    Throughout call Proper .start ops ↔ Throughout call Fresh .start ops := by
  refine Throughout.iff_of_invariant (I := Alive) ?_ ?_ .start hops
  · intro w op h ha
    cases op with
    | get c => exact h.get_iff c
    | insert lpq ans => exact ⟨fun _ => trivial, fun _ => h.usable lpq ha⟩
    | close lpq ans => exact ⟨fun _ => trivial, fun _ => h.usable lpq ha⟩
  · intro w op w' h _ hp hc
    cases op with
    | get c => exact h.get hp hc
    | insert lpq ans =>
      cases hc
      exact h
    | close lpq ans => exact h.close hc

def inserted : InsertAnswers := ⟨true, .inserted⟩
def wellClosed : CloseAnswers := ⟨true, .closed, false⟩

def getOther : GetCall := ⟨some [98], allServe⟩

/-- A path, its handle used and closed, and another path. -/
theorem open_handles_iff_run :
    Throughout call Proper .start
      [.get getFirst, .insert 0 inserted, .close 0 wellClosed, .get getOther, .insert 1 inserted] := by
  refine (open_handles_iff _ (by decide)).2
    ⟨fun _ => ⟨[], Sound.nil.toHolds, nofun⟩, fun t ht => ⟨trivial, fun u hu => ⟨trivial, fun v hv => ?_⟩⟩⟩
  have hrun : ((call (.get getFirst) .start).bind (call (.insert 0 inserted))).bind (call (.close 0 wellClosed)) =
      some v := by
    rw [Option.mem_def.1 ht, Option.bind_some, Option.mem_def.1 hu, Option.bind_some, hv]
  have hheld : (((call (.get getFirst) .start).bind (call (.insert 0 inserted))).bind
      (call (.close 0 wellClosed))).map (fun w => (w.reg.handles, w.reg.queueCount, (w.reg.lpqs 0).map Lpq.path)) =
      some (some [0], 1, some [97]) := by
    decide
  rw [hrun, Option.map_some, Option.some.injEq, Prod.mk.injEq, Prod.mk.injEq] at hheld
  have hholds : Holds v.reg [([97], 0)] := ⟨hheld.1, hheld.2.1, by simpa using hheld.2.2⟩
  refine ⟨fun _ => ⟨_, hholds, fun h hmem => ?_⟩, fun w _ => ⟨trivial, fun _ _ => trivial⟩⟩
  exact absurd (Prod.mk.inj (List.mem_singleton.1 hmem)).1 (by decide)

/-- Got, closed and got again: the handle is the one with the closed queue. -/
theorem closed_handle_returned :
    Throughout call Allowed .start [.get getFirst, .close 0 wellClosed, .get getFirst] ∧
      ¬ Throughout call Proper .start [.get getFirst, .close 0 wellClosed, .get getFirst] := by
  refine ⟨by decide, fun h => ?_⟩
  have hclosed : ((call (.get getFirst) .start).bind (call (.close 0 wellClosed))).map
      (fun w => (lpqGet getFirst.pathname getFirst.answers w.reg).map fun res =>
        (res.lpq, (res.reg.lpqs 0).map fun q => res.reg.isOpen q.pq)) =
      some (some (some 0, some false)) := by
    decide
  obtain ⟨w, hw, hval⟩ := Option.map_eq_some_iff.1 hclosed
  obtain ⟨v, hv, hvw⟩ := Option.bind_eq_some_iff.1 hw
  obtain ⟨res, hres, hopen⟩ := ((h.2 v hv).2 w hvw).1
  rw [hres, Option.map_some, Option.some.injEq, Prod.mk.injEq] at hval
  obtain ⟨q, hq, ho⟩ := hopen 0 hval.1
  rw [hq, Option.map_some, ho] at hval
  exact absurd hval.2 (by decide)

end Noaaport.ProductQueue
