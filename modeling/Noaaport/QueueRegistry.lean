import Mathlib.Data.List.Nodup
import Noaaport.ProductQueue

/-! What `lpqGet` does to the registry: an exact account of when a failure loses it. -/
namespace Noaaport.ProductQueue
open Lib
variable {r r' : Registry} {d : List (Text × Nat)} {path : Text} {pathname : Option Text}
  {ans : GetAnswers}

/-- The handles that the static variables lead to. -/
def Registry.handles (r : Registry) : Option (List Nat) :=
  match r.queues with
  | none => if r.queueCount = 0 then some [] else none
  | some array => r.arrays array

/-- The array is there and holds the `queueCount` handles of these paths. -/
structure Holds (r : Registry) (d : List (Text × Nat)) : Prop where
  handles : r.handles = some (d.map Prod.snd)
  count : r.queueCount = d.length
  paths : ∀ e ∈ d, (r.lpqs e.2).map Lpq.path = some e.1

/-- With nothing registered there is no array. -/
structure Sound (r : Registry) (d : List (Text × Nat)) : Prop extends Holds r d where
  distinct : (d.map Prod.fst).Nodup
  empty : d = [] → r.queues = none
  array : ∀ b, r.queues = some b → b < r.nextArray
  old : ∀ e ∈ d, e.2 < r.nextLpq

theorem Sound.nil : Sound .empty [] where
  handles := rfl
  count := rfl
  paths := nofun
  distinct := List.nodup_nil
  empty _ := rfl
  array := nofun
  old := nofun

section Search

theorem Holds.read (h : Holds r d) {i : Nat} (hi : i < d.length) : r.read i = some d[i].2 := by
  have hh := h.handles
  unfold Registry.handles at hh
  unfold Registry.read
  cases hq : r.queues with
  | none =>
    rw [hq] at hh
    have hc := h.count
    simp only [Option.ite_none_right_eq_some] at hh
    omega
  | some b =>
    rw [hq] at hh
    have hb : r.arrays b = some (d.map Prod.snd) := hh
    simp [hb, hi]

theorem Holds.search_cons (h : Holds r d) {i n : Nat} (hi : i < d.length) :
    search r path (n + 1) i = if d[i].1 = path then some i else search r path n (i + 1) := by
  obtain ⟨q, hq, hpath⟩ := Option.map_eq_some_iff.1 (h.paths d[i] (List.getElem_mem hi))
  rw [search, h.read hi, Option.bind_some, hq, Option.bind_some, hpath]

theorem Holds.search_of_notMem (h : Holds r d) (hp : path ∉ d.map Prod.fst) (n i : Nat)
    (hi : i + n = d.length) : search r path n i = some d.length := by
  induction n generalizing i with
  | zero => rw [search, ← hi, Nat.add_zero]
  | succ n ih =>
    have hne : d[i].1 ≠ path := by
      intro he
      exact hp (he ▸ List.mem_map_of_mem (List.getElem_mem _))
    rw [h.search_cons (by omega), if_neg hne]
    exact ih (i + 1) (by omega)

theorem Sound.search_of_mem (h : Sound r d) {k : Nat} (hk : k < d.length) (hp : d[k].1 = path)
    (n i : Nat) (hi : i + n = d.length) (hik : i ≤ k) : search r path n i = some k := by
  induction n generalizing i with
  | zero => omega
  | succ n ih =>
    rw [h.search_cons (by omega)]
    by_cases heq : i = k
    · subst heq
      rw [if_pos hp]
    · have hne : d[i].1 ≠ path := by
        intro he
        have hi' : i < (d.map Prod.fst).length := by rw [List.length_map]; omega
        have hk' : k < (d.map Prod.fst).length := by rwa [List.length_map]
        have hfst : (d.map Prod.fst)[i] = (d.map Prod.fst)[k] := by
          rw [List.getElem_map, List.getElem_map, he, hp]
        exact heq ((List.Nodup.getElem_inj_iff h.distinct).1 hfst)
      rw [if_neg hne]
      exact ih (i + 1) (by omega) (by omega)

/-- A registered path: its handle, and nothing changes. -/
theorem Sound.get_registered (h : Sound r d) (hl : ans.locked = true) {handle : Nat}
    (hp : (requested pathname ans, handle) ∈ d) :
    lpqGet pathname ans r = some ⟨0, some handle, r⟩ := by
  obtain ⟨k, hk, hkeq⟩ := List.mem_iff_getElem.1 hp
  have hpath : d[k].1 = requested pathname ans := by rw [hkeq]
  have hs := h.search_of_mem hk hpath r.queueCount 0
    (by rw [h.count]; omega) (Nat.zero_le _)
  have hlt : ¬ k ≥ r.queueCount := by
    rw [h.count]
    omega
  unfold lpqGet
  simp only [hl, Bool.true_eq_false, if_false, hs, Option.bind_some, if_neg hlt, h.read hk, hkeq,
    Option.map_some]

theorem Sound.get_new (h : Sound r d) (hl : ans.locked = true)
    (hp : requested pathname ans ∉ d.map Prod.fst) :
    lpqGet pathname ans r = register (requested pathname ans) ans r := by
  have hs := h.search_of_notMem hp r.queueCount 0 (by rw [h.count]; omega)
  unfold lpqGet
  simp only [hl, Bool.true_eq_false, if_false, hs, Option.bind_some]
  rw [if_pos (by rw [h.count])]

end Search

section Register

/-- Everything after `realloc` succeeds. -/
def GetAnswers.serves (ans : GetAnswers) : Prop :=
  ans.malloc = true ∧ ans.pqOpen = true ∧ ans.strdup = true ∧ ans.mutexInit = true

instance (ans : GetAnswers) : Decidable ans.serves := inferInstanceAs (Decidable (_ ∧ _ ∧ _ ∧ _))

/-- The static variables are as before, but the array they refer to is not there any more. -/
structure Lost (r r' : Registry) : Prop where
  queues : r'.queues = r.queues
  count : r'.queueCount = r.queueCount
  lpqs : r'.lpqs = r.lpqs
  opened : ∀ pq, pq < r.nextPq → r'.isOpen pq = r.isOpen pq
  next : r'.nextLpq = r.nextLpq ∧ r.nextPq ≤ r'.nextPq ∧ r.nextArray ≤ r'.nextArray
  freed : ∀ b, r.queues = some b → r'.arrays b = none

structure Added (r : Registry) (hs : List Nat) (path : Text) (r' : Registry) : Prop where
  array : ∃ b, r'.queues = some b ∧ r'.arrays b = some (hs ++ [r.nextLpq]) ∧ b < r'.nextArray
  count : r'.queueCount = r.queueCount + 1
  lpqs : r'.lpqs = Function.update r.lpqs r.nextLpq (some { path, pq := r.nextPq })
  opened : r'.isOpen = Function.update r.isOpen r.nextPq true
  next : r'.nextLpq = r.nextLpq + 1 ∧ r'.nextPq = r.nextPq + 1

inductive Registered (path : Text) (ans : GetAnswers) (r : Registry) (hs : List Nat) :
    Result → Prop where
  | refused (h : ans.realloc = .failed) : Registered path ans r hs ⟨2, none, r⟩
  | failed (hr : ans.realloc ≠ .failed) (hf : ¬ ans.serves) (status : Nat) (hst : status ≠ 0)
      (r' : Registry) (h : Lost r r') : Registered path ans r hs ⟨status, none, r'⟩
  | added (hr : ans.realloc ≠ .failed) (hf : ans.serves) (r' : Registry) (h : Added r hs path r') :
      Registered path ans r hs ⟨0, some r.nextLpq, r'⟩

/-- `realloc` itself. -/
structure Grown (r : Registry) (newArray : Nat) (r' : Registry) : Prop where
  queues : r'.queues = r.queues
  count : r'.queueCount = r.queueCount
  lpqs : r'.lpqs = r.lpqs
  opened : r'.isOpen = r.isOpen
  next : r'.nextLpq = r.nextLpq ∧ r'.nextPq = r.nextPq ∧ r.nextArray ≤ r'.nextArray
  below : newArray < r'.nextArray
  freed : ∀ b, r.queues = some b → (r'.free newArray).arrays b = none

theorem Sound.realloc (h : Sound r d) (moved : Bool) :
    ∃ newArray r', r.realloc moved = some (newArray, d.map Prod.snd, r') ∧ Grown r newArray r' := by
  have hh := h.handles
  unfold Registry.handles at hh
  unfold Registry.realloc
  cases hq : r.queues with
  | none =>
    rw [hq] at hh
    simp only [Option.ite_none_right_eq_some, Option.some.injEq] at hh
    rw [← hh.2]
    exact ⟨_, _, rfl, ⟨hq.symm, rfl, rfl, rfl, ⟨rfl, rfl, Nat.le_succ _⟩, Nat.lt_succ_self _, by simp [hq]⟩⟩
  | some b =>
    rw [hq] at hh
    have hb : r.arrays b = some (d.map Prod.snd) := hh
    have hlt := h.array b hq
    simp only [hb, Option.map_some]
    cases moved with
    | true =>
      refine ⟨_, _, rfl, ⟨rfl, rfl, rfl, rfl, ⟨rfl, rfl, Nat.le_succ _⟩, Nat.lt_succ_self _, ?_⟩⟩
      intro b' hb'
      cases hq.symm.trans hb'
      simp only [Registry.free]
      rw [Function.update_of_ne (by omega), Function.update_of_ne (by omega), Function.update_self]
    | false =>
      refine ⟨_, _, rfl, ⟨rfl, rfl, rfl, rfl, ⟨rfl, rfl, Nat.le_refl _⟩, hlt, ?_⟩⟩
      intro b' hb'
      cases hq.symm.trans hb'
      exact Function.update_self ..

/-- What becomes of a new path. -/
theorem Sound.register (h : Sound r d) (path : Text) (ans : GetAnswers) :
    ∃ res, register path ans r = some res ∧ Registered path ans r (d.map Prod.snd) res := by
  unfold ProductQueue.register
  by_cases hr : ans.realloc = .failed
  · rw [if_pos hr]
    exact ⟨_, rfl, .refused hr⟩
  rw [if_neg hr]
  obtain ⟨newArray, r₁, hre, hg⟩ := h.realloc (ans.realloc = .moved)
  rw [hre, Option.map_some]
  have hlost : Lost r (r₁.free newArray) :=
    ⟨hg.queues, hg.count, hg.lpqs, fun pq _ => congrFun hg.opened pq,
      ⟨hg.next.1, Nat.le_of_eq hg.next.2.1.symm, hg.next.2.2⟩, hg.freed⟩
  have hclosed : Lost r ((r₁.pqOpen.pqClose r₁.nextPq).free newArray) := by
    refine ⟨hg.queues, hg.count, hg.lpqs, fun pq hlt => ?_,
      ⟨hg.next.1, Nat.le_succ_of_le (Nat.le_of_eq hg.next.2.1.symm), hg.next.2.2⟩, hg.freed⟩
    have hne : pq ≠ r₁.nextPq := by
      rw [hg.next.2.1]
      exact Nat.ne_of_lt hlt
    simp only [Registry.free, Registry.pqClose, Registry.pqOpen]
    rw [Function.update_of_ne hne, Function.update_of_ne hne, hg.opened]
  refine ⟨_, rfl, ?_⟩
  dsimp only
  split
  · next h1 => exact .failed hr (fun hf => by simp [hf.1] at h1) 2 (by decide) _ hlost
  split
  · next h2 => exact .failed hr (fun hf => by simp [hf.2.1] at h2) 3 (by decide) _ hlost
  split
  · next h3 => exact .failed hr (fun hf => by simp [hf.2.2.1] at h3) 2 (by decide) _ hclosed
  split
  · next h4 => exact .failed hr (fun hf => by simp [hf.2.2.2] at h4) 2 (by decide) _ hclosed
  · next h1 h2 h3 h4 =>
    have hf : ans.serves := by
      simp only [Bool.not_eq_false] at h1 h2 h3 h4
      exact ⟨h1, h2, h3, h4⟩
    have hadded : Added r (d.map Prod.snd) path
        (r₁.pqOpen.append newArray (d.map Prod.snd) path r₁.nextPq) := by
      refine ⟨⟨newArray, rfl, ?_, hg.below⟩, congrArg (· + 1) hg.count, ?_, ?_,
        congrArg (· + 1) hg.next.1, congrArg (· + 1) hg.next.2.1⟩
      · simp [Registry.append, Registry.pqOpen, hg.next.1]
      · simp [Registry.append, Registry.pqOpen, hg.next.1, hg.next.2.1, hg.lpqs]
      · simp [Registry.append, Registry.pqOpen, hg.next.2.1, hg.opened]
    have hnext : r₁.pqOpen.nextLpq = r.nextLpq := hg.next.1
    rw [hnext]
    exact .added hr hf _ hadded

end Register
section Calls

/-- The array that the static variable refers to has been freed. -/
structure Dangling (r : Registry) : Prop where
  count : 0 < r.queueCount
  freed : ∀ b, r.queues = some b → r.arrays b = none

variable {c : GetCall} {res : Result}

inductive Outcome (r : Registry) (d : List (Text × Nat)) (c : GetCall) : Result → Prop where
  | unchanged (status : Nat) (hst : status ≠ 0)
      (h : c.answers.locked = false ∨ c.path ∉ d.map Prod.fst ∧ c.answers.realloc = .failed) :
      Outcome r d c ⟨status, none, r⟩
  | registered (hl : c.answers.locked = true) (handle : Nat) (h : (c.path, handle) ∈ d) :
      Outcome r d c ⟨0, some handle, r⟩
  | lost (hl : c.answers.locked = true) (hp : c.path ∉ d.map Prod.fst)
      (hr : c.answers.realloc ≠ .failed) (hf : ¬ c.answers.serves) (status : Nat)
      (hst : status ≠ 0) (r' : Registry) (h : Lost r r') : Outcome r d c ⟨status, none, r'⟩
  | added (hl : c.answers.locked = true) (hp : c.path ∉ d.map Prod.fst) (hf : c.answers.serves)
      (r' : Registry) (h : Added r (d.map Prod.snd) c.path r') :
      Outcome r d c ⟨0, some r.nextLpq, r'⟩

/-- Everything a call can do. -/
theorem Sound.get_cases (h : Sound r d) (c : GetCall) :
    ∃ res, lpqGet c.pathname c.answers r = some res ∧ Outcome r d c res := by
  cases hl : c.answers.locked with
  | false =>
    refine ⟨⟨2, none, r⟩, ?_, .unchanged 2 (by decide) (.inl hl)⟩
    rw [lpqGet, if_pos hl]
  | true =>
    by_cases hp : c.path ∈ d.map Prod.fst
    · obtain ⟨e, he, hpath⟩ := List.mem_map.1 hp
      have hmem : (c.path, e.2) ∈ d := hpath ▸ he
      exact ⟨_, h.get_registered hl hmem, .registered hl e.2 hmem⟩
    · obtain ⟨res, hres, hcase⟩ := h.register c.path c.answers
      refine ⟨res, (h.get_new hl hp).trans hres, ?_⟩
      cases hcase with
      | refused hr => exact .unchanged 2 (by decide) (.inr ⟨hp, hr⟩)
      | failed hr hf status hst r' hlost => exact .lost hl hp hr hf status hst r' hlost
      | added hr hf r' hadded => exact .added hl hp hf r' hadded

theorem Sound.lost_nil (h : Sound r []) (hl : Lost r r') : Sound r' [] where
  handles := by
    have hq := hl.queues.trans (h.empty rfl)
    have hc := hl.count.trans h.count
    unfold Registry.handles
    rw [hq]
    exact if_pos hc
  count := hl.count.trans h.count
  paths := nofun
  distinct := List.nodup_nil
  empty _ := hl.queues.trans (h.empty rfl)
  array b hb := Nat.lt_of_lt_of_le (h.array b (hl.queues.symm.trans hb)) hl.next.2.2
  old := nofun

theorem Sound.lost_cons (h : Sound r d) (hd : d ≠ []) (hl : Lost r r') : Dangling r' where
  count := by
    rw [hl.count, h.count]
    exact List.length_pos_of_ne_nil hd
  freed b hb := hl.freed b (hl.queues.symm.trans hb)

theorem Dangling.not_holds (h : Dangling r) : ¬ Holds r d := by
  intro hd
  have hc := h.count
  have hh := hd.handles
  unfold Registry.handles at hh
  split at hh
  · rw [if_neg (by omega)] at hh
    cases hh
  · next b hb =>
    rw [h.freed b hb] at hh
    cases hh

theorem Sound.added (h : Sound r d) (hp : path ∉ d.map Prod.fst)
    (ha : Added r (d.map Prod.snd) path r') : Sound r' (d ++ [(path, r.nextLpq)]) := by
  obtain ⟨b, hq, hb, hlt⟩ := ha.array
  refine ⟨⟨?_, ?_, ?_⟩, ?_, ?_, ?_, ?_⟩
  · unfold Registry.handles
    rw [hq]
    simpa using hb
  · rw [ha.count, h.count, List.length_append, List.length_singleton]
  · intro e he
    rw [ha.lpqs]
    obtain hold | hnew := List.mem_append.1 he
    · rw [Function.update_of_ne (Nat.ne_of_lt (h.old e hold))]
      exact h.paths e hold
    · rw [List.mem_singleton.1 hnew, Function.update_self]
      rfl
  · rw [List.map_append, List.nodup_append]
    refine ⟨h.distinct, List.nodup_singleton _, ?_⟩
    rintro x hx y hy rfl
    rw [List.mem_singleton.1 hy] at hx
    exact hp hx
  · intro he
    exact absurd he (by simp)
  · intro b' hb'
    cases hq.symm.trans hb'
    exact hlt
  · intro e he
    rw [ha.next.1]
    obtain hold | hnew := List.mem_append.1 he
    · exact Nat.lt_succ_of_lt (h.old e hold)
    · rw [List.mem_singleton.1 hnew]
      exact Nat.lt_succ_self _

/-- A failure behind a successful `realloc` of an array that the registry refers to. -/
def Spoils (r : Registry) (c : GetCall) : Prop :=
  c.answers.locked = true ∧ 0 < r.queueCount ∧
    search r c.path r.queueCount 0 = some r.queueCount ∧ c.answers.realloc ≠ .failed ∧
    ¬ c.answers.serves

instance (r : Registry) (c : GetCall) : Decidable (Spoils r c) :=
  inferInstanceAs (Decidable (_ ∧ _ ∧ _ ∧ _ ∧ _))

/-- What the call promises: with `d` registered before it and `d'` after it. -/
structure Kept (d : List (Text × Nat)) (c : GetCall) (res : Result) (d' : List (Text × Nat)) :
    Prop where
  failure : res.status ≠ 0 → d' = d
  success : res.status = 0 → ∃ h, res.lpq = some h ∧ (c.path, h) ∈ d' ∧ d <+: d'
  again : c.answers.locked = true → ∀ h, (c.path, h) ∈ d → res.status = 0 ∧ res.lpq = some h
  distinct : (d'.map Prod.fst).Nodup

def Survives (r : Registry) (c : GetCall) : Prop :=
  ∃ d res d', Holds r d ∧ lpqGet c.pathname c.answers r = some res ∧ Holds res.reg d' ∧
    Kept d c res d'

theorem Sound.not_spoils (h : Sound r d) (hp : c.path ∈ d.map Prod.fst) : ¬ Spoils r c := by
  rintro ⟨-, -, hs, -⟩
  obtain ⟨e, he, hpath⟩ := List.mem_map.1 hp
  obtain ⟨k, hk, hkeq⟩ := List.mem_iff_getElem.1 he
  have hpk : d[k].1 = c.path := by rw [hkeq, hpath]
  have hsk := h.search_of_mem hk hpk r.queueCount 0
    (by rw [h.count]; omega) (Nat.zero_le _)
  have hkc := Option.some.inj (hsk.symm.trans hs)
  rw [h.count] at hkc
  omega

theorem Kept.refused {status : Nat} (h : Sound r d) (hst : status ≠ 0)
    (hp : c.answers.locked = false ∨ c.path ∉ d.map Prod.fst) (r' : Registry) :
    Kept d c ⟨status, none, r'⟩ d where
  failure _ := rfl
  success h0 := absurd h0 hst
  again hl handle hmem := by
    obtain hf | hnew := hp
    · rw [hf] at hl
      cases hl
    · exact absurd (List.mem_map_of_mem (f := Prod.fst) hmem) hnew
  distinct := h.distinct

theorem Sound.mem_unique (h : Sound r d) {a b : Nat} (ha : (path, a) ∈ d) (hb : (path, b) ∈ d) :
    a = b :=
  congrArg Prod.snd (List.inj_on_of_nodup_map h.distinct ha hb rfl)

/-- A call keeps its promises exactly if it does not lose the array. -/
theorem Sound.survives_iff (h : Sound r d) (c : GetCall) : Survives r c ↔ ¬ Spoils r c := by
  obtain ⟨res, hget, hcase⟩ := h.get_cases c
  cases hcase with
  | unchanged status hst hor =>
    have hp : c.answers.locked = false ∨ c.path ∉ d.map Prod.fst := hor.imp_right And.left
    refine ⟨fun _ => ?_, fun _ => ⟨d, _, d, h.toHolds, hget, h.toHolds, .refused h hst hp r⟩⟩
    rintro ⟨hl, -, -, hr, -⟩
    obtain hf | ⟨-, hfail⟩ := hor
    · rw [hf] at hl
      cases hl
    · exact hr hfail
  | registered hl handle hmem =>
    refine ⟨fun _ => h.not_spoils (List.mem_map_of_mem (f := Prod.fst) hmem), fun _ =>
      ⟨d, _, d, h.toHolds, hget, h.toHolds, fun hne => absurd rfl hne, fun _ =>
        ⟨handle, rfl, hmem, List.prefix_refl d⟩, fun _ h' hmem' => ⟨rfl, ?_⟩, h.distinct⟩⟩
    exact congrArg some (h.mem_unique hmem hmem')
  | lost hl hp hr hf status hst r' hlost =>
    by_cases hd : d = []
    · subst hd
      have hs := h.lost_nil hlost
      refine ⟨fun _ hsp => ?_, fun _ => ⟨[], _, [], h.toHolds, hget, hs.toHolds, .refused h hst (.inr hp) r'⟩⟩
      have hpos := hsp.2.1
      rw [h.count] at hpos
      exact Nat.lt_irrefl 0 hpos
    · constructor
      · rintro ⟨d₀, res, d', -, hget', hd', -⟩
        cases hget.symm.trans hget'
        exact absurd hd' (h.lost_cons hd hlost).not_holds
      · intro hns
        refine absurd ⟨hl, ?_, ?_, hr, hf⟩ hns
        · rw [h.count]
          exact List.length_pos_of_ne_nil hd
        · rw [h.search_of_notMem hp r.queueCount 0 (by rw [h.count]; omega), h.count]
  | added hl hp hf r' hadded =>
    have hs := h.added hp hadded
    refine ⟨fun _ hsp => hsp.2.2.2.2 hf, fun _ => ⟨d, _, _, h.toHolds, hget, hs.toHolds,
      fun hne => absurd rfl hne, fun _ => ⟨r.nextLpq, rfl, by simp, List.prefix_append ..⟩, ?_, hs.distinct⟩⟩
    exact fun _ h' hmem => absurd (List.mem_map_of_mem (f := Prod.fst) hmem) hp

theorem Sound.survived (h : Sound r d) (hs : Survives r c) (hr : get c r = some r') :
    ∃ d', Sound r' d' := by
  obtain ⟨res, hget, hcase⟩ := h.get_cases c
  obtain ⟨d₀, res', d', -, hget', hd', -⟩ := hs
  cases hget.symm.trans hget'
  unfold get at hr
  rw [hget, Option.map_some] at hr
  cases hr
  cases hcase with
  | unchanged => exact ⟨d, h⟩
  | registered => exact ⟨d, h⟩
  | lost hl hp hr hf status hst r' hlost =>
    by_cases hd : d = []
    · subst hd
      exact ⟨[], h.lost_nil hlost⟩
    · exact absurd hd' (h.lost_cons hd hlost).not_holds
  | added hl hp hf r' hadded => exact ⟨_, h.added hp hadded⟩

/-- Along any sequence of calls the registry survives exactly as long as no call fails
between `realloc` and the end with something registered. -/
theorem registry_survives_iff (calls : List GetCall) :
    Throughout get Survives .empty calls ↔
      Throughout get (fun r c => ¬ Spoils r c) .empty calls := by
  refine Throughout.iff_of_invariant (A := fun _ _ => True) (I := fun r => ∃ d, Sound r d)
    ?_ ?_ ⟨[], .nil⟩ ?_
  · rintro r c ⟨d, h⟩ -
    exact h.survives_iff c
  · rintro r c r' ⟨d, h⟩ - hs hr
    exact h.survived hs hr
  · exact Throughout.of_true _ _

/-- Everything succeeds. -/
def allServe : GetAnswers where
  locked := true
  queuePath := []
  realloc := .moved
  malloc := true
  pqOpen := true
  strdup := true
  mutexInit := true

/-- `pq_open` fails for the second of two paths. -/
def getFirst : GetCall := ⟨some [97], allServe⟩
def getSecond : GetCall := ⟨some [98], { allServe with pqOpen := false }⟩

/-- The registered path is lost with the array. -/
theorem failed_open_loses_registry :
    (((get getFirst .empty).bind (get getSecond)).bind (get getFirst)).isNone = true ∧
      ¬ Throughout get Survives .empty [getFirst, getSecond] := by
  have hnone : ((get getFirst .empty).bind (get getSecond)).bind Registry.handles = none := by decide
  refine ⟨by decide, fun h => ?_⟩
  obtain ⟨-, hrest⟩ := h
  cases hr : get getFirst .empty with
  | none => exact absurd hr (by decide)
  | some r =>
    obtain ⟨⟨d, res, d', -, hget, hd', -⟩, -⟩ := hrest r hr
    have hreg : get getSecond r = some res.reg := by
      rw [get, hget]
      rfl
    rw [hr, Option.bind_some, hreg, Option.bind_some, hd'.handles] at hnone
    cases hnone

end Calls
end Noaaport.ProductQueue
