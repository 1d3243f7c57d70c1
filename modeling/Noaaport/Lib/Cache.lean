import Mathlib.Data.List.Basic
import Mathlib.Logic.Function.Basic

/-! Two caches of a reader of tables: one table is held under its name, and a read that fails
empties it and leaves the name; and a search that tries its last answer first. -/
namespace Noaaport.Lib

structure Held (N R : Type*) where
  currtable : Option N
  rows : List R

namespace Held
variable {N R : Type*} {read : N → Option (List R)} {past : List N} {n x : N}

/-- The name was asked for, and since then nothing else that can be read. -/
def Stays (read : N → Option (List R)) (past : List N) (name : N) : Prop :=
  ∃ mid pre, past = mid ++ name :: pre ∧ ∀ x ∈ mid, x = name ∨ read x = none

/-- And since then something was asked for that cannot be read. -/
def Lost (read : N → Option (List R)) (past : List N) (name : N) : Prop :=
  ∃ mid pre, past = mid ++ name :: pre ∧ (∀ x ∈ mid, x = name ∨ read x = none) ∧ ∃ x ∈ mid, read x = none

theorem not_stays_nil : ¬ Stays read [] n := by
  intro ⟨mid, pre, h, _⟩
  cases mid <;> simp at h

theorem Lost.stays (h : Lost read past n) : Stays read past n := by
  obtain ⟨mid, pre, hpast, hmid, _⟩ := h
  exact ⟨mid, pre, hpast, hmid⟩

theorem stays_cons : Stays read (x :: past) n ↔ x = n ∨ read x = none ∧ Stays read past n := by
  constructor
  · intro ⟨mid, pre, hpast, hmid⟩
    cases mid with
    | nil => exact .inl (List.cons.inj hpast).1
    | cons y mid =>
      obtain ⟨rfl, rfl⟩ := List.cons.inj hpast
      have hrest : Stays read (mid ++ n :: pre) n :=
        ⟨mid, pre, rfl, fun z hz => hmid z (List.mem_cons_of_mem _ hz)⟩
      exact (hmid x List.mem_cons_self).imp id fun hx => ⟨hx, hrest⟩
  · intro h
    rcases h with rfl | ⟨hx, mid, pre, rfl, hmid⟩
    · exact ⟨[], past, rfl, by simp⟩
    · exact ⟨x :: mid, pre, rfl, by simpa [hx] using hmid⟩

theorem lost_cons : Lost read (x :: past) n ↔
    read x = none ∧ Stays read past n ∨ x = n ∧ Lost read past n := by
  constructor
  · intro ⟨mid, pre, hpast, hmid, hbad⟩
    cases mid with
    | nil => simp at hbad
    | cons y mid =>
      obtain ⟨rfl, rfl⟩ := List.cons.inj hpast
      have hrest : ∀ z ∈ mid, z = n ∨ read z = none := fun z hz => hmid z (List.mem_cons_of_mem _ hz)
      by_cases hx : read x = none
      · exact .inl ⟨hx, mid, pre, rfl, hrest⟩
      · obtain ⟨z, hz, hnone⟩ := hbad
        have hmem : z ∈ mid := (List.mem_cons.1 hz).resolve_left fun heq => hx (heq ▸ hnone)
        exact .inr ⟨(hmid x List.mem_cons_self).resolve_right hx, mid, pre, rfl, hrest, z, hmem, hnone⟩
  · intro h
    rcases h with ⟨hx, mid, pre, rfl, hmid⟩ | ⟨rfl, mid, pre, rfl, hmid, z, hz, hbad⟩
    · exact ⟨x :: mid, pre, rfl, by simpa [hx] using hmid, x, List.mem_cons_self, hx⟩
    · exact ⟨x :: mid, pre, rfl, by simpa using hmid, z, List.mem_cons_of_mem _ hz, hbad⟩

/-- A cache that is asked for one name only loses nothing. -/
theorem not_lost_of_const (hread : read n ≠ none) (h : ∀ x ∈ past, x = n) : ¬ Lost read past n := by
  intro ⟨mid, pre, hpast, _, x, hx, hbad⟩
  rw [hpast] at h
  rw [h x (List.mem_append_left _ hx)] at hbad
  exact hread hbad

def fresh : Held N R := ⟨none, []⟩

/-- What a cache holds after requests: the name that stays, with its table where that is not lost. -/
structure Holds (read : N → Option (List R)) (past : List N) (s : Held N R) : Prop where
  name : ∀ n, s.currtable = some n ↔ read n ≠ none ∧ Stays read past n
  lost : ∀ n, s.currtable = some n → Lost read past n → s.rows = []
  kept : ∀ n, s.currtable = some n → ¬ Lost read past n → read n = some s.rows

theorem Holds.fresh : Holds read [] (fresh : Held N R) where
  name n := by simp [Held.fresh, not_stays_nil]
  lost n h := by simp [Held.fresh] at h
  kept n h := by simp [Held.fresh] at h

variable [DecidableEq N] {s : Held N R}

/-- The cache behind a request, and the table that is served. -/
def request (read : N → Option (List R)) (s : Held N R) (name : N) : Held N R × Option (List R) :=
  if s.currtable = some name then (s, some s.rows)
  else
    match read name with
    | none => (⟨s.currtable, []⟩, none)
    | some rows => (⟨some name, rows⟩, some rows)

theorem Holds.request (h : Holds read past s) (x : N) : Holds read (x :: past) (s.request read x).1 := by
  by_cases hcurr : s.currtable = some x
  · have hread := ((h.name x).1 hcurr).1
    rw [Held.request, if_pos hcurr]
    constructor
    · intro n
      simp only [stays_cons, hread, hcurr, false_and, or_false, Option.some.injEq]
      exact ⟨fun heq => ⟨heq ▸ hread, heq⟩, fun heq => heq.2⟩
    · intro n hn hlost
      simp only [lost_cons, hread, false_and, false_or] at hlost
      exact h.lost n hn hlost.2
    · intro n hn hlost
      simp only [lost_cons, hread, false_and, false_or] at hlost
      exact h.kept n hn fun hl => hlost ⟨Option.some.inj (hcurr.symm.trans hn), hl⟩
  · cases hread : read x with
    | none =>
      simp only [Held.request, if_neg hcurr, hread]
      constructor
      · intro n
        simp only [h.name, stays_cons, hread, true_and]
        refine and_congr_right fun hn => (or_iff_right ?_).symm
        rintro rfl
        exact hn hread
      · intro n _ _
        rfl
      · intro n hn hlost
        exact absurd (lost_cons.2 (.inl ⟨hread, ((h.name n).1 hn).2⟩)) hlost
    | some rows =>
      simp only [Held.request, if_neg hcurr, hread]
      constructor
      · intro n
        simp only [stays_cons, hread, reduceCtorEq, false_and, or_false, Option.some.injEq]
        exact ⟨fun heq => ⟨by simp [← heq, hread], heq⟩, fun heq => heq.2⟩
      · intro n hn hlost
        obtain rfl := Option.some.inj hn
        simp only [lost_cons, hread, reduceCtorEq, false_and, false_or, true_and] at hlost
        exact absurd ((h.name x).2 ⟨by simp [hread], hlost.stays⟩) hcurr
      · intro n hn _
        obtain rfl := Option.some.inj hn
        exact hread

/-- The table of a name is served as it is read, but for one that is lost: that is served empty. -/
theorem Holds.served (h : Holds read past s) (x : N) :
    (Lost read past x → read x ≠ none → (s.request read x).2 = some []) ∧
      (¬ Lost read past x → (s.request read x).2 = read x) ∧
      (read x = none → (s.request read x).2 = none) := by
  by_cases hcurr : s.currtable = some x
  · rw [Held.request, if_pos hcurr]
    exact ⟨fun hl _ => congrArg some (h.lost x hcurr hl), fun hl => (h.kept x hcurr hl).symm,
      fun hn => absurd hn ((h.name x).1 hcurr).1⟩
  · have hserved : (s.request read x).2 = read x := by
      cases hread : read x <;> simp only [Held.request, if_neg hcurr, hread]
    rw [hserved]
    exact ⟨fun hl hn => absurd ((h.name x).2 ⟨hn, hl.stays⟩) hcurr, fun _ => rfl, id⟩

end Held

section Latest
variable {Q A B : Type*} {rows : List A} {ok : Q → A → Bool} {past : List Q} {q : Q} {a : A}

/-- The rows from the first on, but for the last answer, which is tried before them. -/
def search (rows : List A) (p : A → Bool) (last : Option A) : Option A :=
  (last.filter p).or (rows.find? p)

/-- The last answer behind searches, the latest first. -/
def latest (rows : List A) (ok : Q → A → Bool) : List Q → Option A
  | [] => none
  | q :: past => (search rows (ok q) (latest rows ok past)).or (latest rows ok past)

/-- The last answer is the first row of some search. -/
theorem latest_first (h : latest rows ok past = some a) : ∃ q ∈ past, rows.find? (ok q) = some a := by
  induction past with
  | nil => simp [latest] at h
  | cons q past ih =>
    unfold latest search at h
    cases hlast : latest rows ok past with
    | none =>
      simp only [hlast, Option.filter_none, Option.none_or, Option.or_none] at h
      exact ⟨q, List.mem_cons_self, h⟩
    | some b =>
      rw [hlast] at h
      by_cases hb : ok q b
      · simp only [Option.filter_some, hb, if_true, Option.some_or, Option.some.injEq] at h
        obtain ⟨q', hq', hfirst⟩ := ih (hlast.trans (congrArg some h))
        exact ⟨q', List.mem_cons_of_mem _ hq', hfirst⟩
      · simp only [Option.filter_some, if_neg hb, Option.none_or, Option.or_eq_some_iff] at h
        rcases h with hfind | ⟨_, hb⟩
        · exact ⟨q, List.mem_cons_self, hfind⟩
        · obtain ⟨q', hq', hfirst⟩ := ih (hlast.trans hb)
          exact ⟨q', List.mem_cons_of_mem _ hq', hfirst⟩

/-- A search answers in every run as the search from the first row on exactly where no row that
comes first in one search is behind a row of another value in another. -/
theorem search_latest_iff (rows : List A) (ok : Q → A → Bool) (valid : Q → Prop) (f : Option A → B) :
    (∀ past q, (∀ x ∈ past, valid x) → valid q →
      f (search rows (ok q) (latest rows ok past)) = f (rows.find? (ok q))) ↔
    ∀ q q' a, valid q → valid q' → rows.find? (ok q') = some a → ok q a = true →
      f (rows.find? (ok q)) = f (some a) := by
  constructor
  · intro h q q' a hq hq' hfirst hok
    have hrun := h [q'] q (by simpa using hq') hq
    simp only [latest, search, Option.filter_none, Option.none_or, hfirst, Option.or_none,
      Option.filter_some, hok, if_true, Option.some_or] at hrun
    exact hrun.symm
  · intro h past q hpast hq
    cases hlast : latest rows ok past with
    | none => rfl
    | some a =>
      obtain ⟨q', hq', hfirst⟩ := latest_first hlast
      by_cases hok : ok q a
      · simp only [search, Option.filter_some, hok, if_true, Option.some_or]
        exact (h q q' a hq (hpast q' hq') hfirst hok).symm
      · simp only [search, Option.filter_some, if_neg hok, Option.none_or]

end Latest
end Noaaport.Lib
