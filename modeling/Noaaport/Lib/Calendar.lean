import Mathlib.Algebra.BigOperators.Fin
import Mathlib.Algebra.Order.BigOperators.Group.Finset
import Mathlib.Logic.Function.Iterate
import Mathlib.Tactic.SplitIfs

/-! A calendar of years, months and days, whose months may be of different lengths in different
years: the day after a day, and the number of each day from the first one of year 0 on. -/
namespace Noaaport.Lib

section Sums
variable {f : Nat → Nat} {i j a b : Nat}

theorem sum_range_add_le (h : i < j) (hb : a ≤ f i) :
    ∑ k ∈ Finset.range i, f k + a ≤ ∑ k ∈ Finset.range j, f k := by
  have hsub : ∑ k ∈ Finset.range (i + 1), f k ≤ ∑ k ∈ Finset.range j, f k :=
    Finset.sum_le_sum_of_subset (Finset.range_mono h)
  rw [Finset.sum_range_succ] at hsub
  omega

/-- A place within consecutive blocks says which block it is in and where in it. -/
theorem block_unique (ha : 1 ≤ a) (ha' : a ≤ f i) (hb : 1 ≤ b) (hb' : b ≤ f j)
    (h : ∑ k ∈ Finset.range i, f k + a = ∑ k ∈ Finset.range j, f k + b) : i = j ∧ a = b := by
  rcases Nat.lt_trichotomy i j with hlt | rfl | hlt
  · have hle := sum_range_add_le hlt ha'
    omega
  · exact ⟨rfl, by omega⟩
  · have hle := sum_range_add_le hlt hb'
    omega

end Sums

structure Calendar where
  months : Nat
  days : Nat → Nat → Nat
  months_pos : 0 < months
  days_pos : ∀ y m, 0 < days y m

@[ext] structure Day where
  year : Nat
  month : Nat
  day : Nat
  deriving DecidableEq

namespace Calendar
variable (c : Calendar) {d e : Day} {y m n k : Nat}

structure Valid (d : Day) : Prop where
  month : 1 ≤ d.month ∧ d.month ≤ c.months
  day : 1 ≤ d.day ∧ d.day ≤ c.days d.year d.month

/-- The day after a day. -/
def next (d : Day) : Day :=
  if d.day = c.days d.year d.month then
    if d.month = c.months then ⟨d.year + 1, 1, 1⟩ else ⟨d.year, d.month + 1, 1⟩
  else ⟨d.year, d.month, d.day + 1⟩

/-- The days of the year before a month. -/
def before (y m : Nat) : Nat := ∑ i ∈ Finset.range (m - 1), c.days y (i + 1)

def yearLength (y : Nat) : Nat := ∑ i ∈ Finset.range c.months, c.days y (i + 1)

def ofYear (d : Day) : Nat := c.before d.year d.month + d.day

def ordinal (d : Day) : Nat := ∑ y ∈ Finset.range d.year, c.yearLength y + c.ofYear d

variable {c}

theorem Valid.next (h : c.Valid d) : c.Valid (c.next d) := by
  obtain ⟨⟨hm, hm'⟩, hd, hd'⟩ := h
  have hpos := c.months_pos
  unfold Calendar.next
  split_ifs with hlast hyear
  · exact ⟨⟨Nat.le_refl 1, hpos⟩, Nat.le_refl 1, c.days_pos _ _⟩
  · exact ⟨⟨Nat.le_add_left 1 _, by simp only; omega⟩, Nat.le_refl 1, c.days_pos _ _⟩
  · exact ⟨⟨hm, hm'⟩, Nat.le_add_left 1 _, by simp only; omega⟩

theorem before_succ (hm : 1 ≤ m) : c.before y (m + 1) = c.before y m + c.days y m := by
  obtain ⟨m, rfl⟩ : ∃ n, m = n + 1 := ⟨m - 1, by omega⟩
  simp only [before, Nat.add_sub_cancel, Finset.sum_range_succ]

theorem before_last : c.before y c.months + c.days y c.months = c.yearLength y := by
  rw [← before_succ c.months_pos]
  rfl

/-- The day after a day has the next number. -/
theorem ordinal_next (h : c.Valid d) : c.ordinal (c.next d) = c.ordinal d + 1 := by
  unfold Calendar.next
  split_ifs with hlast hyear
  · simp only [ordinal, ofYear, Finset.sum_range_succ, hlast, hyear]
    rw [← before_last]
    simp [before]
  · simp only [ordinal, ofYear, before_succ h.month.1, hlast]
    omega
  · simp only [ordinal, ofYear]
    omega

theorem Valid.iterate (h : c.Valid d) (k : Nat) :
    c.Valid (c.next^[k] d) ∧ c.ordinal (c.next^[k] d) = c.ordinal d + k := by
  induction k with
  | zero => exact ⟨h, rfl⟩
  | succ k ih =>
    rw [Function.iterate_succ_apply']
    exact ⟨ih.1.next, by rw [ordinal_next ih.1, ih.2, Nat.add_assoc]⟩

theorem Valid.ofYear_le (h : c.Valid d) : 1 ≤ c.ofYear d ∧ c.ofYear d ≤ c.yearLength d.year := by
  obtain ⟨⟨hm, hm'⟩, hd, hd'⟩ := h
  refine ⟨by unfold ofYear; omega, ?_⟩
  have hle := sum_range_add_le (f := fun i => c.days d.year (i + 1)) (i := d.month - 1) (j := c.months)
    (a := d.day) (by omega) (by simpa [Nat.sub_add_cancel hm] using hd')
  exact hle

/-- No two days have one number. -/
theorem Valid.ordinal_inj (h : c.Valid d) (h' : c.Valid e) (heq : c.ordinal d = c.ordinal e) : d = e := by
  obtain ⟨hyear, hday⟩ := block_unique h.ofYear_le.1 h.ofYear_le.2 h'.ofYear_le.1 h'.ofYear_le.2 heq
  have hin : ∀ {x : Day}, c.Valid x → x.day ≤ c.days x.year (x.month - 1 + 1) := by
    intro x hx
    rw [Nat.sub_add_cancel hx.month.1]
    exact hx.day.2
  have hin' := hin h'
  rw [← hyear] at hin'
  unfold ofYear before at hday
  rw [← hyear] at hday
  obtain ⟨hmonth, hdays⟩ := block_unique (f := fun i => c.days d.year (i + 1)) h.day.1 (hin h) h'.day.1 hin' hday
  have hm := h.month.1
  have hm' := h'.month.1
  exact Day.ext hyear (by omega) hdays

end Calendar
end Noaaport.Lib
