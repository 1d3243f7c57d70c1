import Noaaport.Lib.Memory

/-! Scanners: walks over a memory from an address on. What a scanner finds depends on the
cells it looks at, and a stop character in place of any of these ends the walk there. -/
namespace Noaaport.Lib
variable {α β γ : Type*}

/-- Two memories alike from `a` up to `b`. -/
def AgreeOn (a b : Nat) (m m' : Mem α) : Prop := ∀ i, a ≤ i → i < b → m i = m' i

section Agree
variable {a b : Nat} {m m' m'' : Mem α}

theorem AgreeOn.refl (a b : Nat) (m : Mem α) : AgreeOn a b m m := fun _ _ _ => rfl

theorem AgreeOn.symm (h : AgreeOn a b m m') : AgreeOn a b m' m := fun i ha hb => (h i ha hb).symm

theorem AgreeOn.mono {a' b' : Nat} (h : AgreeOn a b m m') (ha : a ≤ a') (hb : b' ≤ b) :
    AgreeOn a' b' m m' :=
  fun i hi hi' => h i (Nat.le_trans ha hi) (Nat.lt_of_lt_of_le hi' hb)

theorem AgreeOn.load {n c : Nat} (h : AgreeOn a b m m') (ha : a ≤ c) (hb : c + n ≤ b) :
    load m c n = load m' c n :=
  load_congr fun i hi => h (c + i) (by omega) (by omega)

theorem agreeOn_store (m : Mem α) {c : Nat} (bs : List α) (h : b ≤ c) :
    AgreeOn a b m (store m c bs) :=
  fun i _ hi => (store_before m c bs i (Nat.lt_of_lt_of_le hi h)).symm

end Agree

section Span
variable {p : α → Bool} {m m' : Mem α} {a k n : Nat}

/-- How many of the next `n` cells come before the first that is not `p`. -/
def span (p : α → Bool) (m : Mem α) (a n : Nat) : Nat := ((load m a n).takeWhile p).length

theorem span_le (p : α → Bool) (m : Mem α) (a n : Nat) : span p m a n ≤ n := by
  have h := (List.takeWhile_prefix p (l := load m a n)).length_le
  rwa [length_load] at h

theorem takeWhile_load (p : α → Bool) (m : Mem α) (a n : Nat) :
    (load m a n).takeWhile p = load m a (span p m a n) := by
  have h := List.prefix_iff_eq_take.1 (List.takeWhile_prefix p (l := load m a n))
  exact h.trans (load_take _ _ _ _ (span_le p m a n))

theorem span_congr (p : α → Bool) {a n : Nat} (h : AgreeOn a (a + n) m m') :
    span p m' a n = span p m a n := by
  unfold span
  rw [h.load (Nat.le_refl a) (Nat.le_refl _)]

theorem span_succ (p : α → Bool) (m : Mem α) (a n : Nat) :
    span p m a (n + 1) = if p (m a) then span p m (a + 1) n + 1 else 0 := by
  have hload : load m a (n + 1) = m a :: load m (a + 1) n := by
    rw [Nat.add_comm n 1, load_add]
    rfl
  rw [span, hload, List.takeWhile_cons]
  split_ifs
  · rfl
  · rfl

theorem span_spec (p : α → Bool) (m : Mem α) (a n : Nat) :
    (∀ i, i < span p m a n → p (m (a + i)) = true) ∧
      (span p m a n < n → p (m (a + span p m a n)) = false) := by
  induction n generalizing a with
  | zero => exact ⟨fun i hi => absurd hi (Nat.not_lt_zero i), fun h => absurd h (Nat.not_lt_zero _)⟩
  | succ n ih =>
    obtain ⟨ih₁, ih₂⟩ := ih (a + 1)
    rw [span_succ]
    split_ifs with hp
    · refine ⟨fun i hi => ?_, fun h => ?_⟩
      · cases i with
        | zero => exact hp
        | succ i =>
          rw [show a + (i + 1) = a + 1 + i by omega]
          exact ih₁ i (by omega)
      · rw [show a + (span p m (a + 1) n + 1) = a + 1 + span p m (a + 1) n by omega]
        exact ih₂ (by omega)
    · exact ⟨fun i hi => absurd hi (Nat.not_lt_zero i), fun _ => Bool.eq_false_iff.2 hp⟩

theorem span_eq (hk : k ≤ n) (h : ∀ i, i < k → p (m (a + i)) = true)
    (hend : k < n → p (m (a + k)) = false) : span p m a n = k := by
  obtain ⟨hall, hstop⟩ := span_spec p m a n
  have hle := span_le p m a n
  rcases Nat.lt_trichotomy (span p m a n) k with hlt | heq | hgt
  · exact absurd (hstop (by omega)) (by rw [h _ hlt]; decide)
  · exact heq
  · exact absurd (hall k hgt) (by rw [hend (by omega)]; decide)

/-- The cells up to the one that ends the span decide it. -/
theorem span_agree (h : AgreeOn a (a + span p m a n + 1) m m') :
    span p m' a n = span p m a n := by
  obtain ⟨hall, hstop⟩ := span_spec p m a n
  refine span_eq (span_le ..) (fun i hi => ?_) fun hlt => ?_
  · rw [← h (a + i) (by omega) (by omega)]
    exact hall i hi
  · rw [← h _ (by omega) (by omega)]
    exact hstop hlt

/-- Another cell that is not `p` cuts it short. -/
theorem span_cut (ha : a ≤ k) (hk : k ≤ a + span p m a n) (h : AgreeOn a k m m')
    (hc : p (m' k) = false) : span p m' a n = k - a := by
  obtain ⟨hall, -⟩ := span_spec p m a n
  have hle := span_le p m a n
  refine span_eq (by omega) (fun i hi => ?_) fun _ => ?_
  · rw [← h (a + i) (by omega) (by omega)]
    exact hall i (by omega)
  · rw [Nat.add_sub_cancel' ha]
    exact hc

end Span

/-- A walk from an address on: what it finds and where it ends, or nothing; `seen` is the
address behind the last cell it looks at. -/
structure Scanner (α β : Type*) where
  run : Mem α → Nat → Option (β × Nat)
  seen : Mem α → Nat → Nat
  looks : ∀ m a, a < seen m a
  ends : ∀ m a x b, run m a = some (x, b) → a ≤ b ∧ b ≤ seen m a
  agrees : ∀ m m' a, AgreeOn a (seen m a) m m' → run m' a = run m a ∧ seen m' a = seen m a

namespace Scanner
variable {S : Scanner α β} {f : β → Scanner α γ} {m m' : Mem α} {a b N d : Nat} {x : β} {c : α}

def map (S : Scanner α β) (g : β → γ) : Scanner α γ where
  run m a := (S.run m a).map fun x => (g x.1, x.2)
  seen := S.seen
  looks := S.looks
  ends m a x b h := by
    obtain ⟨⟨y, b'⟩, hy, he⟩ := Option.map_eq_some_iff.1 h
    cases he
    exact S.ends m a y _ hy
  agrees m m' a h := by
    obtain ⟨hrun, hseen⟩ := S.agrees m m' a h
    exact ⟨by rw [hrun], hseen⟩

/-- Where `S` finds nothing, stay and go on with `y`. -/
def orStay (S : Scanner α β) (y : β) : Scanner α β where
  run m a := some ((S.run m a).getD (y, a))
  seen := S.seen
  looks := S.looks
  ends m a x b h := by
    cases hr : S.run m a with
    | none =>
      rw [hr] at h
      cases h
      exact ⟨Nat.le_refl a, Nat.le_of_lt (S.looks m a)⟩
    | some z =>
      rw [hr] at h
      cases h
      exact S.ends m a x b hr
  agrees m m' a h := by
    obtain ⟨hrun, hseen⟩ := S.agrees m m' a h
    exact ⟨by rw [hrun], hseen⟩

def bind (S : Scanner α β) (f : β → Scanner α γ) : Scanner α γ where
  run m a := (S.run m a).bind fun x => (f x.1).run m x.2
  seen m a :=
    match S.run m a with
    | none => S.seen m a
    | some x => max (S.seen m a) ((f x.1).seen m x.2)
  looks m a := by
    have h := S.looks m a
    split
    · exact h
    · omega
  ends m a x b h := by
    obtain ⟨⟨y, b'⟩, hy, hx⟩ := Option.bind_eq_some_iff.1 h
    rw [hy]
    have h₁ := S.ends m a y b' hy
    have h₂ := (f y).ends m b' x b hx
    exact ⟨Nat.le_trans h₁.1 h₂.1, Nat.le_trans h₂.2 (Nat.le_max_right ..)⟩
  agrees m m' a h := by
    cases hr : S.run m a with
    | none =>
      rw [hr] at h
      obtain ⟨hrun, hseen⟩ := S.agrees m m' a h
      rw [hrun, hr]
      exact ⟨rfl, hseen⟩
    | some x =>
      rw [hr] at h
      obtain ⟨hrun, hseen⟩ := S.agrees m m' a (h.mono (Nat.le_refl a) (Nat.le_max_left ..))
      obtain ⟨hrun', hseen'⟩ := (f x.1).agrees m m' x.2
        (h.mono (S.ends m a x.1 x.2 hr).1 (Nat.le_max_right ..))
      rw [hrun, hr]
      exact ⟨hrun', by rw [hseen]; exact congrArg (max _) hseen'⟩

@[simp] theorem run_map (g : β → γ) (m : Mem α) (a : Nat) :
    (S.map g).run m a = (S.run m a).map fun x => (g x.1, x.2) := rfl

@[simp] theorem run_orStay (y : β) (m : Mem α) (a : Nat) :
    (S.orStay y).run m a = some ((S.run m a).getD (y, a)) := rfl

@[simp] theorem run_bind (m : Mem α) (a : Nat) :
    (S.bind f).run m a = (S.run m a).bind fun x => (f x.1).run m x.2 := rfl

theorem seen_bind_none (h : S.run m a = none) : (S.bind f).seen m a = S.seen m a := by
  change (match S.run m a with | none => _ | some x => _) = _
  rw [h]

theorem seen_bind_some (h : S.run m a = some (x, b)) :
    (S.bind f).seen m a = max (S.seen m a) ((f x).seen m b) := by
  change (match S.run m a with | none => _ | some x => _) = _
  rw [h]

/-- The character `c` in place of a cell below `N` that `S` looks at: the walk ends there,
or `d` behind it. -/
def StopsAt (c : α) (N d : Nat) (S : Scanner α β) : Prop :=
  ∀ m m' a k, a ≤ k → k < S.seen m a → k < N → AgreeOn a k m m' → m' k = c →
    ∃ x, S.run m' a = some (x, k + d)

/-- On the way to where the walk ends there is no `c`, but for the last `d` cells. -/
def Passes (c : α) (d : Nat) (S : Scanner α β) : Prop :=
  ∀ m a x b, S.run m a = some (x, b) → ∀ i, a ≤ i → i + d < b → m i ≠ c

theorem StopsAt.map {g : β → γ} (h : S.StopsAt c N d) : (S.map g).StopsAt c N d := by
  intro m m' a k ha hk hN hag hc
  obtain ⟨x, hx⟩ := h m m' a k ha hk hN hag hc
  exact ⟨g x, by rw [run_map, hx]; rfl⟩

theorem StopsAt.orStay (y : β) (h : S.StopsAt c N 0) : (S.orStay y).StopsAt c N 0 := by
  intro m m' a k ha hk hN hag hc
  obtain ⟨x, hx⟩ := h m m' a k ha hk hN hag hc
  exact ⟨x, by rw [run_orStay, hx]; rfl⟩

theorem StopsAt.bind (h : S.StopsAt c N 0) (hf : ∀ x, (f x).StopsAt c N d) :
    (S.bind f).StopsAt c N d := by
  intro m m' a k ha hk hN hag hc
  -- the first walk ends at the stop character, and so does the second at once
  have hfirst : k < S.seen m a → ∃ x, (S.bind f).run m' a = some (x, k + d) := by
    intro hlt
    obtain ⟨x, hx⟩ := h m m' a k ha hlt hN hag hc
    obtain ⟨y, hy⟩ := hf x m' m' k k (Nat.le_refl k) ((f x).looks m' k) hN (AgreeOn.refl k k m') hc
    exact ⟨y, by rw [run_bind, hx]; exact hy⟩
  by_cases hlt : k < S.seen m a
  · exact hfirst hlt
  · cases hr : S.run m a with
    | none =>
      rw [seen_bind_none hr] at hk
      exact absurd hk hlt
    | some x =>
      rw [seen_bind_some hr] at hk
      have hends := S.ends m a x.1 x.2 hr
      obtain ⟨hrun, -⟩ := S.agrees m m' a (hag.mono (Nat.le_refl a) (by omega))
      obtain ⟨y, hy⟩ := hf x.1 m m' x.2 k (by omega) (by omega) hN (hag.mono hends.1 (Nat.le_refl k)) hc
      exact ⟨y, by rw [run_bind, hrun, hr]; exact hy⟩

theorem Passes.map {g : β → γ} (h : S.Passes c d) : (S.map g).Passes c d := by
  intro m a x b hx
  obtain ⟨⟨y, b'⟩, hy, he⟩ := Option.map_eq_some_iff.1 hx
  cases he
  exact h m a y _ hy

theorem Passes.orStay (y : β) (h : S.Passes c 0) : (S.orStay y).Passes c 0 := by
  intro m a x b hx i hi hib
  cases hr : S.run m a with
  | none =>
    rw [run_orStay, hr] at hx
    cases hx
    omega
  | some z =>
    rw [run_orStay, hr] at hx
    cases hx
    exact h m a x b hr i hi hib

theorem Passes.bind (h : S.Passes c 0) (hf : ∀ x, (f x).Passes c d) : (S.bind f).Passes c d := by
  intro m a x b hx i hi hib
  obtain ⟨⟨y, b'⟩, hy, hx⟩ := Option.bind_eq_some_iff.1 hx
  by_cases hlt : i < b'
  · exact h m a y b' hy i hi hlt
  · exact hf y m b' x b hx i (Nat.le_of_not_lt hlt) hib

/-- What is found has the property `P`. -/
def Yields (P : β → Prop) (S : Scanner α β) : Prop :=
  ∀ m a x b, S.run m a = some (x, b) → P x

/-- The last cell of the walk is `c`. -/
def Closes (c : α) (S : Scanner α β) : Prop :=
  ∀ m a x b, S.run m a = some (x, b) → a < b ∧ m (b - 1) = c

theorem Yields.map {P : β → Prop} {Q : γ → Prop} {g : β → γ} (h : S.Yields P)
    (hg : ∀ x, P x → Q (g x)) : (S.map g).Yields Q := by
  intro m a x b hx
  obtain ⟨⟨y, b'⟩, hy, he⟩ := Option.map_eq_some_iff.1 hx
  cases he
  exact hg y (h m a y _ hy)

theorem Yields.orStay {P : β → Prop} {y : β} (h : S.Yields P) (hy : P y) :
    (S.orStay y).Yields P := by
  intro m a x b hx
  cases hr : S.run m a with
  | none =>
    rw [run_orStay, hr] at hx
    cases hx
    exact hy
  | some z =>
    rw [run_orStay, hr] at hx
    cases hx
    exact h m a x b hr

theorem Yields.bind {P : β → Prop} {Q : γ → Prop} (h : S.Yields P)
    (hf : ∀ x, P x → (f x).Yields Q) : (S.bind f).Yields Q := by
  intro m a x b hx
  obtain ⟨⟨y, b'⟩, hy, hx⟩ := Option.bind_eq_some_iff.1 hx
  exact hf y (h m a y b' hy) m b' x b hx

theorem Closes.map {g : β → γ} (h : S.Closes c) : (S.map g).Closes c := by
  intro m a x b hx
  obtain ⟨⟨y, b'⟩, hy, he⟩ := Option.map_eq_some_iff.1 hx
  cases he
  exact h m a y _ hy

theorem Closes.bind (hf : ∀ x, (f x).Closes c) : (S.bind f).Closes c := by
  intro m a x b hx
  obtain ⟨⟨y, b'⟩, hy, hx⟩ := Option.bind_eq_some_iff.1 hx
  obtain ⟨hlt, hc⟩ := hf y m b' x b hx
  exact ⟨Nat.lt_of_le_of_lt (S.ends m a y b' hy).1 hlt, hc⟩

end Scanner
end Noaaport.Lib
