import Noaaport.Lib.Memory

/-! Loops that go over a buffer by the lengths they find in it: what the turns reach, when such a
loop returns and when it never does. -/
namespace Noaaport.Lib
variable {σ ρ : Type*}

/-- One turn at a position: so far on with a state, or out of the loop. -/
inductive Turn (σ ρ : Type*) where
  | on (len : Nat) (s : σ)
  | out (r : ρ)

def walk (turn : Nat → σ → Turn σ ρ) : Nat → Nat → σ → Option ρ
  | 0, _, _ => none
  | fuel + 1, pos, s =>
    match turn pos s with
    | .on len s' => walk turn fuel (pos + len) s'
    | .out r => some r

/-- `k` turns lead from a position and a state to others. -/
inductive Goes (turn : Nat → σ → Turn σ ρ) : Nat → Nat → σ → Nat → σ → Prop
  | refl (a : Nat) (s : σ) : Goes turn 0 a s a s
  | step {k a b len : Nat} {s s' t : σ} (h : turn a s = .on len s')
      (rest : Goes turn k (a + len) s' b t) : Goes turn (k + 1) a s b t

/-- A position where no state leaves the loop or gets further. -/
def StaysAt (turn : Nat → σ → Turn σ ρ) (b : Nat) : Prop := ∀ t, ∃ t', turn b t = .on 0 t'

section Walk
variable {turn : Nat → σ → Turn σ ρ} {k fuel a b len last : Nat} {s s' t : σ} {r r' : ρ}

theorem walk_on (h : turn a s = .on len s') : walk turn (fuel + 1) a s = walk turn fuel (a + len) s' := by
  rw [walk, h]

theorem walk_out (h : turn a s = .out r) : walk turn (fuel + 1) a s = some r := by rw [walk, h]

theorem Goes.le (h : Goes turn k a s b t) : a ≤ b := by
  induction h with
  | refl => exact Nat.le_refl _
  | step _ _ ih => omega

theorem Goes.trans {j c : Nat} {u : σ} (h : Goes turn k a s b t) (h' : Goes turn j b t c u) :
    Goes turn (j + k) a s c u := by
  induction h with
  | refl => exact h'
  | step hstep _ ih => exact .step hstep (ih h')

/-- The fuel that some turns use up is the number of them. -/
theorem Goes.walk_eq (h : Goes turn k a s b t) (fuel : Nat) :
    walk turn (fuel + k) a s = walk turn fuel b t := by
  induction h with
  | refl => rfl
  | step hstep _ ih => rw [← Nat.add_assoc, walk_on hstep, ih]

theorem Goes.unique {b' : Nat} {t' : σ} (h : Goes turn k a s b t) (h' : Goes turn k a s b' t') :
    b = b' ∧ t = t' := by
  induction h with
  | refl =>
    cases h'
    exact ⟨rfl, rfl⟩
  | step hstep _ ih =>
    cases h' with
    | step hstep' rest =>
      rw [hstep] at hstep'
      cases hstep'
      exact ih rest

theorem walk_eq_some : walk turn fuel a s = some r ↔
    ∃ k b t, k < fuel ∧ Goes turn k a s b t ∧ turn b t = .out r := by
  constructor
  · intro h
    induction fuel generalizing a s with
    | zero => simp [walk] at h
    | succ fuel ih =>
      cases hturn : turn a s with
      | on len s' =>
        rw [walk_on hturn] at h
        obtain ⟨k, b, t, hk, hgoes, hout⟩ := ih h
        exact ⟨k + 1, b, t, by omega, .step hturn hgoes, hout⟩
      | out r' =>
        rw [walk_out hturn] at h
        cases h
        exact ⟨0, a, s, by omega, .refl a s, hturn⟩
  · intro h
    obtain ⟨k, b, t, hk, hgoes, hout⟩ := h
    obtain ⟨n, rfl⟩ := Nat.exists_eq_add_of_lt hk
    rw [show k + n + 1 = n + 1 + k by omega, hgoes.walk_eq, walk_out hout]

theorem walk_eq_none : walk turn fuel a s = none ↔ ∃ b t, Goes turn fuel a s b t := by
  constructor
  · intro h
    induction fuel generalizing a s with
    | zero => exact ⟨a, s, .refl a s⟩
    | succ fuel ih =>
      cases hturn : turn a s with
      | on len s' =>
        rw [walk_on hturn] at h
        obtain ⟨b, t, hgoes⟩ := ih h
        exact ⟨b, t, .step hturn hgoes⟩
      | out r' =>
        rw [walk_out hturn] at h
        simp at h
  · intro h
    obtain ⟨b, t, hgoes⟩ := h
    have heq := hgoes.walk_eq 0
    rwa [Nat.zero_add] at heq

theorem walk_mono {more : Nat} (h : walk turn fuel a s = some r) (hmore : fuel ≤ more) :
    walk turn more a s = some r := by
  obtain ⟨k, b, t, hk, hgoes⟩ := walk_eq_some.1 h
  exact walk_eq_some.2 ⟨k, b, t, by omega, hgoes⟩

/-- Whatever the fuel, a loop returns one thing. -/
theorem walk_unique {fuel' : Nat} (h : walk turn fuel a s = some r)
    (h' : walk turn fuel' a s = some r') : r = r' := by
  have hmax := walk_mono h (Nat.le_max_left fuel fuel')
  rw [walk_mono h' (Nat.le_max_right fuel fuel')] at hmax
  exact (Option.some.inj hmax).symm

/-- A loop that stays at a position whatever its state never returns. -/
theorem Goes.stays (hstay : StaysAt turn b) (h : Goes turn k a s b t) (fuel : Nat) :
    walk turn fuel a s = none := by
  have hloop : ∀ n t, ∃ t', Goes turn n b t b t' := by
    intro n
    induction n with
    | zero => exact fun t => ⟨t, .refl b t⟩
    | succ n ih =>
      intro t
      obtain ⟨t', ht'⟩ := hstay t
      obtain ⟨u, hu⟩ := ih t'
      exact ⟨u, .step ht' hu⟩
  obtain ⟨u, hu⟩ := hloop fuel t
  cases hwalk : walk turn fuel a s with
  | none => rfl
  | some r =>
    have hmore := walk_mono hwalk (Nat.le_add_right fuel k)
    rw [h.walk_eq, walk_eq_none.2 ⟨b, u, hu⟩] at hmore
    simp at hmore

/-- Turns that never stay are no more than the positions they pass. -/
theorem Goes.far (hpos : ∀ b t t' len, turn b t = .on len t' →
      b + len ≤ last ∧ (len = 0 → StaysAt turn b))
    (h : Goes turn k a s b t) (hstay : ∀ k b t, Goes turn k a s b t → ¬ StaysAt turn b) :
    a + k ≤ b ∧ (0 < k → b ≤ last) := by
  induction h with
  | refl => simp
  | @step k a b len s s' t hstep rest ih =>
    have hlen : len ≠ 0 := fun h0 => hstay 0 a s (.refl a s) ((hpos a s s' len hstep).2 h0)
    have hrest := ih (fun k b t hgoes => hstay (k + 1) b t (.step hstep hgoes))
    have hle := (hpos a s s' len hstep).1
    by_cases hk : 0 < k
    · exact ⟨by omega, fun _ => hrest.2 hk⟩
    · obtain rfl : k = 0 := by omega
      cases rest
      exact ⟨by omega, fun _ => hle⟩

/-- A loop whose turns do not go beyond `last` returns within that many turns, or it reaches a
position it stays at. -/
theorem walk_returns_or_stays (hpos : ∀ b t t' len, turn b t = .on len t' →
      b + len ≤ last ∧ (len = 0 → StaysAt turn b)) (a : Nat) (s : σ) :
    (∃ r, walk turn (last - a + 2) a s = some r) ∨
      ∃ k b t, Goes turn k a s b t ∧ StaysAt turn b := by
  cases hwalk : walk turn (last - a + 2) a s with
  | some r => exact .inl ⟨r, rfl⟩
  | none =>
    obtain ⟨b, t, hgoes⟩ := walk_eq_none.1 hwalk
    by_contra h
    have hfar := hgoes.far hpos (fun k b t hgoes hstay => h (.inr ⟨k, b, t, hgoes, hstay⟩))
    have hle := hfar.2 (by omega)
    omega

/-- Two loops are the same where their turns are, at every position that is passed. -/
theorem walk_congr {turn' : Nat → σ → Turn σ ρ} {P : Nat → Prop}
    (heq : ∀ b t, P b → turn b t = turn' b t)
    (hon : ∀ b t len t', P b → turn b t = .on len t' → P (b + len)) (ha : P a) :
    walk turn fuel a s = walk turn' fuel a s := by
  induction fuel generalizing a s with
  | zero => rfl
  | succ fuel ih =>
    cases hturn : turn a s with
    | on len s' =>
      rw [walk_on hturn, walk_on ((heq a s ha).symm.trans hturn)]
      exact ih (hon a s len s' ha hturn)
    | out r => rw [walk_out hturn, walk_out ((heq a s ha).symm.trans hturn)]

end Walk
end Noaaport.Lib
