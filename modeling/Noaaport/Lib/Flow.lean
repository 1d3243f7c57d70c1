import Mathlib.Tactic.SplitIfs

/-! Straight-line code with early exits: a state goes on or leaves for a reason.
One postcondition for going on and one for each way out; two runs side by side, and a run
that follows another. -/
namespace Noaaport.Lib
variable {ε σ τ ι : Type*}

inductive Flow (ε σ : Type*) where
  | go (s : σ)
  | exit (e : ε) (s : σ)

namespace Flow

def bind (x : Flow ε σ) (f : σ → Flow ε σ) : Flow ε σ :=
  match x with
  | go s => f s
  | exit e s => exit e s

/-- The same flow seen from a larger state. -/
def within (x : Flow ε ι) (put : ι → σ) : Flow ε σ :=
  match x with
  | go s => go (put s)
  | exit e s => exit e (put s)

def Ends (x : Flow ε σ) (Q : σ → Prop) (E : ε → σ → Prop) : Prop :=
  match x with
  | go s => Q s
  | exit e s => E e s

instance (x : Flow ε σ) (Q : σ → Prop) (E : ε → σ → Prop) [∀ s, Decidable (Q s)]
    [∀ e s, Decidable (E e s)] : Decidable (x.Ends Q E) :=
  match x with
  | go s => inferInstanceAs (Decidable (Q s))
  | exit e s => inferInstanceAs (Decidable (E e s))

@[simp] theorem bind_go (s : σ) (f : σ → Flow ε σ) : (go s).bind f = f s := rfl
@[simp] theorem bind_exit (e : ε) (s : σ) (f : σ → Flow ε σ) : (exit e s).bind f = exit e s := rfl
@[simp] theorem within_go (s : ι) (put : ι → σ) : (go s : Flow ε ι).within put = go (put s) := rfl
@[simp] theorem within_exit (e : ε) (s : ι) (put : ι → σ) :
    (exit e s).within put = exit e (put s) := rfl

section Ends
variable {P Q Q' : σ → Prop} {E E' : ε → σ → Prop} {x : Flow ε σ} {f : σ → Flow ε σ} {s : σ} {e : ε}

@[simp] theorem ends_go : (go s : Flow ε σ).Ends Q E ↔ Q s := Iff.rfl
@[simp] theorem ends_exit : (exit e s).Ends Q E ↔ E e s := Iff.rfl

theorem Ends.mono (h : x.Ends Q E) (hQ : ∀ s, Q s → Q' s) (hE : ∀ e s, E e s → E' e s) :
    x.Ends Q' E' := by
  cases x with
  | go s => exact hQ s h
  | exit e s => exact hE e s h

theorem Ends.and (h : x.Ends Q E) (h' : x.Ends Q' E') :
    x.Ends (fun s => Q s ∧ Q' s) (fun e s => E e s ∧ E' e s) := by
  cases x with
  | go s => exact ⟨h, h'⟩
  | exit e s => exact ⟨h, h'⟩

/-- Sequencing: the way out of the first part is a way out of the whole. -/
theorem Ends.bind (h : x.Ends P E) (hf : ∀ s, P s → (f s).Ends Q E) : (x.bind f).Ends Q E := by
  cases x with
  | go s => exact hf s h
  | exit e s => exact h

theorem Ends.within {put : ι → σ} {x : Flow ε ι}
    (h : x.Ends (fun s => Q (put s)) (fun e s => E e (put s))) : (x.within put).Ends Q E := by
  cases x with
  | go s => exact h
  | exit e s => exact h

theorem Ends.go (h : x.Ends Q E) (hx : x = .go s) : Q s := by
  subst hx
  exact h

theorem Ends.exit (h : x.Ends Q E) (hx : x = .exit e s) : E e s := by
  subst hx
  exact h

theorem Ends.cases (h : x.Ends Q E) :
    (∃ s, x = .go s ∧ Q s) ∨ ∃ e s, x = .exit e s ∧ E e s := by
  cases x with
  | go s => exact .inl ⟨s, rfl, h⟩
  | exit e s => exact .inr ⟨e, s, rfl, h⟩

theorem ends_ite {c : Prop} [Decidable c] {y : Flow ε σ} (hx : c → x.Ends Q E)
    (hy : ¬ c → y.Ends Q E) : (if c then x else y).Ends Q E := by
  split_ifs with h
  · exact hx h
  · exact hy h

theorem bind_eq_go {t : σ} : x.bind f = .go t ↔ ∃ s, x = .go s ∧ f s = .go t := by
  cases x with
  | go s =>
    constructor
    · exact fun h => ⟨s, rfl, h⟩
    · rintro ⟨_, hs, h⟩
      cases hs
      exact h
  | exit e s =>
    constructor
    · exact fun h => nomatch h
    · rintro ⟨_, hs, _⟩
      cases hs

theorem bind_assoc (x : Flow ε σ) (f g : σ → Flow ε σ) :
    (x.bind f).bind g = x.bind fun s => (f s).bind g := by
  cases x <;> rfl

end Ends

/-- Two runs that leave alike, each pair of end states related. -/
def Rel (R S : σ → σ → Prop) (x y : Flow ε σ) : Prop :=
  match x, y with
  | go s, go t => R s t
  | exit e s, exit e' t => e = e' ∧ S s t
  | _, _ => False

section Rel
variable {R Q S : σ → σ → Prop} {x y : Flow ε σ} {f g : σ → Flow ε σ}

theorem Rel.refl (hR : ∀ s, R s s) (hS : ∀ s, S s s) (x : Flow ε σ) : Rel R S x x := by
  cases x with
  | go s => exact hR s
  | exit e s => exact ⟨rfl, hS s⟩

theorem Rel.mono {S' : σ → σ → Prop} (h : Rel R S x y) (hR : ∀ s t, R s t → Q s t)
    (hS : ∀ s t, S s t → S' s t) : Rel Q S' x y := by
  cases x <;> cases y
  · exact hR _ _ h
  · exact h.elim
  · exact h.elim
  · exact ⟨h.1, hS _ _ h.2⟩

/-- What the left run ends with may be used for the pair. -/
theorem Rel.and_ends {P : σ → Prop} {E : ε → σ → Prop} (h : Rel R S x y) (hx : x.Ends P E) :
    Rel (fun s t => P s ∧ R s t) S x y := by
  cases x <;> cases y
  · exact ⟨hx, h⟩
  · exact h.elim
  · exact h.elim
  · exact h

theorem Rel.bind (h : Rel Q S x y) (hf : ∀ s t, Q s t → Rel R S (f s) (g t)) :
    Rel R S (x.bind f) (y.bind g) := by
  cases x <;> cases y
  · exact hf _ _ h
  · exact h.elim
  · exact h.elim
  · exact h

/-- Two related runs, each seen from a larger state. -/
theorem Rel.within_of {R' S' : ι → ι → Prop} {put put' : ι → σ} {x y : Flow ε ι} (h : Rel R' S' x y)
    (hR : ∀ i j, R' i j → R (put i) (put' j)) (hS : ∀ i j, S' i j → S (put i) (put' j)) :
    Rel R S (x.within put) (y.within put') := by
  cases x <;> cases y
  · exact hR _ _ h
  · exact h.elim
  · exact h.elim
  · exact ⟨h.1, hS _ _ h.2⟩

theorem Rel.within {put put' : ι → σ} {x : Flow ε ι} (hR : ∀ s, R (put s) (put' s))
    (hS : ∀ s, S (put s) (put' s)) : Rel R S (x.within put) (x.within put') :=
  (Rel.refl (R := Eq) (S := Eq) (fun _ => rfl) (fun _ => rfl) x).within_of
    (fun i _ h => h ▸ hR i) fun i _ h => h ▸ hS i

theorem rel_ite_of {c d : Prop} [Decidable c] [Decidable d] {x' y' : Flow ε σ} (hc : c ↔ d)
    (hx : c → Rel R S x y) (hy : ¬ c → Rel R S x' y') :
    Rel R S (if c then x else x') (if d then y else y') := by
  by_cases h : c
  · rw [if_pos h, if_pos (hc.1 h)]
    exact hx h
  · rw [if_neg h, if_neg (mt hc.2 h)]
    exact hy h

theorem rel_ite {c d : Prop} [Decidable c] [Decidable d] {x' y' : Flow ε σ} (hc : c ↔ d)
    (hx : Rel R S x y) (hy : Rel R S x' y') :
    Rel R S (if c then x else x') (if d then y else y') :=
  rel_ite_of hc (fun _ => hx) fun _ => hy

end Rel

/-- The second run does what the first does, from a larger state, unless the first is held up. -/
def Follows (held : ε → σ → Prop) (put : σ → σ) (x y : Flow ε σ) : Prop :=
  (∃ e s, x = exit e s ∧ held e s) ∨ y = x.within put

section Follows
variable {held : ε → σ → Prop} {put : σ → σ} {x y x' y' : Flow ε σ} {f g : σ → Flow ε σ}

theorem Follows.refl (x : Flow ε σ) : Follows held put x (x.within put) := .inr rfl

theorem Follows.bind_of (h : Follows held put x y)
    (hf : ∀ s, x = go s → Follows held put (f s) (g (put s))) :
    Follows held put (x.bind f) (y.bind g) := by
  obtain ⟨e, s, rfl, he⟩ | rfl := h
  · exact .inl ⟨e, s, rfl, he⟩
  · cases x with
    | go s => exact hf s rfl
    | exit e s => exact .inr rfl

theorem Follows.bind (h : Follows held put x y) (hf : ∀ s, Follows held put (f s) (g (put s))) :
    Follows held put (x.bind f) (y.bind g) :=
  h.bind_of fun s _ => hf s

theorem Follows.within {held' : ε → ι → Prop} {put' : ι → ι} {emb emb' : ι → σ} {x y : Flow ε ι}
    (h : Follows held' put' x y) (hput : ∀ i, emb' (put' i) = put (emb i))
    (hheld : ∀ e i, held' e i → held e (emb i)) : Follows held put (x.within emb) (y.within emb') := by
  obtain ⟨e, i, rfl, he⟩ | rfl := h
  · exact .inl ⟨e, emb i, rfl, hheld e i he⟩
  · refine .inr ?_
    cases x <;> simp [hput]

theorem follows_ite {c d : Prop} [Decidable c] [Decidable d] (hcd : d ↔ c)
    (h : c → Follows held put x y) (h' : ¬ c → Follows held put x' y') :
    Follows held put (if c then x else x') (if d then y else y') := by
  by_cases hc : c
  · rw [if_pos hc, if_pos (hcd.2 hc)]
    exact h hc
  · rw [if_neg hc, if_neg (mt hcd.1 hc)]
    exact h' hc

end Follows
end Flow
end Noaaport.Lib
