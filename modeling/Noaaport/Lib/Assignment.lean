import Noaaport.Lib.Flow

/-! Reads and assignments of variables, one behind the other: when every read finds
an assignment before it. -/
namespace Noaaport.Lib
variable {ν : Type*}

inductive Access (ν : Type*) where
  | read (x : ν)
  | assign (x : ν)
  deriving DecidableEq

/-- Every read stands behind an assignment of its variable. -/
def AllAssigned (as : List (Access ν)) : Prop :=
  ∀ pre x post, as = pre ++ .read x :: post → .assign x ∈ pre

/-- The same, where the variables of `known` have been assigned before. -/
def assignedFrom [DecidableEq ν] : List ν → List (Access ν) → Bool
  | _, [] => true
  | known, .read x :: as => known.contains x && assignedFrom known as
  | known, .assign x :: as => assignedFrom (x :: known) as

/-- The variables that have been assigned behind `as`. -/
def known (before : List ν) : List (Access ν) → List ν
  | [] => before
  | .read _ :: as => known before as
  | .assign x :: as => known (x :: before) as

section Known
variable {before : List ν} {as bs : List (Access ν)} {x : ν}

theorem mem_known : x ∈ known before as ↔ x ∈ before ∨ .assign x ∈ as := by
  induction as generalizing before with
  | nil => simp [known]
  | cons a as ih =>
    cases a with
    | read y => simp [known, ih]
    | assign y =>
      rw [known, ih, List.mem_cons, List.mem_cons, Access.assign.injEq, @or_comm (x = y), or_assoc]

theorem known_append : known before (as ++ bs) = known (known before as) bs := by
  induction as generalizing before with
  | nil => rfl
  | cons a as ih =>
    cases a with
    | read y => exact ih
    | assign y => exact ih

theorem known_mono {before' : List ν} (hsub : before ⊆ before') : known before as ⊆ known before' as :=
  fun _ hx => mem_known.2 ((mem_known.1 hx).imp_left fun h => hsub h)

/-- A read before which the variable is not assigned. -/
theorem not_allAssigned (h : .assign x ∉ as) : ¬ AllAssigned (as ++ .read x :: bs) :=
  fun hall => h (hall as x bs rfl)

theorem not_mem_ite {α : Type*} {a : α} {as bs : List α} {c : Prop} [Decidable c] (h : c → a ∉ as)
    (h' : ¬ c → a ∉ bs) : a ∉ if c then as else bs := by
  split_ifs with hc
  · exact h hc
  · exact h' hc

variable [DecidableEq ν]

theorem assignedFrom_append : assignedFrom before (as ++ bs) = true ↔
    assignedFrom before as = true ∧ assignedFrom (known before as) bs = true := by
  induction as generalizing before with
  | nil => simp [assignedFrom, known]
  | cons a as ih =>
    cases a with
    | read y => simp only [List.cons_append, assignedFrom, known, Bool.and_eq_true, ih, and_assoc]
    | assign y => exact ih

theorem assignedFrom_mono {before' : List ν} (hsub : before ⊆ before')
    (h : assignedFrom before as = true) : assignedFrom before' as = true := by
  induction as generalizing before before' with
  | nil => rfl
  | cons a as ih =>
    cases a with
    | read y =>
      simp only [assignedFrom, Bool.and_eq_true, List.contains_iff_mem] at h ⊢
      exact ⟨hsub h.1, ih hsub h.2⟩
    | assign y => exact ih (List.cons_subset_cons y hsub) h

theorem assignedFrom_ite {c : Prop} [Decidable c] (h : c → assignedFrom before as = true)
    (h' : ¬ c → assignedFrom before bs = true) : assignedFrom before (if c then as else bs) = true := by
  split_ifs with hc
  · exact h hc
  · exact h' hc

theorem assignedFrom_flatMap {α : Type*} {f : α → List (Access ν)} (xs : List α)
    (h : ∀ a, assignedFrom before (f a) = true) : assignedFrom before (xs.flatMap f) = true := by
  induction xs with
  | nil => rfl
  | cons a xs ih =>
    rw [List.flatMap_cons, assignedFrom_append]
    exact ⟨h a, assignedFrom_mono (fun _ hx => mem_known.2 (.inl hx)) ih⟩

/-- From no variable on, it is that every read stands behind an assignment. -/
theorem assignedFrom_iff : assignedFrom before as = true ↔
    ∀ pre x post, as = pre ++ .read x :: post → x ∈ before ∨ .assign x ∈ pre := by
  constructor
  · rintro h pre x post rfl
    have hpost := (assignedFrom_append.1 h).2
    simp only [assignedFrom, Bool.and_eq_true, List.contains_iff_mem] at hpost
    exact mem_known.1 hpost.1
  · intro h
    induction as generalizing before with
    | nil => rfl
    | cons a as ih =>
      cases a with
      | read y =>
        simp only [assignedFrom, Bool.and_eq_true, List.contains_iff_mem]
        refine ⟨(h [] y as rfl).resolve_right List.not_mem_nil, ih fun pre x post heq => ?_⟩
        have hx := h (.read y :: pre) x post (by rw [heq]; rfl)
        simpa using hx
      | assign y =>
        refine ih fun pre x post heq => ?_
        have hx := h (.assign y :: pre) x post (by rw [heq]; rfl)
        rw [List.mem_cons, Access.assign.injEq] at hx
        rwa [List.mem_cons, @or_comm (x = y), or_assoc]

theorem allAssigned_iff : AllAssigned as ↔ assignedFrom [] as = true := by
  rw [assignedFrom_iff]
  exact forall_congr' fun _ => forall_congr' fun _ => forall_congr' fun _ => imp_congr_right fun _ =>
    ⟨.inr, fun h => h.resolve_left List.not_mem_nil⟩

end Known

namespace Flow
variable {ε σ : Type*}

/-- What follows a part that goes on. -/
def after {α : Type*} (x : Flow ε σ) (f : σ → List α) : List α :=
  match x with
  | go s => f s
  | exit _ _ => []

theorem not_mem_after {α : Type*} {x : Flow ε σ} {f : σ → List α} {a : α} (h : ∀ s, a ∉ f s) :
    a ∉ x.after f := by
  cases x with
  | go s => exact h s
  | exit e s => exact List.not_mem_nil

theorem assignedFrom_after [DecidableEq ν] {before : List ν} {f : σ → List (Access ν)} (x : Flow ε σ)
    (h : ∀ s, assignedFrom before (f s) = true) : assignedFrom before (x.after f) = true := by
  cases x with
  | go s => exact h s
  | exit e s => rfl

/-- All that a part reads has been assigned, and where it goes on so are the variables `new`. -/
structure Covers [DecidableEq ν] (before : List ν) (new : σ → List ν) (x : Flow ε σ)
    (as : List (Access ν)) : Prop where
  assigned : assignedFrom before as = true
  known : ∀ t, x = .go t → new t ⊆ known before as

section Covers
variable [DecidableEq ν] {before : List ν} {new new' : σ → List ν} {x y : Flow ε σ}
  {f : σ → Flow ε σ} {g : σ → List (Access ν)} {as bs : List (Access ν)} {s : σ} {e : ε}

theorem Covers.exit (h : assignedFrom before as = true) : Covers before new (.exit e s) as :=
  ⟨h, fun _ ht => nomatch ht⟩

theorem Covers.go (h : assignedFrom before as = true) (hnew : new s ⊆ Lib.known before as) :
    Covers before new (.go s : Flow ε σ) as := by
  refine ⟨h, fun t ht => ?_⟩
  cases ht
  exact hnew

theorem Covers.part (vs : List ν) (x : Flow ε σ) (h : assignedFrom before as = true)
    (hnew : vs ⊆ Lib.known before as) : Covers before (fun _ => vs) x as :=
  ⟨h, fun _ _ => hnew⟩

theorem Covers.prepend (has : assignedFrom before as = true)
    (h : Covers (Lib.known before as) new x bs) : Covers before new x (as ++ bs) :=
  ⟨assignedFrom_append.2 ⟨has, h.assigned⟩, fun t ht => known_append ▸ h.known t ht⟩

theorem Covers.bind (h : Covers before new x as)
    (hf : ∀ t, x = .go t → Covers (new t) new' (f t) (g t)) :
    Covers before new' (x.bind f) (as ++ x.after g) := by
  cases x with
  | exit e s =>
    refine ⟨?_, fun _ ht => nomatch ht⟩
    rw [after, List.append_nil]
    exact h.assigned
  | go s =>
    have hs := hf s rfl
    have hsub := h.known s rfl
    refine ⟨assignedFrom_append.2 ⟨h.assigned, assignedFrom_mono hsub hs.assigned⟩, fun t ht y hy => ?_⟩
    obtain hin | hassigned := mem_known.1 (hs.known t ht hy)
    · exact mem_known.2 ((mem_known.1 (hsub hin)).imp_right (List.mem_append_left _))
    · exact mem_known.2 (.inr (List.mem_append_right _ hassigned))

theorem Covers.ite {c : Prop} [Decidable c] (hx : c → Covers before new x as)
    (hy : ¬ c → Covers before new y bs) :
    Covers before new (if c then x else y) (if c then as else bs) := by
  split_ifs with h
  · exact hx h
  · exact hy h

theorem Covers.weaken (h : Covers before new x as) (hnew : ∀ t, x = .go t → new' t ⊆ new t) :
    Covers before new' x as :=
  ⟨h.assigned, fun t ht => List.Subset.trans (hnew t ht) (h.known t ht)⟩

end Covers
end Flow
end Noaaport.Lib
