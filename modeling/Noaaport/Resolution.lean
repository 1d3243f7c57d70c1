import Noaaport.Accesses
import Noaaport.Fragments

/-! The variables that `pmStart` declares inside its loop: two runs over one
stream, with whatever these variables hold at the top of each iteration. -/
namespace Noaaport
open Lib

/-- Equal but for the loop's own variables, and these related by `V`. -/
inductive AgreeBy (V : LoopVars → LoopVars → Prop) : State → State → Prop where
  | mk (i : Input) (v w : LoopVars) (a : Asm) (h : V v w) : AgreeBy V ⟨i, v, a⟩ ⟨i, w, a⟩

def AnyVars (_ _ : LoopVars) : Prop := True

/-- The packet's channel has been assigned. -/
structure SameChannel (v w : LoopVars) : Prop where
  nwstg : v.nwstg = w.nwstg
  goes : v.goes = w.goes

/-- And its encoding. -/
structure SameKind (v w : LoopVars) : Prop extends SameChannel v w where
  prodCompressed : v.prodCompressed = w.prodCompressed

/-- Everything a header record assigns. -/
structure SameVars (v w : LoopVars) : Prop extends SameKind v w where
  heapcount : v.heapcount = w.heapcount
  heapsize : v.heapsize = w.heapsize
  prodName : v.prodName = w.prodName

/-- Two runs that go on with their variables related, or leave alike. -/
abbrev Alike (V : LoopVars → LoopVars → Prop) (x y : Flow) : Prop :=
  Flow.Rel (AgreeBy V) (AgreeBy AnyVars) x y

section Front
variable {p : Program} {lib : Library} {V : LoopVars → LoopVars → Prop} {s t : State}

theorem AgreeBy.inp (h : AgreeBy V s t) : s.inp = t.inp := by
  cases h with
  | mk => rfl

theorem AgreeBy.any (h : AgreeBy V s t) : AgreeBy AnyVars s t := by
  cases h with
  | mk i v w a => exact .mk i v w a trivial

theorem AgreeBy.setInp (h : AgreeBy V s t) (i : Input) : AgreeBy V (s.setInp i) (t.setInp i) := by
  cases h with
  | mk _ v w a h => exact .mk i v w a h

theorem AgreeBy.read {off : Nat} {want : Int} {onFail : Exit} (h : AgreeBy V s t) :
    Flow.Rel (AgreeBy V) (AgreeBy V) (s.read p off want onFail) (t.read p off want onFail) := by
  unfold State.read
  rw [h.inp]
  exact Flow.Rel.within h.setInp h.setInp

theorem AgreeBy.read_alike {off : Nat} {want : Int} {onFail : Exit} (h : AgreeBy V s t) :
    Alike V (s.read p off want onFail) (t.read p off want onFail) :=
  h.read.mono (fun _ _ h => h) fun _ _ h => h.any

theorem readExtra_alike (h : AgreeBy V s t) : Alike V (readExtra p s) (readExtra p t) := by
  unfold readExtra
  refine Flow.rel_ite (by rw [h.inp]) ?_ h
  have hread : Flow.Rel (AgreeBy V) (AgreeBy V)
      (s.read p (s.inp.sbn.len + 16) (s.inp.pdh.len - 16 : Nat) (.again .pdhExtra))
      (t.read p (t.inp.sbn.len + 16) (t.inp.pdh.len - 16 : Nat) (.again .pdhExtra)) := by
    rw [h.inp]
    exact h.read
  generalize s.read p _ _ _ = x at hread ⊢
  generalize t.read p _ _ _ = y at hread ⊢
  cases x with
  | go s' =>
    cases y with
    | go t' => exact hread
    | exit => exact hread.elim
  | exit e s' =>
    cases y with
    | go => exact hread.elim
    | exit e' t' =>
      obtain ⟨rfl, hr⟩ := hread
      cases e with
      | again r => exact Flow.rel_ite Iff.rfl ⟨rfl, hr.any⟩ hr
      | _ => exact ⟨rfl, hr.any⟩

theorem definition_alike (h : AgreeBy AnyVars s t) :
    Alike SameKind (definition p s) (definition p t) := by
  refine Flow.Rel.bind h.read_alike fun s t h => ?_
  cases h with | mk i v w a => ?_
  refine Flow.rel_ite Iff.rfl ⟨rfl, .mk _ _ _ _ trivial⟩ ?_
  refine Flow.rel_ite Iff.rfl ⟨rfl, .mk _ _ _ _ trivial⟩ ?_
  refine Flow.Rel.bind (readExtra_alike (V := SameChannel) (.mk _ _ _ _ ⟨rfl, rfl⟩))
    fun s t h => ?_
  cases h with | mk i v w a h => ?_
  refine Flow.rel_ite Iff.rfl ⟨rfl, .mk _ _ _ _ trivial⟩ ?_
  exact Flow.rel_ite Iff.rfl ⟨rfl, .mk _ _ _ _ trivial⟩ (.mk _ _ _ _ ⟨⟨h.nwstg, h.goes⟩, rfl⟩)

theorem AgreeBy.reroute (h : AgreeBy SameKind s t) :
    AgreeBy SameKind s.rerouteChannel4 t.rerouteChannel4 := by
  cases h with | mk i v w a h => ?_
  unfold State.rerouteChannel4
  split_ifs
  · exact .mk _ _ _ _ ⟨⟨rfl, rfl⟩, h.prodCompressed⟩
  · exact .mk _ _ _ _ h

/-- What has been reset before a product is opened. -/
structure SameReset (v w : LoopVars) : Prop extends SameKind v w where
  heapcount : v.heapcount = w.heapcount

theorem AgreeBy.resetHeap (h : AgreeBy SameKind s t) : AgreeBy SameReset s.resetHeap t.resetHeap := by
  cases h with
  | mk i v w a h => exact .mk _ _ _ _ ⟨⟨⟨h.nwstg, h.goes⟩, h.prodCompressed⟩, rfl⟩

theorem goesHeader_alike (h : AgreeBy SameReset s t) :
    Flow.Rel (fun s' t' => AgreeBy SameVars s' t' ∧ s'.v.nwstg = s.v.nwstg) (AgreeBy AnyVars)
      (goesHeader lib s) (goesHeader lib t) := by
  cases h with | mk i v w a h => ?_
  obtain ⟨_, _, _, _, _, _, _, _, _⟩ := v
  obtain ⟨_, _, _, _, _, _, _, _, _⟩ := w
  obtain ⟨⟨⟨rfl, rfl⟩, rfl⟩, rfl⟩ := h
  refine Flow.rel_ite Iff.rfl ?_ ?_
  · exact ⟨rfl, .mk _ _ _ _ trivial⟩
  · exact ⟨.mk _ _ _ _ ⟨⟨⟨rfl, rfl⟩, rfl⟩, rfl, rfl, rfl⟩, rfl⟩

theorem nwstgHeader_agree (h : AgreeBy SameReset s t) :
    AgreeBy SameVars (nwstgHeader lib s) (nwstgHeader lib t) := by
  cases h with | mk i v w a h => ?_
  obtain ⟨_, _, _, _, _, _, _, _, _⟩ := v
  obtain ⟨_, _, _, _, _, _, _, _, _⟩ := w
  obtain ⟨⟨⟨rfl, rfl⟩, rfl⟩, rfl⟩ := h
  exact .mk _ _ _ _ ⟨⟨⟨rfl, rfl⟩, rfl⟩, rfl, rfl, rfl⟩

/-- One of the two halves assigns the rest. -/
theorem openProduct_alike (h : AgreeBy SameReset s t) (hk : s.OneKind) :
    Alike SameVars (openProduct lib s) (openProduct lib t) := by
  have hm : AgreeBy SameReset s.markImage t.markImage := by
    cases h with | mk i v w a h => ?_
    unfold State.markImage
    rw [h.goes, h.prodCompressed]
    exact .mk _ _ _ _ h
  have hg : s.v.goes = t.v.goes := by
    cases h with
    | mk i v w a h => exact h.goes
  unfold openProduct
  rw [← hg]
  cases hgoes : s.v.goes with
  | true =>
    refine Flow.Rel.bind (goesHeader_alike hm) fun s' t' h' => ?_
    obtain ⟨⟨i, v, w, a, h'⟩, hn⟩ := h'
    have hv : v.nwstg = false := by
      rw [State.OneKind, hgoes] at hk
      exact Eq.trans hn hk
    simp only [← h'.nwstg, hv, Bool.false_eq_true, ↓reduceIte]
    exact .mk _ _ _ _ h'
  | false =>
    have hn : s.markImage.v.nwstg = true := by rwa [State.OneKind, hgoes] at hk
    have hn' : t.markImage.v.nwstg = true := by
      rw [← hn]
      generalize s.markImage = s', t.markImage = t' at hm
      cases hm with
      | mk i v w a h => exact h.nwstg.symm
    simp only [hn, hn', Bool.false_eq_true, ↓reduceIte, Flow.bind_go]
    exact nwstgHeader_agree hm

theorem headerRecord_alike (h : AgreeBy SameKind s t) (hk : s.OneKind) :
    Alike SameVars (headerRecord p lib s) (headerRecord p lib t) := by
  have hread : Flow.Rel (fun s t => AgreeBy SameKind s t ∧ s.OneKind) (AgreeBy AnyVars)
      (s.read p s.inp.pshOff s.inp.pdh.pshlen (.again .pshRead))
      (t.read p t.inp.pshOff t.inp.pdh.pshlen (.again .pshRead)) := by
    rw [h.inp]
    cases h with | mk i v w a h => ?_
    exact Flow.Rel.within (fun _ => ⟨.mk _ _ _ _ h, hk⟩) fun _ => .mk _ _ _ _ trivial
  refine Flow.Rel.bind hread fun s t h => ?_
  obtain ⟨⟨i, v, w, a, h⟩, hk⟩ := h
  refine Flow.rel_ite Iff.rfl ⟨rfl, .mk _ _ _ _ trivial⟩ ?_
  refine Flow.rel_ite Iff.rfl ⟨rfl, .mk _ _ _ _ trivial⟩ ?_
  simp only [State.decodePsh]
  split
  · exact ⟨rfl, .mk _ _ _ _ trivial⟩
  · refine Flow.Rel.bind (Q := fun s t => AgreeBy SameKind s t ∧ s.OneKind)
      (Flow.Rel.within (fun _ => ⟨.mk _ _ _ _ h, hk⟩) fun _ => .mk _ _ _ _ trivial) fun s t h => ?_
    exact openProduct_alike h.1.reroute.resetHeap h.2.reroute

theorem continuationRecord_alike (h : AgreeBy SameKind s t) :
    Alike SameKind (continuationRecord p s) (continuationRecord p t) := by
  have hr : AgreeBy SameKind s.rerouteChannel4.continued t.rerouteChannel4.continued := by
    have h' := h.reroute
    generalize s.rerouteChannel4 = s', t.rerouteChannel4 = t' at h'
    cases h' with | mk i v w a h => ?_
    exact .mk _ _ _ _ h
  have hread : Alike SameKind
      (s.rerouteChannel4.continued.readBlock p (.again .contRead))
      (t.rerouteChannel4.continued.readBlock p (.again .contRead)) := by
    unfold State.readBlock
    rw [hr.inp]
    exact hr.read_alike
  refine Flow.Rel.bind hread fun s t h => ?_
  cases h with | mk i v w a h => ?_
  exact Flow.rel_ite Iff.rfl ⟨rfl, .mk _ _ _ _ trivial⟩ (.mk _ _ _ _ h)

/-- At "Get the data": a header record has assigned all its variables, a
continuation record only its kind. -/
def Assigned (s t : State) : Prop :=
  AgreeBy SameVars s t ∨ AgreeBy SameKind s t ∧ s.inp.pdh.pshlen = 0

theorem front_alike (h : AgreeBy AnyVars s t) :
    Flow.Rel Assigned (AgreeBy AnyVars) (front p lib s) (front p lib t) := by
  have hdef : Flow.Rel (fun s t => AgreeBy SameKind s t ∧ s.OneKind) (AgreeBy AnyVars)
      (((sync p s.inp).within s.setInp).bind (definition p))
      (((sync p t.inp).within t.setInp).bind (definition p)) := by
    rw [h.inp]
    cases sync p t.inp with
    | exit e i => exact ⟨rfl, h.setInp i⟩
    | go i =>
      refine ((definition_alike (h.setInp i)).and_ends (definition_ends p _)).mono ?_ fun _ _ h => h
      exact fun s t h => ⟨h.2, h.1.oneKind⟩
  refine Flow.Rel.bind hdef fun s t h => ?_
  obtain ⟨h, hk⟩ := h
  by_cases hp : s.inp.pdh.pshlen = 0
  · rw [if_neg (not_not.2 hp), if_neg (not_not.2 (h.inp ▸ hp))]
    refine ((continuationRecord_alike h).and_ends (continuationRecord_ends hp)).mono ?_ fun _ _ h => h
    exact fun s' t' h' => .inr ⟨h'.2, by rw [h'.1.block.pdh]; exact hp⟩
  · rw [if_pos hp, if_pos (h.inp ▸ hp)]
    exact (headerRecord_alike h hk).mono (fun _ _ h => .inl h) fun _ _ h => h

end Front

section Data
variable {lib : Library} {pfrag : Datastore} {s t : State}

/-- Equal but for `deflen`, which both halves are about to assign. -/
def SameBlock (v w : LoopVars) : Prop := w = { v with deflen := w.deflen }

theorem getData_agree (lib : Library) (h : AgreeBy SameVars s t) :
    AgreeBy SameBlock (s.getData lib) (t.getData lib) ∧ s.newFrag lib = t.newFrag lib := by
  cases h with | mk i v w a h => ?_
  obtain ⟨_, _, _, _, _, _, _, _, _⟩ := v
  obtain ⟨_, _, _, _, _, _, _, _, _⟩ := w
  obtain ⟨⟨⟨rfl, rfl⟩, rfl⟩, rfl, rfl, rfl⟩ := h
  exact ⟨.mk _ _ _ _ rfl, rfl⟩

theorem goesFirst_alike (lib : Library) (h : AgreeBy SameBlock s t) :
    Alike SameBlock (goesFirst lib s) (goesFirst lib t) := by
  cases h with | mk i v w a h => ?_
  rw [h]
  refine Flow.rel_ite Iff.rfl (.mk _ _ _ _ rfl) ?_
  simp only [State.block]
  split
  · exact ⟨rfl, .mk _ _ _ _ trivial⟩
  · exact .mk _ _ _ _ rfl

theorem goesNext_alike (lib : Library) (h : AgreeBy SameBlock s t) :
    Alike SameBlock (goesNext lib s) (goesNext lib t) := by
  cases h with | mk i v w a h => ?_
  rw [h]
  refine Flow.rel_ite Iff.rfl (.mk _ _ _ _ rfl) ?_
  refine Flow.rel_ite Iff.rfl ⟨rfl, .mk _ _ _ _ trivial⟩ ?_
  simp only
  split
  · exact ⟨rfl, .mk _ _ _ _ trivial⟩
  · exact .mk _ _ _ _ rfl

theorem goesData_alike (h : AgreeBy SameBlock s t) :
    Flow.Rel Eq (AgreeBy AnyVars) (goesData lib pfrag s) (goesData lib pfrag t) := by
  have hfirst := goesFirst_alike lib h
  have hnext := goesNext_alike lib h
  cases h with | mk i v w a h => ?_
  refine Flow.Rel.bind (Q := AgreeBy SameBlock) ?_ fun s t h => ?_
  · refine Flow.rel_ite Iff.rfl ?_ hfirst
    simp only
    split
    · exact ⟨rfl, .mk _ _ _ _ trivial⟩
    · refine Flow.rel_ite Iff.rfl ⟨rfl, .mk _ _ _ _ trivial⟩ ?_
      refine Flow.rel_ite Iff.rfl ⟨rfl, .mk _ _ _ _ trivial⟩ ?_
      refine Flow.rel_ite ?_ ⟨rfl, .mk _ _ _ _ trivial⟩ hnext
      rw [h]
  · cases h with | mk i v w a h => ?_
    rw [h]
    rfl

theorem nwstgCopy_alike (pfrag : Datastore) (h : AgreeBy SameBlock s t) :
    Flow.Rel Eq (AgreeBy AnyVars) (nwstgCopy pfrag s) (nwstgCopy pfrag t) := by
  cases h with | mk i v w a h => ?_
  rw [h]
  exact Flow.rel_ite Iff.rfl ⟨rfl, .mk _ _ _ _ trivial⟩ rfl

theorem nwstgData_alike (h : AgreeBy SameBlock s t) :
    Flow.Rel Eq (AgreeBy AnyVars) (nwstgData pfrag s) (nwstgData pfrag t) := by
  have hcopy := nwstgCopy_alike pfrag h
  cases h with | mk i v w a h => ?_
  unfold nwstgData
  simp only
  split
  · exact hcopy
  · refine Flow.rel_ite Iff.rfl hcopy ?_
    refine Flow.rel_ite Iff.rfl ⟨rfl, .mk _ _ _ _ trivial⟩ ?_
    exact Flow.rel_ite Iff.rfl ⟨rfl, .mk _ _ _ _ trivial⟩ hcopy

theorem data_alike (h : AgreeBy SameVars s t) :
    Alike AnyVars (data lib s) (data lib t) := by
  obtain ⟨hb, hf⟩ := getData_agree lib h
  have hg : (s.getData lib).v.goes = (t.getData lib).v.goes := by
    cases h with
    | mk i v w a h => exact h.goes
  unfold data
  rw [hf]
  refine Flow.Rel.bind (Q := Eq) (Flow.rel_ite (by rw [hg]) (goesData_alike hb) (nwstgData_alike hb)) ?_
  rintro s _ rfl
  exact Flow.Rel.refl (fun s => .mk _ _ _ _ trivial) (fun s => .mk _ _ _ _ trivial) _


/-- The block of a continuation record is turned away: it does not follow the
tail, or its image has not been opened. -/
def State.Refuses (lib : Library) (s : State) : Prop :=
  s.drops lib ∨
    s.v.goes = true ∧ s.inp.pdh.dbno ≠ 0 ∧ s.asm.pnginit = false ∧ s.v.prodCompressed = false

theorem goesData_refused (h : AgreeBy SameKind s t) (h0 : s.inp.pdh.dbno ≠ 0)
    (hr : ¬ s.asm.prod.accepts (s.newFrag lib) ∨
      s.asm.pnginit = false ∧ s.v.prodCompressed = false) :
    Flow.Rel (fun _ _ => False) (AgreeBy AnyVars) (goesData lib (s.newFrag lib) (s.getData lib))
      (goesData lib (t.newFrag lib) (t.getData lib)) := by
  cases h with | mk i v w a h => ?_
  refine Flow.Rel.bind (Q := fun _ _ => False) ?_ fun _ _ h => h.elim
  refine Flow.rel_ite_of Iff.rfl (fun _ => ?_) fun hn => absurd (Nat.pos_of_ne_zero h0) hn
  simp only [State.getData]
  split
  · exact ⟨rfl, .mk _ _ _ _ trivial⟩
  next tail hl =>
  refine Flow.rel_ite Iff.rfl ⟨rfl, .mk _ _ _ _ trivial⟩ ?_
  refine Flow.rel_ite_of Iff.rfl (fun _ => ⟨rfl, .mk _ _ _ _ trivial⟩) fun hm => ?_
  have hnone : a.pnginit = false ∧ v.prodCompressed = false :=
    hr.resolve_left fun ha => hm ((Prodstore.not_accepts_iff hl).1 ha)
  refine Flow.rel_ite_of (by rw [h.prodCompressed]) (fun _ => ⟨rfl, .mk _ _ _ _ trivial⟩) fun hn => ?_
  exact absurd hnone hn

theorem nwstgData_refused (h : AgreeBy SameKind s t) (h0 : s.asm.prod.nfrag ≠ 0)
    (hr : ¬ s.asm.prod.accepts (s.newFrag lib)) :
    Flow.Rel (fun _ _ => False) (AgreeBy AnyVars) (nwstgData (s.newFrag lib) (s.getData lib))
      (nwstgData (t.newFrag lib) (t.getData lib)) := by
  cases h with | mk i v w a h => ?_
  unfold nwstgData
  simp only [State.getData]
  split
  · next hl => exact absurd (fun tail ht => by rw [hl] at ht; cases ht) hr
  next tail hl =>
  refine Flow.rel_ite_of Iff.rfl (fun hn => absurd hn h0) fun _ => ?_
  refine Flow.rel_ite Iff.rfl ⟨rfl, .mk _ _ _ _ trivial⟩ ?_
  refine Flow.rel_ite_of Iff.rfl (fun _ => ⟨rfl, .mk _ _ _ _ trivial⟩) fun hm => ?_
  exact absurd ((Prodstore.not_accepts_iff hl).1 hr) hm

/-- Turned away on the same grounds in both runs. -/
theorem data_refused (h : AgreeBy SameKind s t) (hr : s.Refuses lib) :
    Alike AnyVars (data lib s) (data lib t) := by
  have hg : (s.getData lib).v.goes = (t.getData lib).v.goes := by
    cases h with
    | mk i v w a h => exact h.goes
  have hgs : (s.getData lib).v.goes = s.v.goes := rfl
  refine Flow.Rel.bind (Q := fun _ _ => False) ?_ fun _ _ h => h.elim
  rw [← hg, hgs]
  cases hgoes : s.v.goes with
  | true =>
    refine goesData_refused h ?_ ?_
    · rcases hr with ⟨-, h0⟩ | ⟨-, h0, -⟩
      · rwa [if_pos hgoes] at h0
      · exact h0
    · rcases hr with ⟨ha, -⟩ | ⟨-, -, hn⟩
      · exact .inl ha
      · exact .inr hn
  | false =>
    rcases hr with ⟨ha, h0⟩ | ⟨hg', -⟩
    · rw [if_neg (by rw [hgoes]; exact Bool.false_ne_true)] at h0
      exact nwstgData_refused h h0 ha
    · rw [hgoes] at hg'
      cases hg'

end Data

section Loop
variable (p : Program) (lib : Library)

/-- No block of a continuation record is taken. -/
def TakesNoContinuation (s : State) : Prop :=
  (front p lib s).Ends (fun u => u.inp.pdh.pshlen = 0 → u.Refuses lib) (fun _ _ => True)

/-- One turn of the loop; a `continue` goes on. -/
def turn (s : State) : Flow :=
  match iteration p lib s with
  | .exit (.again _) t => .go t
  | x => x

def State.setVars (s : State) (v : LoopVars) : State := { s with v }

/-- `n` turns, the variables holding `ρ k` when turn `k` begins. -/
def turns (ρ : Nat → LoopVars) : Nat → State → Flow
  | 0, s => .go s
  | n + 1, s => (turns ρ n s).bind fun t => turn p lib (t.setVars (ρ n))

/-- The calls of `process_prod` so far, whether or not the loop has ended. -/
def callsMade : Flow → List Call
  | .go s => s.asm.calls
  | .exit _ s => s.asm.calls

end Loop

section Runs
variable {p : Program} {lib : Library} {s t : State}

theorem iteration_alike (h : AgreeBy AnyVars s t) (hc : TakesNoContinuation p lib s) :
    Alike AnyVars (iteration p lib s) (iteration p lib t) := by
  refine Flow.Rel.bind ((front_alike h).and_ends hc) fun s t h => ?_
  obtain ⟨hr, h | ⟨h, hp⟩⟩ := h
  · exact data_alike h
  · exact data_refused h (hr hp)

theorem turn_alike (h : AgreeBy AnyVars s t) (hc : TakesNoContinuation p lib s) :
    Alike AnyVars (turn p lib s) (turn p lib t) := by
  have hit := iteration_alike h hc
  unfold turn
  generalize iteration p lib s = x, iteration p lib t = y at hit
  cases x with
  | go s' =>
    cases y with
    | go t' => exact hit
    | exit => exact hit.elim
  | exit e s' =>
    cases y with
    | go => exact hit.elim
    | exit e' t' =>
      obtain ⟨rfl, h'⟩ := hit
      cases e with
      | again r => exact h'
      | _ => exact ⟨rfl, h'⟩

theorem turns_alike {ρ : Nat → LoopVars} (ρ' : Nat → LoopVars) {n : Nat}
    (hc : ∀ k < n, (turns p lib ρ k s).Ends (fun t => TakesNoContinuation p lib (t.setVars (ρ k)))
      (fun _ _ => True)) :
    Alike AnyVars (turns p lib ρ n s) (turns p lib ρ' n s) := by
  induction n with
  | zero => exact .mk _ _ _ _ trivial
  | succ n ih =>
    have hn := ih fun k hk => hc k (Nat.lt_succ_of_lt hk)
    refine Flow.Rel.bind (hn.and_ends (hc n (Nat.lt_succ_self n))) fun s t h => ?_
    obtain ⟨hr, h⟩ := h
    cases h with | mk i v w a => ?_
    exact turn_alike (.mk _ _ _ _ trivial) hr

/-- As long as no block of a continuation record is taken, `pmStart` makes the
same calls after every number of iterations, whatever its variables hold; and an
iteration reads none of them before it has assigned it exactly if it brings no
continuation record to "Get the data". -/
theorem calls_determined (size : Nat) (closed : Bool) (lib : Library) (s : State) (n : Nat)
    (ρ ρ' : Nat → LoopVars)
    (hc : ∀ k < n, (turns (pmStart size closed) lib ρ k s).Ends
      (fun t => TakesNoContinuation (pmStart size closed) lib (t.setVars (ρ k))) (fun _ _ => True)) :
    callsMade (turns (pmStart size closed) lib ρ n s) =
      callsMade (turns (pmStart size closed) lib ρ' n s) ∧
    ∀ t, AllAssigned (iterationAccesses (pmStart size closed) lib t) ↔
      BringsNoContinuation (pmStart size closed) lib t := by
  refine ⟨?_, allAssigned_iff_bringsNoContinuation _ lib⟩
  have h := turns_alike ρ' hc
  generalize turns (pmStart size closed) lib ρ n s = x,
    turns (pmStart size closed) lib ρ' n s = y at h
  cases x with
  | go s' =>
    cases y with
    | go t' =>
      cases h with
      | mk => rfl
    | exit => exact h.elim
  | exit e s' =>
    cases y with
    | go => exact h.elim
    | exit e' t' =>
      obtain ⟨-, h⟩ := h
      cases h with
      | mk => rfl

end Runs

/-- Any heap size, and two places for the second block to go to. -/
def leftover (heapcount : Nat) : LoopVars := { LoopVars.blank with heapcount, heapsize := 5000 }

theorem calls_undetermined :
    callsMade (turns (pmStart 65536 true) .plain (fun _ => leftover 12) 2
        (State.fresh twoBlockStream .blank)) ≠
      callsMade (turns (pmStart 65536 true) .plain (fun _ => leftover 0) 2
        (State.fresh twoBlockStream .blank)) := by
  decide +kernel

/-- A whole product, the beginning of another, and a block that does not follow. -/
def refusedStream : List UInt8 := blockZero 1 ++ blockZero 2 ++ blockMore 2

/-- Whether the block is turned away as one that does not follow. -/
def dropsNext (u : State) : Bool :=
  u.v.goes = false ∧ u.asm.prod.nfrag ≠ 0 ∧
    (u.asm.prod.frags.getLast?).any fun tail => u.asm.prod.missing tail (u.newFrag .plain)

theorem dropsNext_refuses {u : State} (h : dropsNext u = true) : u.Refuses .plain := by
  simp only [dropsNext, decide_eq_true_eq, Option.any_eq_true] at h
  obtain ⟨hg, hn, tail, hl, hm⟩ := h
  refine .inl ⟨(Prodstore.not_accepts_iff hl).2 hm, ?_⟩
  rwa [if_neg (by rw [hg]; exact Bool.false_ne_true)]

theorem continuation_unassigned {x : Flow} {v : LoopVars}
    (h : x.Ends (fun t => (front (pmStart 65536 true) .plain (t.setVars v)).Ends
      (fun u => u.inp.pdh.pshlen = 0) (fun _ _ => False)) (fun _ _ => False)) :
    x.Ends (fun t => ¬ AllAssigned (iterationAccesses (pmStart 65536 true) .plain (t.setVars v)))
      (fun _ _ => False) := by
  refine h.mono (fun t ht hall => ?_) fun _ _ h => h
  have hbrings := (allAssigned_iff_bringsNoContinuation _ _ _).1 hall
  rw [BringsNoContinuation] at hbrings
  obtain ⟨u, hu, h0⟩ | ⟨e, u, hu, hf⟩ := ht.cases
  · exact hbrings.go hu h0
  · exact hf

set_option maxRecDepth 5000 in
/-- The calls are one, and the third iteration reads what it has not assigned. -/
theorem calls_determined_run :
    (callsMade (turns (pmStart 65536 true) .plain (fun _ => leftover 12) 3
      (State.fresh refusedStream .blank))).length = 1 ∧
    callsMade (turns (pmStart 65536 true) .plain (fun _ => leftover 12) 3
        (State.fresh refusedStream .blank)) =
      callsMade (turns (pmStart 65536 true) .plain (fun _ => leftover 0) 3
        (State.fresh refusedStream .blank)) ∧
    (turns (pmStart 65536 true) .plain (fun _ => leftover 12) 2 (State.fresh refusedStream .blank)).Ends
      (fun t => ¬ AllAssigned (iterationAccesses (pmStart 65536 true) .plain (t.setVars (leftover 12))))
      (fun _ _ => False) := by
  have hturned : ∀ k < 3, (turns (pmStart 65536 true) .plain (fun _ => leftover 12) k
      (State.fresh refusedStream .blank)).Ends
        (fun t => (front (pmStart 65536 true) .plain (t.setVars (leftover 12))).Ends
          (fun u => u.inp.pdh.pshlen = 0 → dropsNext u = true)
          (fun _ _ => False))
        (fun _ _ => False) := by
    decide +kernel
  have hc : ∀ k < 3, (turns (pmStart 65536 true) .plain (fun _ => leftover 12) k
      (State.fresh refusedStream .blank)).Ends
        (fun t => TakesNoContinuation (pmStart 65536 true) .plain (t.setVars (leftover 12)))
        (fun _ _ => True) := by
    intro k hk
    refine (hturned k hk).mono (fun t ht => ?_) fun _ _ _ => trivial
    exact ht.mono (fun u hu h0 => dropsNext_refuses (hu h0)) fun _ _ _ => trivial
  refine ⟨by decide +kernel, ?_, continuation_unassigned (by decide +kernel)⟩
  exact (calls_determined 65536 true .plain (State.fresh refusedStream .blank) 3
    (fun _ => leftover 12) (fun _ => leftover 0) hc).1

end Noaaport
