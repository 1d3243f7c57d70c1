import Noaaport.DataPhase
import Noaaport.Lib.Assignment

/-! The variables that `pmStart` declares in the body of its loop: what an iteration
reads and assigns of them, in the order of the source, and when every read comes
behind an assignment of the same iteration. -/
namespace Noaaport
open Lib

/-- The variables declared at the top of the body. -/
inductive LoopVar where
  | b1 | ioff | nwstg | goes | prodCompressed | heapcount | heapsize | prodName
  | dataoff | datalen | pfrag | nscan | deflen | cnt
  deriving DecidableEq

/-- What a statement reads twice stands once; every message is printed. -/
abbrev Accesses := List (Access LoopVar)

section Front
variable (p : Program) (lib : Library)

/-- The search for the next 255, which ends at `stop`. -/
def scanAccesses (stop : Nat) : Accesses :=
  .assign .ioff :: (List.range (stop - 1)).flatMap
    (fun _ => [.read .ioff, .assign .b1, .read .b1, .assign .ioff]) ++
    .read .ioff :: if stop > 15 then [] else [.assign .b1, .read .b1]

def syncLoopAccesses : Nat → Input → Accesses
  | 0, _ => []
  | fuel + 1, i =>
    if (readsbn i.buf i.sbn).1 then []
    else
      let ioff := scan i.buf 1
      scanAccesses ioff ++
        if ioff > 15 then []
        else ((i.setSbn.shift ioff).read p (16 - ioff) ioff (.again .badSbn)).after
          (syncLoopAccesses fuel)

def syncAccesses (i : Input) : Accesses :=
  (i.read p 0 1 .stop).after fun i =>
    [.assign .b1, .read .b1] ++
      if i.buf 0 ≠ 255 then []
      else (i.read p 1 15 (.again .shortSbn)).after fun i => syncLoopAccesses p (i.rest.length + 1) i

/-- From `IOFF = 0` on. -/
def definitionAccesses (s : State) : Accesses :=
  [.assign .ioff] ++ (s.read p 16 16 (.again .pdhRead)).after fun s =>
    let s := s.setInp { s.inp with stats := p.account s.inp.stats s.inp.sbn }
    if (s.inp.sbn.command ≠ 3 ∧ s.inp.sbn.command ≠ 5) ∨ s.inp.sbn.version ≠ 1 then []
    else if ¬ isNwstg s.inp.sbn.datastream ∧ ¬ isGoes s.inp.sbn.datastream then []
    else
      let s := s.setChannel.setInp { s.inp with pdh := readpdh s.inp.buf s.inp.sbn.len }
      [.assign .nwstg, .assign .goes, .read .ioff] ++ (readExtra p s).after fun s =>
        if s.inp.pdh.version ≠ 1 then []
        else
          let s := s.setCompressed
          [.assign .prodCompressed] ++
            if s.inp.pdh.pshlen = 0 ∧ s.inp.pdh.transtype = 0 then [.read .ioff, .assign .ioff]
            else []

def rerouteAccesses (s : State) : Accesses :=
  if s.inp.sbn.datastream = 4 ∧ s.asm.psh.pcat ≠ 3 then [.assign .goes, .assign .nwstg] else []

def nwstgHeaderAccesses (s : State) : Accesses :=
  [.read .nwstg] ++
    if s.v.nwstg then
      [.read .ioff, .assign .prodName, .assign .heapsize, .read .heapcount, .assign .heapcount]
    else []

def openProductAccesses (s : State) : Accesses :=
  [.read .goes] ++
    (if s.v.goes then
      [.read .ioff, .read .prodCompressed] ++
        (goesHeader lib s.markImage).after fun _ => [.assign .prodName, .assign .heapsize]
    else []) ++
    (if s.v.goes then goesHeader lib s.markImage else .go s.markImage).after nwstgHeaderAccesses

def headerAccesses (s : State) : Accesses :=
  (s.read p s.inp.pshOff s.inp.pdh.pshlen (.again .pshRead)).after fun s =>
    if s.inp.sbn.command = 5 then []
    else
      [.read .ioff] ++
        let s := s.decodePsh
        if (s.asm.psh.olen : Int) ≠ s.inp.pdh.pshlen then []
        else
          match s.asm.abandon lib with
          | none => []
          | some asm =>
            ((s.begin lib asm).readBlock p (.again .blockRead)).after fun s =>
              rerouteAccesses s ++ [.assign .heapcount] ++
                openProductAccesses lib s.rerouteChannel4.resetHeap

def frontAccesses (s : State) : Accesses :=
  syncAccesses p s.inp ++ ((sync p s.inp).within s.setInp).after fun s =>
    definitionAccesses p s ++ (definition p s).after fun s =>
      if s.inp.pdh.pshlen ≠ 0 then headerAccesses p lib s else rerouteAccesses s

end Front

section Data
variable (lib : Library)

/-- `memcpy`, `MD5Update` and the count of a compressed block. -/
def copyAccesses : Accesses := [.read .heapcount, .read .dataoff, .read .datalen, .assign .heapcount]

def goesFirstAccesses (s : State) : Accesses :=
  [.read .prodCompressed] ++
    if s.v.prodCompressed then copyAccesses else [.read .dataoff, .read .datalen]

def goesNextAccesses (s : State) : Accesses :=
  [.read .prodCompressed] ++
    if s.v.prodCompressed then copyAccesses
    else
      [.assign .nscan, .read .nscan] ++
        ((List.range s.inp.pdh.dbsize).filter (· * s.asm.pdb.nx < s.inp.pdh.dbsize)).flatMap
          (fun nscan =>
            (if nscan < s.inp.pdh.recordsPerBlock then [.read .dataoff] else []) ++
              [.read .nscan, .assign .nscan])

def goesDataAccesses (pfrag : Datastore) (s : State) : Accesses :=
  [.read .pfrag] ++
    (if pfrag.fragnum > 0 then
      match s.asm.prod.frags.getLast? with
      | none => []
      | some tail =>
        if s.asm.tailLives tail = false then []
        else if s.asm.prod.missing tail pfrag then []
        else
          (if s.asm.pnginit = false then [.read .prodCompressed] else []) ++
            if s.asm.pnginit = false ∧ s.v.prodCompressed = false then [.read .prodName]
            else goesNextAccesses s
    else goesFirstAccesses s) ++
    (goesData lib pfrag s).after fun _ => [.assign .deflen]

/-- The `while (datalen > 4)` loop. -/
def stripAccesses (buf : Buffer) (dataoff : Nat) : Nat → Accesses
  | n + 5 =>
    [.read .datalen, .read .dataoff] ++
      if load buf (dataoff + (n + 1)) 4 = fosTrailer then
        [.assign .datalen, .read .prodName] ++ stripAccesses buf dataoff (n + 1)
      else []
  | _ => [.read .datalen]

def nwstgCopyAccesses (pfrag : Datastore) (s : State) : Accesses :=
  [.read .pfrag] ++
    (if s.asm.prod.completedBy pfrag then stripAccesses s.inp.buf s.v.dataoff s.v.datalen else []) ++
    [.read .heapcount, .read .datalen, .read .heapsize] ++
    (nwstgCopy pfrag s).after fun _ => [.read .dataoff, .assign .deflen, .read .deflen]

def nwstgDataAccesses (pfrag : Datastore) (s : State) : Accesses :=
  match s.asm.prod.frags.getLast? with
  | none => nwstgCopyAccesses pfrag s
  | some tail =>
    if s.asm.prod.nfrag = 0 then nwstgCopyAccesses pfrag s
    else if s.asm.tailLives tail = false then []
    else if s.asm.prod.missing tail pfrag then [.read .pfrag]
    else nwstgCopyAccesses pfrag s

def linkAccesses : Accesses := [.read .pfrag, .read .deflen, .read .heapcount, .assign .heapcount]

def nwstgEndAccesses (s : State) : Accesses :=
  [.read .nwstg] ++
    if s.v.nwstg then
      [.read .heapcount] ++
        if s.v.heapcount > 4 then
          [.assign .cnt] ++
            (if s.inp.sbn.datastream = 5 ∧ (s.asm.psh.pcat = 1 ∨ s.asm.psh.pcat = 7) then
              [.read .prodName]
            else []) ++
            [.read .cnt, .read .heapcount, .assign .heapcount]
        else []
    else []

def finishAccesses (pfrag : Datastore) (s : State) : Accesses :=
  [.read .pfrag] ++
    if s.asm.prod.completedBy pfrag then
      [.read .goes] ++
        (if s.v.goes ∧ s.asm.pnginit then (goesEnd lib s).after fun _ => [.assign .heapcount] else []) ++
        (if s.v.goes then goesEnd lib s else .go s).after fun s =>
          [.read .heapcount] ++ nwstgEndAccesses s ++ [.read .prodName, .read .heapcount]
    else []

def dataAccesses (s : State) : Accesses :=
  let pfrag := s.newFrag lib
  [.read .ioff, .assign .dataoff, .assign .datalen, .assign .pfrag, .read .datalen] ++
    .read .heapcount :: (
      let s := s.getData lib
      [.read .goes] ++
        (if s.v.goes then goesDataAccesses lib pfrag s else nwstgDataAccesses pfrag s) ++
        (if s.v.goes then goesData lib pfrag s else nwstgData pfrag s).after fun s =>
          linkAccesses ++ (link pfrag s).after fun s =>
            finishAccesses lib pfrag s ++ (finish lib pfrag s).after fun _ =>
              [.read .ioff, .assign .ioff, .read .datalen, .read .deflen])

end Data

def iterationAccesses (p : Program) (lib : Library) (s : State) : Accesses :=
  frontAccesses p lib s ++ (front p lib s).after (dataAccesses lib)

/-- No continuation record comes as far as "Get the data". -/
def BringsNoContinuation (p : Program) (lib : Library) (s : State) : Prop :=
  (front p lib s).Ends (fun u => u.inp.pdh.pshlen ≠ 0) (fun _ _ => True)

section Front
variable {p : Program} {lib : Library} {before : List LoopVar}

/-- What the PDH decides on. -/
def definedVars : List LoopVar := [.prodCompressed, .goes, .nwstg, .ioff]

/-- What a header record assigns on top. -/
def headerVars : List LoopVar := [.heapcount, .heapsize, .prodName] ++ definedVars

theorem scan_assigned (stop : Nat) : assignedFrom before (scanAccesses stop) = true := by
  unfold scanAccesses
  rw [assignedFrom_append]
  constructor
  · refine assignedFrom_flatMap _ fun _ => ?_
    simp [assignedFrom]
  · have hioff : LoopVar.ioff ∈ known before (.assign .ioff :: (List.range (stop - 1)).flatMap
        fun _ => [.read .ioff, .assign .b1, .read .b1, .assign .ioff]) :=
      mem_known.2 (.inr List.mem_cons_self)
    split_ifs <;> simp [assignedFrom, hioff]

theorem syncLoop_assigned (fuel : Nat) (i : Input) :
    assignedFrom before (syncLoopAccesses p fuel i) = true := by
  induction fuel generalizing i before with
  | zero => rfl
  | succ fuel ih =>
    rw [syncLoopAccesses]
    split_ifs
    · rfl
    refine assignedFrom_append.2 ⟨scan_assigned _, ?_⟩
    split_ifs
    · rfl
    · exact Flow.assignedFrom_after _ ih

theorem sync_assigned (i : Input) : assignedFrom before (syncAccesses p i) = true := by
  refine Flow.assignedFrom_after _ fun j => assignedFrom_append.2 ⟨by simp [assignedFrom], ?_⟩
  refine assignedFrom_ite (fun _ => rfl) fun _ => ?_
  exact Flow.assignedFrom_after _ fun k => syncLoop_assigned _ k

theorem definition_covers (s : State) :
    Flow.Covers before (fun _ => definedVars) (definition p s) (definitionAccesses p s) := by
  refine .bind (.part (.ioff :: before) _ rfl (List.Subset.refl _)) fun s _ => ?_
  refine .ite (fun _ => .exit rfl) fun _ => .ite (fun _ => .exit rfl) fun _ => ?_
  refine .bind (.part [.goes, .nwstg, .ioff] _ (by simp [assignedFrom]) ?_) fun s _ => ?_
  · simp [known]
  refine .ite (fun _ => .exit rfl) fun _ => ?_
  refine .prepend rfl (.ite (fun _ => .exit rfl) fun _ => .go rfl ?_)
  exact List.Subset.refl _

theorem reroute_assigned (s : State) : assignedFrom before (rerouteAccesses s) = true := by
  unfold rerouteAccesses
  split_ifs <;> rfl

/-- The half of the product's kind assigns the rest. -/
theorem openProduct_covers (s : State) (hk : s.OneKind) :
    Flow.Covers (.heapcount :: definedVars) (fun _ => headerVars) (openProduct lib s)
      (openProductAccesses lib s) := by
  have hmark : s.markImage.v = s.v := rfl
  unfold openProduct openProductAccesses
  cases hg : s.v.goes with
  | true =>
    have hn : s.v.nwstg = false := by rwa [State.OneKind, hg] at hk
    have hgoes : ∀ t, goesHeader lib s.markImage = .go t → t.v.nwstg = false := by
      intro t ht
      have hends : (goesHeader lib s.markImage).Ends (fun t => t.v.nwstg = false) (fun _ _ => True) :=
        Flow.ends_ite (fun _ => trivial) fun _ => hn
      exact hends.go ht
    have hall : Flow.Covers (.heapcount :: definedVars) (fun _ => headerVars)
        (goesHeader lib s.markImage) ([.read .goes, .read .ioff, .read .prodCompressed] ++
          (goesHeader lib s.markImage).after fun _ => [.assign .prodName, .assign .heapsize]) := by
      refine .prepend rfl ?_
      cases goesHeader lib s.markImage with
      | exit e t => exact .exit rfl
      | go t =>
        refine .go rfl ?_
        change headerVars ⊆ [.heapsize, .prodName, .heapcount] ++ definedVars
        decide
    simp only [↓reduceIte]
    rw [← List.append_assoc]
    refine hall.bind fun t ht => .go ?_ ?_
    · simp [nwstgHeaderAccesses, hgoes t ht]
      decide
    · simp [nwstgHeaderAccesses, hgoes t ht]
      decide
  | false =>
    have hn : s.markImage.v.nwstg = true := by rwa [State.OneKind, hg] at hk
    simp only [Bool.false_eq_true, ↓reduceIte, Flow.bind_go, Flow.after, nwstgHeaderAccesses, hn]
    exact .go rfl (by decide)

theorem headerRecord_covers (s : State) (hk : s.OneKind) :
    Flow.Covers definedVars (fun _ => headerVars) (headerRecord p lib s) (headerAccesses p lib s) := by
  have hread : Flow.Covers definedVars (fun _ => definedVars)
      (s.read p s.inp.pshOff s.inp.pdh.pshlen (.again .pshRead)) [] :=
    .part _ _ rfl (List.Subset.refl _)
  refine hread.bind fun t ht => ?_
  have htk : t.OneKind := by
    obtain ⟨rfl, -⟩ := (State.read_ends ..).go ht
    exact hk
  refine .ite (fun _ => .exit rfl) fun _ => .prepend rfl (.ite (fun _ => .exit rfl) fun _ => ?_)
  cases ha : t.decodePsh.asm.abandon lib with
  | none => exact .exit rfl
  | some asm =>
    have hblock : Flow.Covers definedVars (fun _ => definedVars)
        (((t.decodePsh).begin lib asm).readBlock p (.again .blockRead)) [] :=
      .part _ _ rfl (List.Subset.refl _)
    refine hblock.bind fun u hu => ?_
    have huk : u.rerouteChannel4.resetHeap.OneKind := by
      obtain ⟨rfl, -⟩ := (State.read_ends ..).go hu
      exact State.OneKind.reroute (s := _) htk
    have hknown : .heapcount :: definedVars ⊆ known definedVars (rerouteAccesses u ++ [.assign .heapcount]) := by
      rw [known_append]
      exact List.cons_subset_cons _ fun x hx => mem_known.2 (.inl hx)
    have hopen : Flow.Covers (.heapcount :: definedVars) (fun _ => headerVars)
        (openProduct lib u.rerouteChannel4.resetHeap) (openProductAccesses lib u.rerouteChannel4.resetHeap) :=
      openProduct_covers _ huk
    refine .prepend ?_ ⟨assignedFrom_mono hknown hopen.assigned, fun w hw => ?_⟩
    · exact assignedFrom_append.2 ⟨reroute_assigned u, rfl⟩
    · exact fun x hx => known_mono hknown (hopen.known w hw hx)

/-- All that a record reads before "Get the data" has been assigned, and behind a header record
so has all that is read there. -/
theorem front_covers (s : State) :
    Flow.Covers [] (fun t => if t.inp.pdh.pshlen ≠ 0 then headerVars else []) (front p lib s)
      (frontAccesses p lib s) := by
  have hsync : Flow.Covers [] (fun _ => []) ((sync p s.inp).within s.setInp) (syncAccesses p s.inp) :=
    .part _ _ (sync_assigned s.inp) (List.nil_subset _)
  unfold front
  rw [Flow.bind_assoc]
  refine hsync.bind fun t _ => (definition_covers t).bind fun u hu => ?_
  refine .ite (fun hp => ?_) fun hp => ?_
  · refine (headerRecord_covers u ((definition_ends p t).go hu).oneKind).weaken fun w _ => ?_
    split_ifs
    · exact List.Subset.refl _
    · exact List.nil_subset _
  · refine ⟨reroute_assigned u, fun w hw => ?_⟩
    have hw' := (continuationRecord_ends (p := p) (s := u) (not_not.1 hp)).go hw
    rw [if_neg (by rw [hw'.block.pdh]; exact hp)]
    exact List.nil_subset _

end Front

section Data
variable {lib : Library} {before : List LoopVar} {pfrag : Datastore}

/-- What has been assigned when the block is looked at. -/
def blockVars : List LoopVar := [.pfrag, .datalen, .dataoff] ++ headerVars

theorem goesNext_assigned (s : State) : assignedFrom blockVars (goesNextAccesses s) = true := by
  refine assignedFrom_append.2 ⟨rfl, assignedFrom_ite (fun _ => rfl) fun _ => ?_⟩
  refine assignedFrom_append.2 ⟨rfl, assignedFrom_flatMap _ fun nscan => ?_⟩
  split_ifs <;> rfl

/-- And `deflen` is assigned where the block has been dealt with. -/
theorem goesData_covers (s : State) :
    Flow.Covers blockVars (fun _ => .deflen :: blockVars) (goesData lib pfrag s)
      (goesDataAccesses lib pfrag s) := by
  have hblock : assignedFrom blockVars ([.read .pfrag] ++
      (if pfrag.fragnum > 0 then
        match s.asm.prod.frags.getLast? with
        | none => []
        | some tail =>
          if s.asm.tailLives tail = false then []
          else if s.asm.prod.missing tail pfrag then []
          else
            (if s.asm.pnginit = false then [.read .prodCompressed] else []) ++
              if s.asm.pnginit = false ∧ s.v.prodCompressed = false then [.read .prodName]
              else goesNextAccesses s
      else goesFirstAccesses s)) = true := by
    refine assignedFrom_append.2 ⟨rfl, assignedFrom_ite (fun _ => ?_) fun _ => ?_⟩
    · split
      · rfl
      refine assignedFrom_ite (fun _ => rfl) fun _ => assignedFrom_ite (fun _ => rfl) fun _ => ?_
      have hpng : assignedFrom blockVars (if s.asm.pnginit = false then [.read .prodCompressed] else []) =
          true := by
        split_ifs <;> rfl
      refine assignedFrom_append.2 ⟨hpng, assignedFrom_mono (fun _ hx => mem_known.2 (.inl hx)) ?_⟩
      exact assignedFrom_ite (fun _ => rfl) fun _ => goesNext_assigned s
    · exact assignedFrom_append.2 ⟨rfl, assignedFrom_ite (fun _ => rfl) fun _ => rfl⟩
  refine .prepend hblock ?_
  cases goesData lib pfrag s with
  | exit e t => exact .exit rfl
  | go t => exact .go rfl (List.cons_subset_cons _ fun _ hx => mem_known.2 (.inl hx))

theorem strip_assigned (buf : Buffer) (dataoff n : Nat) :
    assignedFrom blockVars (stripAccesses buf dataoff n) = true := by
  induction n using stripTrailers.induct buf dataoff with
  | case1 n h ih =>
    rw [stripAccesses, if_pos h]
    exact assignedFrom_append.2 ⟨rfl, assignedFrom_append.2
      ⟨rfl, assignedFrom_mono (fun _ hx => List.mem_cons_of_mem _ hx) ih⟩⟩
  | case2 n h =>
    rw [stripAccesses, if_neg h]
    rfl
  | case3 n h =>
    rw [stripAccesses.eq_2 _ _ _ h]
    rfl

theorem nwstgCopy_covers (s : State) :
    Flow.Covers blockVars (fun _ => .deflen :: blockVars) (nwstgCopy pfrag s)
      (nwstgCopyAccesses pfrag s) := by
  have hstrip : assignedFrom blockVars
      (if s.asm.prod.completedBy pfrag then stripAccesses s.inp.buf s.v.dataoff s.v.datalen else []) =
        true :=
    assignedFrom_ite (fun _ => strip_assigned ..) fun _ => rfl
  refine .prepend (assignedFrom_append.2 ⟨assignedFrom_append.2 ⟨rfl, hstrip⟩, ?_⟩) ?_
  · exact assignedFrom_mono (fun _ hx => mem_known.2 (.inl hx))
      (show assignedFrom blockVars [.read .heapcount, .read .datalen, .read .heapsize] = true from rfl)
  · have hsub : blockVars ⊆ known blockVars ([.read .pfrag] ++
        (if s.asm.prod.completedBy pfrag then stripAccesses s.inp.buf s.v.dataoff s.v.datalen else []) ++
        [.read .heapcount, .read .datalen, .read .heapsize]) := fun _ hx => mem_known.2 (.inl hx)
    cases nwstgCopy pfrag s with
    | exit e t => exact .exit rfl
    | go t =>
      exact .go (assignedFrom_mono hsub (show assignedFrom blockVars
        [.read .dataoff, .assign .deflen, .read .deflen] = true from rfl)) (List.cons_subset_cons _ hsub)

theorem nwstgData_covers (s : State) :
    Flow.Covers blockVars (fun _ => .deflen :: blockVars) (nwstgData pfrag s)
      (nwstgDataAccesses pfrag s) := by
  unfold nwstgData nwstgDataAccesses
  cases s.asm.prod.frags.getLast? with
  | none => exact nwstgCopy_covers s
  | some tail =>
    refine .ite (fun _ => nwstgCopy_covers s) fun _ => .ite (fun _ => .exit rfl) fun _ => ?_
    exact .ite (fun _ => .exit rfl) fun _ => nwstgCopy_covers s

theorem nwstgEnd_assigned (s : State) :
    assignedFrom (.deflen :: blockVars) (nwstgEndAccesses s) = true := by
  refine assignedFrom_append.2 ⟨rfl, assignedFrom_ite (fun _ => ?_) fun _ => rfl⟩
  refine assignedFrom_append.2 ⟨rfl, assignedFrom_ite (fun _ => ?_) fun _ => rfl⟩
  split_ifs <;> rfl

theorem finish_assigned (s : State) :
    assignedFrom (.deflen :: blockVars) (finishAccesses lib pfrag s) = true := by
  have hsub : ∀ as : Accesses, .deflen :: blockVars ⊆ known (.deflen :: blockVars) as :=
    fun as _ hx => mem_known.2 (.inl hx)
  have hend : ∀ t : State, assignedFrom (.deflen :: blockVars)
      ([.read .heapcount] ++ nwstgEndAccesses t ++ [.read .prodName, .read .heapcount]) = true :=
    fun t => assignedFrom_append.2 ⟨assignedFrom_append.2 ⟨rfl, nwstgEnd_assigned t⟩,
      assignedFrom_mono (hsub _)
        (show assignedFrom (.deflen :: blockVars) [.read .prodName, .read .heapcount] = true from rfl)⟩
  refine assignedFrom_append.2 ⟨rfl, assignedFrom_ite (fun _ => ?_) fun _ => rfl⟩
  refine assignedFrom_append.2 ⟨assignedFrom_append.2 ⟨rfl, assignedFrom_ite (fun _ => ?_) fun _ => rfl⟩,
    assignedFrom_mono (hsub _) (Flow.assignedFrom_after _ hend)⟩
  exact Flow.assignedFrom_after _ fun _ => rfl

/-- Behind a header record all that is read has been assigned. -/
theorem data_assigned (s : State) : assignedFrom headerVars (dataAccesses lib s) = true := by
  have hblock : Flow.Covers blockVars (fun _ => .deflen :: blockVars)
      (if (s.getData lib).v.goes then goesData lib (s.newFrag lib) (s.getData lib)
        else nwstgData (s.newFrag lib) (s.getData lib))
      (if (s.getData lib).v.goes then goesDataAccesses lib (s.newFrag lib) (s.getData lib)
        else nwstgDataAccesses (s.newFrag lib) (s.getData lib)) :=
    .ite (fun _ => goesData_covers _) fun _ => nwstgData_covers _
  have hlink : ∀ t : State, Flow.Covers (.deflen :: blockVars) (fun _ => .deflen :: blockVars)
      ((link (s.newFrag lib) t).bind (finish lib (s.newFrag lib)))
      (linkAccesses ++ (link (s.newFrag lib) t).after fun t =>
        finishAccesses lib (s.newFrag lib) t ++ (finish lib (s.newFrag lib) t).after fun _ =>
          [.read .ioff, .assign .ioff, .read .datalen, .read .deflen]) := by
    intro t
    refine .bind (.part (.deflen :: blockVars) _ rfl (by decide)) fun u _ => ⟨?_, fun w _ => ?_⟩
    · refine assignedFrom_append.2 ⟨finish_assigned u, ?_⟩
      exact assignedFrom_mono (fun _ hx => mem_known.2 (.inl hx))
        (Flow.assignedFrom_after _ fun _ => rfl)
    · exact fun _ hx => mem_known.2 (.inl hx)
  have hgoes : assignedFrom blockVars [.read .goes] = true := rfl
  have hall := (Flow.Covers.prepend hgoes hblock).bind fun t _ => hlink t
  refine assignedFrom_append.2 ⟨rfl, ?_⟩
  exact hall.assigned

end Data

section Heapcount
variable {p : Program} {lib : Library}

theorem scan_heapcount (stop : Nat) : .assign .heapcount ∉ scanAccesses stop := by
  unfold scanAccesses
  split_ifs <;> simp

theorem syncLoop_heapcount (fuel : Nat) (i : Input) :
    .assign .heapcount ∉ syncLoopAccesses p fuel i := by
  induction fuel generalizing i with
  | zero => exact List.not_mem_nil
  | succ fuel ih =>
    refine not_mem_ite (fun _ => List.not_mem_nil) fun _ => ?_
    refine List.not_mem_append (scan_heapcount _) ?_
    exact not_mem_ite (fun _ => List.not_mem_nil) fun _ => Flow.not_mem_after ih

theorem sync_heapcount (i : Input) : .assign .heapcount ∉ syncAccesses p i := by
  refine Flow.not_mem_after fun j => List.not_mem_append (by decide) ?_
  exact not_mem_ite (fun _ => List.not_mem_nil) fun _ =>
    Flow.not_mem_after fun k => syncLoop_heapcount _ k

theorem definition_heapcount (s : State) : .assign .heapcount ∉ definitionAccesses p s := by
  refine List.not_mem_append (by decide) (Flow.not_mem_after fun t => ?_)
  refine not_mem_ite (fun _ => List.not_mem_nil) fun _ => ?_
  refine not_mem_ite (fun _ => List.not_mem_nil) fun _ => ?_
  refine List.not_mem_append (by decide) (Flow.not_mem_after fun u => ?_)
  refine not_mem_ite (fun _ => List.not_mem_nil) fun _ => ?_
  exact List.not_mem_append (by decide) (not_mem_ite (fun _ => by decide) fun _ => List.not_mem_nil)

/-- A continuation record comes to "Get the data" without a `heapcount`. -/
theorem front_heapcount {s u : State} (hu : front p lib s = .go u) (hp : u.inp.pdh.pshlen = 0) :
    .assign .heapcount ∉ frontAccesses p lib s := by
  obtain ⟨w, hw, hrecord⟩ := Flow.bind_eq_go.1 hu
  obtain ⟨t, ht, hdef⟩ := Flow.bind_eq_go.1 hw
  rw [frontAccesses, ht, Flow.after, hdef, Flow.after]
  have hkind : ¬ w.inp.pdh.pshlen ≠ 0 := by
    intro hne
    rw [if_pos hne] at hrecord
    have hpdh := ((headerRecord_ends ((definition_ends p t).go hdef).oneKind).go hrecord).block.pdh
    exact hne (hpdh ▸ hp)
  rw [if_neg hkind, List.mem_append, List.mem_append, not_or, not_or]
  refine ⟨sync_heapcount _, definition_heapcount _, ?_⟩
  unfold rerouteAccesses
  split_ifs <;> decide

end Heapcount

/-- Every read of an iteration comes behind an assignment of the same iteration exactly if it
brings no continuation record to "Get the data": there `heapcount` is read. -/
theorem allAssigned_iff_bringsNoContinuation (p : Program) (lib : Library) (s : State) :
    AllAssigned (iterationAccesses p lib s) ↔ BringsNoContinuation p lib s := by
  have hfront : Flow.Covers [] _ (front p lib s) (frontAccesses p lib s) := front_covers s
  rw [iterationAccesses, BringsNoContinuation]
  cases hu : front p lib s with
  | exit e u =>
    rw [Flow.after, List.append_nil, allAssigned_iff]
    exact iff_of_true hfront.assigned trivial
  | go u =>
    rw [Flow.after, Flow.ends_go]
    constructor
    · intro hall hp
      rw [dataAccesses, ← List.append_assoc] at hall
      refine not_allAssigned ?_ hall
      rw [List.mem_append, not_or]
      exact ⟨front_heapcount hu hp, by decide⟩
    · intro hp
      rw [allAssigned_iff, assignedFrom_append]
      have hknown := hfront.known u hu
      rw [if_pos hp] at hknown
      exact ⟨hfront.assigned, assignedFrom_mono hknown (data_assigned u)⟩

end Noaaport
