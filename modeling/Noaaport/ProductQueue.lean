import Mathlib.Data.List.Infix
import Mathlib.Logic.Function.Basic
import Noaaport.Lib.Calls
import Noaaport.Wire

/-! `ldmProductQueue.c`: the registry of LDM product-queues behind `lpqGet`, and
the operations on a queue. -/
namespace Noaaport.ProductQueue
open Lib

/-- `struct LdmProductQueue`, with the number of its `pqueue`. -/
structure Lpq where
  path : Text
  pq : Nat
  deriving DecidableEq

/-- The static variables and what they refer to. Blocks, handles and `pqueue`s are
numbered as they are made; an array is there until it is freed. -/
structure Registry where
  queues : Option Nat
  queueCount : Nat
  arrays : Nat → Option (List Nat)
  lpqs : Nat → Option Lpq
  isOpen : Nat → Bool
  nextArray : Nat
  nextLpq : Nat
  nextPq : Nat

def Registry.empty : Registry where
  queues := none
  queueCount := 0
  arrays := fun _ => none
  lpqs := fun _ => none
  isOpen := fun _ => false
  nextArray := 0
  nextLpq := 0
  nextPq := 0

inductive Realloc where
  | failed
  | inPlace
  | moved
  deriving DecidableEq

/-- What the functions that `lpqGet` calls answer. -/
structure GetAnswers where
  locked : Bool
  queuePath : Text
  realloc : Realloc
  malloc : Bool
  pqOpen : Bool
  strdup : Bool
  mutexInit : Bool

structure Result where
  status : Nat
  lpq : Option Nat
  reg : Registry

section Get

/-- `queues[queueIndex]`, which must not have been freed. -/
def Registry.read (r : Registry) (queueIndex : Nat) : Option Nat :=
  (r.queues.bind r.arrays).bind (·[queueIndex]?)

/-- The loop over the queues; `n` of them are left. -/
def search (r : Registry) (pathname : Text) : Nat → Nat → Option Nat
  | 0, queueIndex => some queueIndex
  | n + 1, queueIndex =>
    (r.read queueIndex).bind fun h =>
      (r.lpqs h).bind fun q =>
        if q.path = pathname then some queueIndex else search r pathname n (queueIndex + 1)

def Registry.free (r : Registry) (array : Nat) : Registry :=
  { r with arrays := Function.update r.arrays array none }

/-- `realloc(queues, ..)`: the array as it was, perhaps in a new place. -/
def Registry.realloc (r : Registry) (moved : Bool) : Option (Nat × List Nat × Registry) :=
  match r.queues with
  | none =>
    some (r.nextArray, [],
      { r with
        arrays := Function.update r.arrays r.nextArray (some [])
        nextArray := r.nextArray + 1 })
  | some array =>
    (r.arrays array).map fun hs =>
      if moved then
        (r.nextArray, hs,
          { r.free array with
            arrays := Function.update (r.free array).arrays r.nextArray (some hs)
            nextArray := r.nextArray + 1 })
      else (array, hs, r)

/-- The new handle behind the others, in the array that is now the registry's. -/
def Registry.append (r : Registry) (newArray : Nat) (hs : List Nat) (path : Text) (pq : Nat) :
    Registry :=
  { r with
    lpqs := Function.update r.lpqs r.nextLpq (some { path, pq })
    nextLpq := r.nextLpq + 1
    arrays := Function.update r.arrays newArray (some (hs ++ [r.nextLpq]))
    queueCount := r.queueCount + 1
    queues := some newArray }

def Registry.pqOpen (r : Registry) : Registry :=
  { r with isOpen := Function.update r.isOpen r.nextPq true, nextPq := r.nextPq + 1 }

def Registry.pqClose (r : Registry) (pq : Nat) : Registry :=
  { r with isOpen := Function.update r.isOpen pq false }

/-- A path that is not registered. Every failure frees the new array. -/
def register (pathname : Text) (ans : GetAnswers) (r : Registry) : Option Result :=
  if ans.realloc = .failed then some ⟨2, none, r⟩
  else
    (r.realloc (ans.realloc = .moved)).map fun (newArray, hs, r) =>
      if ans.malloc = false then ⟨2, none, r.free newArray⟩
      else if ans.pqOpen = false then ⟨3, none, r.free newArray⟩
      else
        let pq := r.nextPq
        let r := r.pqOpen
        if ans.strdup = false then ⟨2, none, (r.pqClose pq).free newArray⟩
        else if ans.mutexInit = false then ⟨2, none, (r.pqClose pq).free newArray⟩
        else ⟨0, some r.nextLpq, r.append newArray hs pathname pq⟩

def requested (pathname : Option Text) (ans : GetAnswers) : Text := pathname.getD ans.queuePath

/-- No result: the array has been freed. -/
def lpqGet (pathname : Option Text) (ans : GetAnswers) (r : Registry) : Option Result :=
  if ans.locked = false then some ⟨2, none, r⟩
  else
    let pathname := requested pathname ans
    (search r pathname r.queueCount 0).bind fun queueIndex =>
      if queueIndex ≥ r.queueCount then register pathname ans r
      else (r.read queueIndex).map fun h => ⟨0, some h, r⟩

/-- A call, with what happens in it. -/
structure GetCall where
  pathname : Option Text
  answers : GetAnswers

def GetCall.path (c : GetCall) : Text := requested c.pathname c.answers

def get (c : GetCall) (r : Registry) : Option Registry :=
  (lpqGet c.pathname c.answers r).map Result.reg

end Get

inductive PqInsert where
  | inserted
  | duplicate
  | failed
  deriving DecidableEq

structure InsertAnswers where
  locked : Bool
  pqInsert : PqInsert

def lpqInsert (ans : InsertAnswers) : Nat :=
  if ans.locked = false then 2
  else
    match ans.pqInsert with
    | .inserted => 0
    | .duplicate => 3
    | .failed => 4

inductive PqClose where
  | closed
  | overflow
  | failed
  deriving DecidableEq

/-- `gone`: an unsuccessful `pq_close` has closed the queue nevertheless. -/
structure CloseAnswers where
  locked : Bool
  pqClose : PqClose
  gone : Bool

def lpqClose (lpq : Nat) (ans : CloseAnswers) (r : Registry) : Option (Nat × Registry) :=
  (r.lpqs lpq).map fun q =>
    if ans.locked = false then (2, r)
    else
      match ans.pqClose with
      | .closed => (0, r.pqClose q.pq)
      | .overflow => (1, if ans.gone then r.pqClose q.pq else r)
      | .failed => (2, if ans.gone then r.pqClose q.pq else r)

end Noaaport.ProductQueue
