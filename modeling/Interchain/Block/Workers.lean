import Interchain.Block.Predicates

/-!
# Checking the transactions of a block in parallel

One worker checks each transaction. The workers share the least index that is known to fail, and a worker whose
transaction lies behind it does nothing.

A schedule is a list of events: a worker loads the shared index and decides whether to check, or it is done with its
check. Memory shows as the age of what is loaded. A worker loads once, before it starts, and may see any value that
the index has had so far; what is written is the minimum with the latest value, as one step. Threads, queues and the
time that a check takes are not modelled. `Workers.collect` is the answer of a block from what its workers have come
to.
-/

namespace Interchain

namespace Workers

variable {ε α : Type}

/-- What the worker of a transaction has come to. -/
inductive Progress (ε α : Type) where
  | waiting
  | checking
  | skipped
  | finished (outcome : Except ε α)

inductive Event where
  /-- The worker reads the shared index as it was `age` changes ago. -/
  | load (worker age : Nat)
  | finish (worker : Nat)
deriving DecidableEq, Repr

end Workers

/-- The workers of a block: the values that the shared index has had, the latest first, and the progress on each
transaction. -/
structure Workers (ε α : Type) where
  seen : List (Option Nat)
  progress : List (Workers.Progress ε α)

namespace Workers

variable {ε α : Type} (check : Nat → Except ε α)

def start (n : Nat) : Workers ε α := ⟨[none], List.replicate n .waiting⟩

/-- The index after a failure at `i`. -/
def lower (i : Nat) : Option Nat → Option Nat
  | none => some i
  | some j => some (min i j)

/-- One event; nothing if the worker is not ready for it. -/
def step (w : Workers ε α) : Event → Option (Workers ε α)
  | .load i age =>
    match w.progress[i]?, w.seen[age]? with
    | some .waiting, some index =>
      let next := if index.any (· < i) then .skipped else .checking
      some { w with progress := w.progress.set i next }
    | _, _ => none
  | .finish i =>
    match w.progress[i]?, w.seen with
    | some .checking, latest :: earlier =>
      let seen := match check i with
        | .ok _ => latest :: earlier
        | .error _ => lower i latest :: latest :: earlier
      some { seen, progress := w.progress.set i (.finished (check i)) }
    | _, _ => none

def run (schedule : List Event) (w : Workers ε α) : Option (Workers ε α) :=
  schedule.foldlM (step check) w

/-- Whether every worker is done. -/
def isComplete (w : Workers ε α) : Bool :=
  w.progress.all fun
    | .skipped => true
    | .finished _ => true
    | _ => false

/-- The outcome for the transaction at `i`, which is checked now if its worker has not done so. -/
def outcome (i : Nat) : Progress ε α → Except ε α
  | .finished r => r
  | _ => check i

/-- The results in the order of the block, or the first failure in that order. -/
def collect (w : Workers ε α) : Except ε (List α) :=
  w.progress.zipIdx.mapM fun (p, i) => outcome check i p

/-- The check that the worker of a transaction of a block makes. -/
def checkAt (registry : Registry) (config : ChainConfig) (ctx : PredicateContext) (timestamp : UInt64)
    (transactions : List AccessList) (i : Nat) : Except BlockCheckError VerifiedPayloads :=
  BlockCheck.checkTransaction registry config ctx timestamp i (transactions.getD i [])

example :
    let check : Nat → Except Nat Nat := fun i => if i = 1 then .error i else .ok i
    let schedule : List Event := [.load 1 0, .finish 1, .load 2 0, .load 0 1, .finish 0]
    (run check schedule (start 3)).map (fun w => (w.isComplete, (collect check w).toOption, w.seen)) =
      some (true, none, [some 1, none]) := by decide

end Workers

end Interchain
