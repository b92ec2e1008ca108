/-
  Sets of validator indices, kept as strictly increasing lists.

  `IndexSet.problem?` finds what is wrong with a list that should be one, faults in a fixed order;
  `IndexSet.inter` gives the common elements of two such lists in one pass over both.
-/
import Beacon.Error

namespace Beacon

namespace IndexSet

/-! ## Well-formed index sets -/

/-- The first neighbours in a list with a property. -/
def findNeighbours? {α : Type} (p : α → α → Bool) : List α → Option (α × α)
  | a :: b :: rest => if p a b then some (a, b) else findNeighbours? p (b :: rest)
  | _ => none

/-- What keeps a list from being an index set of the size of a committee. -/
def problem? (config : Config) (indices : List UInt64) : Option Rejection :=
  let maximum := config.maxValidatorsPerCommittee.val.toNat
  if maximum < indices.length then some (.tooManyIndices indices.length maximum)
  else if indices = [] then some .noAttestingIndices
  else if (findNeighbours? (fun a b => b < a) indices).isSome then some .indicesNotSorted
  else
    match findNeighbours? (fun a b => a == b) indices with
    | some (index, _) => some (.indicesNotUnique index.toNat)
    | none => none

/-- Accepts index sets only. -/
def check (config : Config) (indices : List UInt64) : Except Failure Unit :=
  match problem? config indices with
  | some problem => .error (.rejected problem)
  | none => .ok ()

/-! ## Common elements -/

/-- The common elements of two strictly increasing lists, each once and in order. -/
def inter {α : Type} [LT α] [DecidableLT α] : List α → List α → List α
  | [], _ => []
  | _, [] => []
  | a :: as, b :: bs =>
    if a < b then inter as (b :: bs)
    else if b < a then inter (a :: as) bs
    else a :: inter as bs
termination_by as bs => as.length + bs.length

end IndexSet

end Beacon
