import Unwind.BackLink

/-!
# Reachable offsets

Which instructions a transfer can lead to, by the back-links of a table.  The end
of a finally body is followed into the transfers linked to it, except to the
start of the body itself.  Links may be cyclic; a body that is already being
expanded on the current path is not expanded again.
-/

set_option autoImplicit false

namespace Unwind

/-- The bodies being expanded and the offsets found so far. -/
structure Walk where
  path : List FinallyBody
  found : IndexSet Offset
deriving DecidableEq

def TrapStack.offsets (traps : TrapStack) : List Offset :=
  traps.contents.flatMap Trap.offsets

namespace LinkTable

/-- Follows a target through at most the given number of nested expansions. -/
def follow (table : LinkTable) : Nat → Target → Walk → Walk
  | _, .exception _, walk => walk
  | _, .ret, walk => walk
  | _, .jump offset _, walk => { walk with found := walk.found.insert offset }
  | 0, .exitFinally _, walk => walk
  | nested + 1, .exitFinally entry, walk =>
      if entry.body ∈ walk.path then walk
      else
        let inner := (table.backLinks entry.body).foldl
          (fun (inner : Walk) link =>
            table.follow nested link.transfer.target
              { inner with found := inner.found ∪ .ofList link.transfer.traps.offsets })
          ⟨entry.body :: walk.path, ∅⟩
        ⟨inner.path.erase entry.body, walk.found ∪ inner.found.erase entry.jump⟩

/-- Where a target can lead once no trap is left before it. -/
def targetOffsets (table : LinkTable) (target : Target) : IndexSet Offset :=
  -- a path holds no body twice, and a body outside the table has no links
  (table.follow (table.size + 1) target ⟨[], ∅⟩).found

def transferOffsets (table : LinkTable) (transfer : Continuation) : IndexSet Offset :=
  .ofList transfer.traps.offsets ∪ table.targetOffsets transfer.target

end LinkTable

def Trap.possibleOffsets (trap : Trap) : IndexSet Offset := .ofList trap.offsets

def Instruction.possibleOffsets (instruction : Instruction) (table : LinkTable) :
    IndexSet Offset :=
  table.transferOffsets instruction.transfer

end Unwind
