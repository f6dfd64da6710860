import Unwind.Transfer

/-!
# Dispatch

Following a transfer until it finishes or fails.  `run` takes a bound on the
number of steps and answers `none` when the bound is too small, so everything
else about it is independent of limits; `resolve` and `dispatch` put the
configured limits around it.
-/

set_option autoImplicit false

namespace Unwind

/-- No bound on the number of successors is written as zero. -/
structure Limits where
  maxDepth : Nat
  maxSuccessors : Nat
deriving DecidableEq

def Limits.standard : Limits := ⟨1000, 0⟩

def Limits.strict : Limits := ⟨64, 64⟩

inductive Error where
  | violation (cause : Violation)
  | malformedTrap (defect : ClauseDefect)
  | classLimit (full : ClassLimit)
  | recursionLimit (limit : Nat)
  | successorLimit (count limit : Nat)
deriving DecidableEq

/-- The place that detects a violation is shown as `<loc>`. -/
def Error.message : Error → String
  | .violation cause => "Invariant violated - <loc>: " ++ cause.message
  | .malformedTrap defect => "Malformed trap - " ++ defect.message
  | .classLimit full => full.message
  | .recursionLimit limit => "Reach the maximum recursion level allowed - " ++ toString limit
  | .successorLimit count limit =>
      "Dispatch produced " ++ toString count ++ " successors, limit is " ++ toString limit

namespace Transfer

def run : Nat → Transfer → Option (Except Violation (List Successor))
  | 0, _ => none
  | steps + 1, transfer =>
      match transfer.step with
      | .finish successors => some (.ok successors)
      | .fail violation => some (.error violation)
      | .pass branches rest =>
          (rest.run steps).map fun outcome => outcome.map (branches ++ ·)

def resolve (limits : Limits) (transfer : Transfer) : Except Error (List Successor) :=
  match transfer.run limits.maxDepth with
  | none => .error (.recursionLimit limits.maxDepth)
  | some (.error violation) => .error (.violation violation)
  | some (.ok successors) => .ok successors

def dispatch (limits : Limits) (transfer : Transfer) : Except Error (List Successor) :=
  match transfer.resolve limits with
  | .error error => .error error
  | .ok successors =>
      if limits.maxSuccessors ≠ 0 ∧ limits.maxSuccessors < successors.length then
        .error (.successorLimit successors.length limits.maxSuccessors)
      else .ok successors

end Transfer

def Continuation.transfer (continuation : Continuation) (state : State) : Transfer :=
  ⟨state, continuation.target, continuation.traps⟩

/-- An instruction that transfers control when it is executed. -/
structure Instruction where
  index : Offset
  transfer : Continuation
deriving DecidableEq

namespace Instruction

def Agrees (first second : Instruction) : Prop :=
  first.index = second.index ∧ first.transfer.Agrees second.transfer

instance (first second : Instruction) : Decidable (first.Agrees second) :=
  inferInstanceAs (Decidable (_ ∧ _))

def execute (limits : Limits) (state : State) (instruction : Instruction) :
    Except Error (List Successor) :=
  (instruction.transfer.transfer state).dispatch limits

def text (instruction : Instruction) : String := "TRANSFER " ++ instruction.transfer.text

end Instruction

end Unwind
