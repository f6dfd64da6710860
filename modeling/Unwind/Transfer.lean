import Unwind.State

/-!
# Transfers of control and their single steps

A transfer is a target on its way out through a trap stack, from a given state.
One step takes it through the innermost trap, or lets it arrive when no trap is
left.  A step either finishes the transfer, fails because traps and state do not
fit each other, or passes it on; passing an exception through catch clauses also
leaves behind one branch for every type that may match.

Every step has exactly one transfer left to follow, so a whole dispatch is a walk
and not a tree.
-/

set_option autoImplicit false

namespace Unwind

/-- Where control may be after a transfer. -/
inductive Successor where
  | instruction (offset : Offset) (state : State)
  | escape (exception : Constraint) (state : State)
  | ret (state : State)
deriving DecidableEq

namespace Successor

def state : Successor → State
  | .instruction _ state => state
  | .escape _ state => state
  | .ret state => state

def offset? : Successor → Option Offset
  | .instruction offset _ => some offset
  | _ => none

def escaped? : Successor → Option Constraint
  | .escape exception _ => some exception
  | _ => none

/-- The transfer has left the analysed code. -/
def isTerminal (successor : Successor) : Bool := successor.offset?.isNone

end Successor

/-- A trap stack and a state that no well-formed code produces together. -/
inductive Violation where
  | noContinuation (trap : Trap) (target : Target)
  | notReturn (trap : Trap) (saved : Target)
  | unmatchedExit (entry : FinallyEntry)
deriving DecidableEq

def Violation.message : Violation → String
  | .noContinuation trap target =>
      trap.name ++ " dispatched " ++ target.text ++
        " without a saved continuation on the state"
  | .notReturn trap saved =>
      trap.name ++ " popped a " ++ saved.kindName ++ " continuation, expected Return"
  | .unmatchedExit entry =>
      "ExitFinally of " ++ entry.body.text ++ " (jump " ++ entry.jump.text ++
        ") reached an empty trap stack"

/-! ## Catch clauses -/

/-- One caught type with the handler of its clause. -/
structure Arm where
  caught : Constraint
  handler : Offset
deriving DecidableEq

def Clause.arms (clause : Clause) : List Arm :=
  clause.types.map fun caught => ⟨caught, clause.handler⟩

/-- A handler that an exception may reach, with what is then known about it. -/
structure Branch where
  handler : Offset
  matched : Constraint
  state : State
deriving DecidableEq

def Branch.successor (branch : Branch) : Successor :=
  .instruction branch.handler branch.state

def Arm.branch? (arm : Arm) (state : State) (uncaught : Constraint) : Option Branch :=
  (uncaught.meet arm.caught).bind fun matched =>
    (state.narrow? matched).map fun narrowed => ⟨arm.handler, matched, narrowed⟩

structure Sifted where
  branches : List Branch
  uncaught : Option Constraint
deriving DecidableEq

/-- Tries the arms in order.  Each sees only what those before it have not
caught, and each branch starts from the same state. -/
def sift (state : State) : Constraint → List Arm → Sifted
  | uncaught, [] => ⟨[], some uncaught⟩
  | uncaught, arm :: rest =>
      let here := (arm.branch? state uncaught).toList
      match uncaught.exclude arm.caught with
      | none => ⟨here, none⟩
      | some remaining =>
          let later := sift state remaining rest
          ⟨here ++ later.branches, later.uncaught⟩

/-! ## Steps -/

structure Transfer where
  state : State
  target : Target
  traps : TrapStack
deriving DecidableEq

inductive Step where
  | finish (successors : List Successor)
  | fail (violation : Violation)
  | pass (branches : List Successor) (rest : Transfer)
deriving DecidableEq

namespace Transfer

def throughClauses (state : State) (thrown : Constraint) (clauses : List Clause)
    (outer : TrapStack) : Step :=
  let sifted := sift state thrown (clauses.flatMap Clause.arms)
  let branches := sifted.branches.map Branch.successor
  let onward := sifted.uncaught.bind fun uncaught =>
    (state.narrow? uncaught).map fun narrowed =>
      (⟨narrowed, .exception uncaught, outer⟩ : Transfer)
  match onward with
  | none => .finish branches
  | some rest => .pass branches rest

def enterBody (state : State) (target : Target) (entry : FinallyEntry) (outer : TrapStack) : Step :=
  .finish [.instruction entry.jump (state.push (.continuation ⟨target, outer⟩))]

/-- The end of a finally body takes up what was saved at its entry, in place of
whatever was in flight. -/
def resumeSaved (state : State) (target : Target) (trap : Trap) : Step :=
  match state.popContinuation? with
  | none => .fail (.noContinuation trap target)
  | some (saved, popped) => .pass [] ⟨popped, saved.target, saved.traps⟩

/-- Leaving inlined code drops the return that its call saved. -/
def leaveInlined (state : State) (target : Target) (trap : Trap) (outer : TrapStack) : Step :=
  match state.popContinuation? with
  | none => .fail (.noContinuation trap target)
  | some (saved, popped) =>
      if saved.target = .ret then .pass [] ⟨popped, target, outer⟩
      else .fail (.notReturn trap saved.target)

/-- One trap, with the traps outside it. -/
def through (state : State) (target : Target) (trap : Trap) (outer : TrapStack) : Step :=
  match trap.rule, target with
  | .catches clauses, .exception thrown => throughClauses state thrown clauses outer
  | .catches _, _ => .pass [] ⟨state, target, outer⟩
  | .catchAll handler, .exception _ => .finish [.instruction handler state]
  | .catchAll _, _ => .pass [] ⟨state, target, outer⟩
  | .enters entry, target =>
      if entry.RunsFor target then enterBody state target entry outer
      else .pass [] ⟨state, target, outer⟩
  | .insideFinally, target => resumeSaved state target trap
  | .insideInlined, target => leaveInlined state target trap outer

/-- No trap is left. -/
def arrive (state : State) : Target → Step
  | .exception thrown => .finish [.escape thrown state]
  | .jump offset flush => .finish [.instruction offset (state.flushAll flush)]
  | .exitFinally entry => .fail (.unmatchedExit entry)
  | .ret => .finish [.ret state]

def step (transfer : Transfer) : Step :=
  match transfer.traps with
  | [] => arrive transfer.state transfer.target
  | trap :: outer => through transfer.state transfer.target trap.value outer

end Transfer

end Unwind
