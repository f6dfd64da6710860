import Unwind.BackLink

/-!
# Traces

What dispatch and linking report while they work, as events in the order in
which they happen.  The events of a dispatch follow its steps: each step reports
the trap it meets and what that trap does, and a dispatch that runs out of steps
reports it at the end.
-/

set_option autoImplicit false

namespace Unwind

inductive Level where
  | trace
  | debug
deriving DecidableEq

def Level.text : Level → String
  | .trace => "TRACE"
  | .debug => "DEBUG"

inductive Event where
  | executed (target : Target) (index : Offset)
  | met (target : Target) (trap : Trap)
  | redirected (target : Target) (offset : Offset)
  | caught (thrown : Constraint) (branch : Branch)
  | resumed (trap : Trap) (saved : Continuation)
  | dropped (trap : Trap) (saved : Continuation) (target : Target)
  | rejected (trap : Trap) (saved : Continuation)
  | noContinuation (trap : Trap) (target : Target)
  | leftStack (target : Target)
  | unmatchedExit (entry : FinallyEntry)
  | exhausted (target : Target) (limit : Nat)
  | linked (index : Offset) (body : FinallyBody)
deriving DecidableEq

namespace Event

def level : Event → Level
  | .rejected _ _ | .noContinuation _ _ | .unmatchedExit _ | .exhausted _ _ => .debug
  | _ => .trace

def text : Event → String
  | .executed target index => "execute " ++ target.kindName ++ " at " ++ index.text
  | .met target trap => "dispatch " ++ target.text ++ " through " ++ trap.text
  | .redirected target offset => target.text ++ " redirected to " ++ offset.text
  | .caught thrown branch =>
      thrown.text ++ " caught as " ++ branch.matched.text ++ " at " ++ branch.handler.text
  | .resumed trap saved => trap.name ++ " resumes " ++ saved.text
  | .dropped trap saved target =>
      trap.name ++ " drops " ++ saved.text ++ ", " ++ target.text ++ " continues"
  | .rejected trap saved => trap.name ++ " rejected continuation " ++ saved.text
  | .noContinuation trap target =>
      trap.name ++ " found no continuation while dispatching " ++ target.text
  | .leftStack target => target.text ++ " reached the end of the trap stack"
  | .unmatchedExit entry => "ExitFinally of " ++ entry.body.text ++ " reached an empty trap stack"
  | .exhausted target limit =>
      "dispatch of " ++ target.text ++ " exceeded " ++ toString limit ++ " steps"
  | .linked index body => "back-link " ++ index.text ++ " -> " ++ body.text

def line (event : Event) : String := event.level.text ++ " " ++ event.text

end Event

namespace Transfer

def trapEvents (state : State) (target : Target) (trap : Trap) : List Event :=
  match trap.rule, target with
  | .catches clauses, .exception thrown =>
      (sift state thrown (clauses.flatMap Clause.arms)).branches.map (.caught thrown)
  | .catches _, _ => []
  | .catchAll handler, .exception _ => [.redirected target handler]
  | .catchAll _, _ => []
  | .enters entry, target =>
      if entry.RunsFor target then [.redirected target entry.jump] else []
  | .insideFinally, target =>
      match state.popContinuation? with
      | none => [.noContinuation trap target]
      | some (saved, _) => [.resumed trap saved]
  | .insideInlined, target =>
      match state.popContinuation? with
      | none => [.noContinuation trap target]
      | some (saved, _) =>
          if saved.target = .ret then [.dropped trap saved target]
          else [.rejected trap saved]

def arrivalEvents (target : Target) : List Event :=
  match target with
  | .exitFinally entry => [.leftStack target, .unmatchedExit entry]
  | _ => [.leftStack target]

def stepEvents (transfer : Transfer) : List Event :=
  match transfer.traps with
  | [] => arrivalEvents transfer.target
  | trap :: _ =>
      .met transfer.target trap.value :: trapEvents transfer.state transfer.target trap.value

def events (limits : Limits) : Nat → Transfer → List Event
  | 0, transfer => [.exhausted transfer.target limits.maxDepth]
  | steps + 1, transfer =>
      transfer.stepEvents ++
        match transfer.step with
        | .finish _ | .fail _ => []
        | .pass _ rest => rest.events limits steps

def trace (limits : Limits) (transfer : Transfer) : List Event :=
  transfer.events limits limits.maxDepth

end Transfer

def Instruction.trace (limits : Limits) (state : State) (instruction : Instruction) :
    List Event :=
  .executed instruction.transfer.target instruction.index ::
    (instruction.transfer.transfer state).trace limits

namespace Registry

/-- One event for every link that registering the transfer adds. -/
def linkTrace (registry : Registry) (index : Offset) (transfer : Continuation) : List Event :=
  ((registry.linkTransfer index transfer).links.drop registry.links.length).map fun link =>
    .linked link.instruction link.body

end Registry

end Unwind
