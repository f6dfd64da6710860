import Unwind.Trap

/-!
# Targets and continuations

A target says what a transfer of control is about: an exception on its way to a
handler, a jump, the end of a finally body, or the return from the analysed
code.  A continuation is a target together with the traps that still lie before
it; entering a finally body saves one for later.
-/

set_option autoImplicit false

namespace Unwind

inductive Target where
  | exception (thrown : Constraint)
  | jump (offset : Offset) (flush : List String)
  | exitFinally (entry : FinallyEntry)
  | ret
deriving DecidableEq

namespace Target

/-- A jump that forgets variables on arrival, each listed once. -/
def jumpFlushing (offset : Offset) (names : List String) : Target :=
  .jump offset names.eraseDups

def flushed : Target → List String
  | .jump _ flush => flush
  | _ => []

def isException : Target → Bool
  | .exception _ => true
  | _ => false

def isReturn : Target → Bool
  | .ret => true
  | _ => false

def kindName : Target → String
  | .exception _ => "Exception"
  | .jump _ _ => "Jump"
  | .exitFinally _ => "ExitFinally"
  | .ret => "Return"

def text (target : Target) : String :=
  match target with
  | .exception thrown => target.kindName ++ "(" ++ thrown.text ++ ")"
  | .jump offset _ => "-> " ++ offset.text
  | .exitFinally _ | .ret => target.kindName

end Target

/-- The body of the entry runs before the target is pursued further. -/
def FinallyEntry.RunsFor (entry : FinallyEntry) (target : Target) : Prop :=
  entry.kind = .always ∨ target.isException = false

instance (entry : FinallyEntry) (target : Target) : Decidable (entry.RunsFor target) :=
  inferInstanceAs (Decidable (_ ∨ _))

structure Continuation where
  target : Target
  traps : TrapStack
deriving DecidableEq

namespace Continuation

def Agrees (first second : Continuation) : Prop :=
  first.target = second.target ∧ first.traps.Agrees second.traps

instance (first second : Continuation) : Decidable (first.Agrees second) :=
  inferInstanceAs (Decidable (_ ∧ _))

def text (continuation : Continuation) : String :=
  if continuation.traps.isEmpty then continuation.target.text
  else continuation.target.text ++ " " ++ continuation.traps.text

end Continuation

end Unwind
