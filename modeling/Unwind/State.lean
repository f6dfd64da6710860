import Unwind.Target

/-!
# Tracked states

What is known at one point of the analysed code: the values of some variables,
an operand stack of constants and saved continuations, and a constraint on the
exception that has been caught or is in flight.
-/

set_option autoImplicit false

namespace Unwind

/-- Known variables with their values, in the order of their names. -/
structure Bindings where
  entries : List (String × Int)
deriving DecidableEq

namespace Bindings

def empty : Bindings := ⟨[]⟩

def get? (bindings : Bindings) (name : String) : Option Int :=
  (bindings.entries.find? (·.1 = name)).map Prod.snd

def insertEntry (name : String) (value : Int) : List (String × Int) → List (String × Int)
  | [] => [(name, value)]
  | (other, known) :: rest =>
      if name < other then (name, value) :: (other, known) :: rest
      else if name = other then (name, value) :: rest
      else (other, known) :: insertEntry name value rest

def set (bindings : Bindings) (name : String) (value : Int) : Bindings :=
  ⟨insertEntry name value bindings.entries⟩

def erase (bindings : Bindings) (name : String) : Bindings :=
  ⟨bindings.entries.filter (·.1 ≠ name)⟩

end Bindings

inductive Operand where
  | continuation (saved : Continuation)
  | constant (value : Int)
deriving DecidableEq

def Operand.Agrees : Operand → Operand → Prop
  | .continuation first, .continuation second => first.Agrees second
  | .constant first, .constant second => first = second
  | _, _ => False

instance : (first second : Operand) → Decidable (first.Agrees second)
  | .continuation first, .continuation second =>
      inferInstanceAs (Decidable (first.Agrees second))
  | .constant first, .constant second => inferInstanceAs (Decidable (first = second))
  | .continuation _, .constant _ | .constant _, .continuation _ =>
      inferInstanceAs (Decidable False)

/-- The operand stack lists its top first. -/
structure State where
  bindings : Bindings
  operands : List Operand
  exception : Option Constraint
deriving DecidableEq

namespace State

def initial : State := ⟨.empty, [], none⟩

def setVariable (state : State) (name : String) (value : Int) : State :=
  { state with bindings := state.bindings.set name value }

def flush (state : State) (name : String) : State :=
  { state with bindings := state.bindings.erase name }

def flushAll (state : State) (names : List String) : State :=
  names.foldl flush state

def push (state : State) (operand : Operand) : State :=
  { state with operands := operand :: state.operands }

/-- Takes a continuation off the top.  A constant in its place stays there. -/
def popContinuation? (state : State) : Option (Continuation × State) :=
  match state.operands with
  | .continuation saved :: rest => some (saved, { state with operands := rest })
  | _ => none

/-- Adds what is learnt about the exception, unless it contradicts what is known. -/
def narrow? (state : State) (learnt : Constraint) : Option State :=
  match state.exception with
  | none => some { state with exception := some learnt }
  | some known => (known.meet learnt).map fun both => { state with exception := some both }

end State

end Unwind
