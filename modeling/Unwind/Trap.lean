import Unwind.Constraint
import Unwind.Place

/-!
# Traps and trap stacks

A trap is what a transfer of control meets on its way out of a region: catch
clauses, a handler for every exception, the entry of a finally body, or the mark
that the transfer starts inside a finally body or inside inlined code.

A trap stack lists the traps around an instruction, innermost first.  Its traps
are shared, and the suffix order of stacks is about the traps themselves.  Two
stacks agree, on the other hand, when their traps say the same position by
position.  `isSuffixOf` and `agreesWith` test this from the identities of the
traps, as far as these decide it.
-/

set_option autoImplicit false

namespace Unwind

structure Clause where
  types : List Constraint
  handler : Offset
deriving DecidableEq

inductive TrapRule where
  | catches (clauses : List Clause)
  | catchAll (handler : Offset)
  | enters (entry : FinallyEntry)
  | insideFinally
  | insideInlined
deriving DecidableEq

structure Trap where
  region : Region
  rule : TrapRule
deriving DecidableEq

/-- What is wrong with the catch clauses of a region. -/
inductive ClauseDefect where
  | noClauses (region : Region)
  | noTypes (region : Region) (handler : Offset)
  | repeatedHandler (region : Region) (handler : Offset)
deriving DecidableEq

def ClauseDefect.message : ClauseDefect → String
  | .noClauses region => "TryCatch at " ++ region.text ++ " has no catch clauses"
  | .noTypes region handler =>
      "TryCatch at " ++ region.text ++ " has a clause without caught types (handler " ++
        handler.text ++ ")"
  | .repeatedHandler region handler =>
      "TryCatch at " ++ region.text ++ " uses handler offset " ++ handler.text ++ " twice"

namespace Trap

/-- The first defect of the clauses, given the handlers of those before them. -/
def clauseDefect? (region : Region) (used : List Offset) :
    List Clause → Option ClauseDefect
  | [] => none
  | clause :: rest =>
      if clause.types = [] then some (.noTypes region clause.handler)
      else if clause.handler ∈ used then some (.repeatedHandler region clause.handler)
      else clauseDefect? region (clause.handler :: used) rest

def ofClauses (region : Region) (clauses : List Clause) : Except ClauseDefect Trap :=
  if clauses = [] then .error (.noClauses region)
  else
    match clauseDefect? region [] clauses with
    | some defect => .error defect
    | none => .ok ⟨region, .catches clauses⟩

def entry? (trap : Trap) : Option FinallyEntry :=
  match trap.rule with
  | .enters entry => some entry
  | _ => none

/-- Where the trap itself can send a transfer, in the order of its clauses. -/
def offsets (trap : Trap) : List Offset :=
  match trap.rule with
  | .catches clauses => clauses.map Clause.handler
  | .catchAll handler => [handler]
  | .enters entry => [entry.jump]
  | .insideFinally | .insideInlined => []

def name (trap : Trap) : String :=
  match trap.rule with
  | .catches _ => "TryCatch"
  | .catchAll _ => "TryCatchAll"
  | .enters entry => entry.kind.name
  | .insideFinally => "InsideFinally"
  | .insideInlined => "InsideInlinedBlock"

def text (trap : Trap) : String :=
  match trap.rule with
  | .catches clauses =>
      trap.name ++ " -> [" ++ ", ".intercalate (clauses.map (·.handler.text)) ++ "]"
  | .catchAll handler => trap.name ++ " -> " ++ handler.text
  | .enters entry => trap.name ++ " -> " ++ entry.jump.text
  | .insideFinally | .insideInlined => trap.name

end Trap

abbrev TrapStack := List (Shared Trap)

namespace TrapStack

def contents (traps : TrapStack) : List Trap := traps.map Shared.value

def fromInnermost (traps : List (Shared Trap)) : TrapStack := traps

def pushInner (traps : TrapStack) (trap : Shared Trap) : TrapStack := trap :: traps

def innermost? (traps : TrapStack) : Option (Shared Trap) := traps.head?

/-- The innermost trap and the stack without it.  An empty stack stays as it is. -/
def popInnermost : TrapStack → Option (Shared Trap) × TrapStack
  | [] => (none, [])
  | trap :: rest => (some trap, rest)

def SuffixOf (inner outer : TrapStack) : Prop := inner <:+ outer

instance (inner outer : TrapStack) : Decidable (inner.SuffixOf outer) :=
  inferInstanceAs (Decidable (inner <:+ outer))

def Agrees (first second : TrapStack) : Prop := first.contents = second.contents

instance (first second : TrapStack) : Decidable (first.Agrees second) :=
  inferInstanceAs (Decidable (first.contents = second.contents))

/-- Leaves out the inner traps that the second stack has in excess, and compares
the others by identity. -/
def isSuffixOf (traps whole : TrapStack) : Bool :=
  if whole.length < traps.length then false
  else
    ((whole.drop (whole.length - traps.length)).zip traps).all fun pair =>
      pair.1.identity = pair.2.identity

/-- Traps of one identity are not looked into. -/
def agreesWith (first second : TrapStack) : Bool :=
  first.length = second.length &&
    (first.zip second).all fun pair =>
      pair.1.identity = pair.2.identity || pair.1.value = pair.2.value

def text (traps : TrapStack) : String :=
  "[" ++ ", ".intercalate (traps.contents.map Trap.text) ++ "]"

end TrapStack

end Unwind
