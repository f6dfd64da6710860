import Unwind.BackLink

/-!
# Full text of values

Where the short texts of traps, targets and states are meant for reading, these
show every field, in one line and in a record notation: `Name { field: value }`
for records, `Name(value)` for wrapped values and `[first, second]` for lists.
Names of variables are shown between quotes as they are.
-/

set_option autoImplicit false

namespace Unwind.Inspect

def wrapped (name value : String) : String := name ++ "(" ++ value ++ ")"

def record (name : String) (fields : List (String × String)) : String :=
  name ++ " \x7b " ++
    ", ".intercalate (fields.map fun (field, value) => field ++ ": " ++ value) ++ " \x7d"

def list (values : List String) : String := "[" ++ ", ".intercalate values ++ "]"

def quoted (name : String) : String := "\"" ++ name ++ "\""

def offset (offset : Offset) : String := wrapped "InstructionOffset" (toString offset.index)

def region (region : Region) : String := wrapped "RegionId" (toString region.index)

def body (body : FinallyBody) : String := wrapped "FinallyId" (toString body.index)

def constraint (constraint : Constraint) : String := wrapped "TypeConstraint" constraint.text

def entry (entry : FinallyEntry) : String :=
  record "EnterFinally"
    [("id", body entry.body), ("kind", entry.kind.name), ("jump_offset", offset entry.jump)]

def clause (clause : Clause) : String :=
  record "CatchClause"
    [("types", list (clause.types.map constraint)), ("handler", offset clause.handler)]

def trapRule : TrapRule → String
  | .catches clauses => wrapped "TryCatch" (list (clauses.map clause))
  | .catchAll handler => wrapped "TryCatchAll" (offset handler)
  | .enters entered => wrapped "EnterFinally" (entry entered)
  | .insideFinally => "InsideFinally"
  | .insideInlined => "InsideInlinedBlock"

def trap (trap : Trap) : String :=
  record "Trap" [("anchor", region trap.region), ("kind", trapRule trap.rule)]

def traps (traps : TrapStack) : String := list (traps.contents.map trap)

def target : Target → String
  | .exception thrown => wrapped "Exception" (constraint thrown)
  | .jump destination flush =>
      record "Jump" [("offset", offset destination), ("flush", list (flush.map quoted))]
  | .exitFinally left => wrapped "ExitFinally" (entry left)
  | .ret => "Return"

def continuation (continuation : Continuation) : String :=
  record "ControlTransferValue"
    [("target", target continuation.target), ("traps", traps continuation.traps)]

def instruction (instruction : Instruction) : String :=
  record "ControlTransferInstruction"
    [("index", offset instruction.index), ("transfer", continuation instruction.transfer)]

def operand : Operand → String
  | .continuation saved => wrapped "Transfer" (continuation saved)
  | .constant value => wrapped "Constant" (toString value)

def bindings (bindings : Bindings) : String :=
  "\x7b" ++
    ", ".intercalate
      (bindings.entries.map fun (name, value) => quoted name ++ ": " ++ toString value) ++
    "\x7d"

def optional : Option String → String
  | none => "None"
  | some value => wrapped "Some" value

/-- Operands are shown from the bottom of the stack to its top. -/
def state (state : State) : String :=
  record "TrackingState"
    [("variables", bindings state.bindings),
      ("stack", list (state.operands.reverse.map operand)),
      ("exception", optional (state.exception.map constraint))]

def registry (registry : Registry) : String :=
  record "BackLinkRegistry"
    [("finally_entries", toString registry.allocated),
      ("back_links", toString registry.seen.length)]

def table (table : LinkTable) : String :=
  record "BackLinkTable" [("finally_entries", toString table.size)]

end Unwind.Inspect
