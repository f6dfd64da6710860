import Unwind.IndexSet

/-!
# Places in the analysed code

Offsets of instructions, the regions that traps belong to, and finally bodies.
A finally body is entered through an entry, which names the body, says on which
ways out it runs and where its first instruction is.
-/

set_option autoImplicit false

namespace Unwind

structure Offset where
  index : Nat
deriving DecidableEq

instance : Indexed Offset where
  indexOf := Offset.index
  eq_of_indexOf_eq same := congrArg Offset.mk same

def Offset.text (offset : Offset) : String := toString offset.index

structure Region where
  index : Nat
deriving DecidableEq

def Region.text (region : Region) : String := "region#" ++ toString region.index

structure FinallyBody where
  index : Nat
deriving DecidableEq

def FinallyBody.text (body : FinallyBody) : String := "finally#" ++ toString body.index

/-- A `resource` body closes what a block has opened, on every way out but an
exception; an `always` body runs on every way out. -/
inductive BodyKind where
  | always
  | resource
deriving DecidableEq

def BodyKind.name : BodyKind → String
  | .always => "TryFinally"
  | .resource => "TwrFinally"

structure FinallyEntry where
  body : FinallyBody
  kind : BodyKind
  jump : Offset
deriving DecidableEq

end Unwind
