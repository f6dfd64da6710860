/-!
# Values with an identity

Two traps may say the same thing and still be two traps, and the same holds of
two class hierarchies.  A `Shared` value carries the identity it was issued when
it was made.  Equality of shared values is therefore sameness of the object,
while values that merely agree are compared through `value`.
-/

set_option autoImplicit false

universe u

namespace Unwind

structure Shared (α : Type u) where
  identity : Nat
  value : α
deriving DecidableEq

end Unwind
