import Unwind.Shared
import Unwind.Hierarchy

/-!
# Constraints on a thrown exception

What is known about an exception in flight: it is an instance of `upper` and of
none of the `excluded` classes.  `Admits` says which classes a constraint leaves
possible.  `meet` combines two constraints and `exclude` removes what a handler
has caught; both answer `none` when nothing is left.

The excluded classes are kept in one form: below `upper`, ascending, and none of
them below another.  Constraints over different hierarchies say nothing about
each other, so combining them keeps the first.
-/

set_option autoImplicit false

namespace Unwind

/-- The classes strictly below `upper`, in ascending order, without those that
lie below another one of them. -/
def Hierarchy.topmostBelow (hierarchy : Hierarchy) (upper : ClassId)
    (classes : List ClassId) : List ClassId :=
  let below := ascending (classes.filter fun excluded =>
    excluded ≠ upper ∧ hierarchy.Below excluded upper)
  below.filter fun excluded =>
    ¬ ∃ other ∈ below, other ≠ excluded ∧ hierarchy.Below excluded other

structure Constraint where
  hierarchy : Shared Hierarchy
  upper : ClassId
  excluded : List ClassId
deriving DecidableEq

namespace Constraint

def instanceOf (hierarchy : Shared Hierarchy) (upper : ClassId) : Constraint :=
  ⟨hierarchy, upper, []⟩

def named? (hierarchy : Shared Hierarchy) (name : String) : Option Constraint :=
  (hierarchy.value.lookup name).map (instanceOf hierarchy)

/-- The class may be the one of an exception that satisfies the constraint. -/
def Admits (constraint : Constraint) (identifier : ClassId) : Prop :=
  constraint.hierarchy.value.Below identifier constraint.upper ∧
    ∀ excluded ∈ constraint.excluded,
      ¬ constraint.hierarchy.value.Below identifier excluded

instance (constraint : Constraint) (identifier : ClassId) :
    Decidable (constraint.Admits identifier) :=
  inferInstanceAs (Decidable (_ ∧ _))

@[simp] theorem admits_instanceOf {hierarchy : Shared Hierarchy} {upper identifier : ClassId} :
    (instanceOf hierarchy upper).Admits identifier ↔ hierarchy.value.Below identifier upper := by
  simp [Admits, instanceOf]

/-- Replaces the upper class and the excluded classes, keeping of the latter
only what the upper class leaves open. -/
def rebound (constraint : Constraint) (upper : ClassId) (excluded : List ClassId) : Constraint where
  hierarchy := constraint.hierarchy
  upper := upper
  excluded := constraint.hierarchy.value.topmostBelow upper excluded

/-- Nothing is left once the upper class itself is excluded. -/
def rebound? (constraint : Constraint) (upper : ClassId) (excluded : List ClassId) :
    Option Constraint :=
  if ∃ other ∈ excluded, constraint.hierarchy.value.Below upper other then none
  else some (constraint.rebound upper excluded)

def meet (first second : Constraint) : Option Constraint :=
  if first.hierarchy ≠ second.hierarchy then some first
  else if first.hierarchy.value.Below first.upper second.upper then
    first.rebound? first.upper (first.excluded ++ second.excluded)
  else if first.hierarchy.value.Below second.upper first.upper then
    first.rebound? second.upper (first.excluded ++ second.excluded)
  else none

/-- Only the upper class of the caught constraint is looked at, not what it
excludes. -/
def exclude (constraint caught : Constraint) : Option Constraint :=
  if constraint.hierarchy ≠ caught.hierarchy then some constraint
  else if constraint.hierarchy.value.Below constraint.upper caught.upper then none
  else if ¬ constraint.hierarchy.value.Below caught.upper constraint.upper then some constraint
  else if ∃ other ∈ constraint.excluded, constraint.hierarchy.value.Below caught.upper other then
    some constraint
  else some (constraint.rebound constraint.upper (constraint.excluded ++ [caught.upper]))

def className (constraint : Constraint) (identifier : ClassId) : String :=
  (constraint.hierarchy.value.name? identifier).getD "?"

def text (constraint : Constraint) : String :=
  let upper := constraint.className constraint.upper
  if constraint.excluded.isEmpty then upper
  else
    upper ++ " \\ \x7b" ++
      ", ".intercalate (constraint.excluded.map constraint.className) ++ "\x7d"

end Constraint

end Unwind
