import Unwind.Dispatch

/-!
# Back-links

The end of a finally body can go wherever one of the instructions that lead into
the body was going.  While code is built, a registry numbers the finally bodies
and records these instructions as back-links, each instruction once for each
body.  A finished registry is frozen into a table that answers queries.
-/

set_option autoImplicit false

namespace Unwind

structure BackLink where
  body : FinallyBody
  instruction : Offset
  transfer : Continuation
deriving DecidableEq

/-- What tells apart the links of a registry. -/
def BackLink.key (link : BackLink) : FinallyBody × Offset := (link.body, link.instruction)

/-- Back-links of all bodies, in the order of registration. -/
abbrev BackLinks := List BackLink

def BackLinks.ofBody (links : BackLinks) (body : FinallyBody) : List BackLink :=
  links.filter (·.body = body)

/-- The finally bodies that a stack enters, innermost first. -/
def TrapStack.entered (traps : TrapStack) : List FinallyBody :=
  traps.contents.filterMap fun trap => trap.entry?.map FinallyEntry.body

/-- `seen` holds the keys of the links and decides whether a link is new. -/
structure Registry where
  allocated : Nat
  links : BackLinks
  seen : List (FinallyBody × Offset)
deriving DecidableEq

namespace Registry

def empty : Registry := ⟨0, [], []⟩

def allocate (registry : Registry) (kind : BodyKind) (jump : Offset) :
    FinallyEntry × Registry :=
  (⟨⟨registry.allocated⟩, kind, jump⟩, { registry with allocated := registry.allocated + 1 })

/-- The first transfer registered for an instruction stays. -/
def register (registry : Registry) (link : BackLink) : Registry :=
  if link.key ∈ registry.seen then registry
  else { registry with links := registry.links ++ [link], seen := link.key :: registry.seen }

/-- Registers an instruction with every finally body its transfer enters. -/
def linkTransfer (registry : Registry) (index : Offset) (transfer : Continuation) : Registry :=
  transfer.traps.entered.foldl
    (fun registry body => registry.register ⟨body, index, transfer⟩) registry

def link (registry : Registry) (instruction : Instruction) : Registry :=
  registry.linkTransfer instruction.index instruction.transfer

def backLinks (registry : Registry) (body : FinallyBody) : List BackLink :=
  registry.links.ofBody body

end Registry

structure LinkTable where
  allocated : Nat
  links : BackLinks
deriving DecidableEq

def Registry.freeze (registry : Registry) : LinkTable := ⟨registry.allocated, registry.links⟩

namespace LinkTable

def backLinks (table : LinkTable) (body : FinallyBody) : List BackLink :=
  table.links.ofBody body

/-- The allocated bodies, and those that links mention without an allocation. -/
def bodies (table : LinkTable) : List FinallyBody :=
  ((List.range table.allocated).map FinallyBody.mk ++ table.links.map BackLink.body).eraseDups

def size (table : LinkTable) : Nat := table.bodies.length

end LinkTable

end Unwind
