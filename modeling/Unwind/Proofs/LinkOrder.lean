import Unwind.Proofs.Construction
import Unwind.Proofs.Reachability

/-!
# Static offsets and the set of links

The traversal of a table meets the links of a body in their order and cuts off
what it has met on its path.  What it finds depends on neither: every way through
the links of one table is a way through those of another that has the same
transfers and perhaps more.  A registry to which the same instructions are linked,
in whatever order and however often, therefore gives the same offsets, and one to
which more are linked gives no fewer.
-/

set_option autoImplicit false

namespace Unwind

theorem TrapStack.Agrees.offsets_eq {first second : TrapStack} (agrees : first.Agrees second) :
    first.offsets = second.offsets :=
  congrArg (List.flatMap Trap.offsets) agrees

theorem Continuation.Agrees.refl (continuation : Continuation) :
    continuation.Agrees continuation :=
  ⟨rfl, rfl⟩

namespace LinkTable

variable {table wider : LinkTable} {path : List FinallyBody} {target : Target} {offset : Offset}

/-- Every transfer linked to a body is linked to it in the wider table, where it may
have another place and stand for another instruction. -/
def LinksWithin (table wider : LinkTable) : Prop :=
  ∀ body, ∀ link ∈ table.backLinks body, ∃ other ∈ wider.backLinks body,
    link.transfer.Agrees other.transfer

/-- The wider table leads wherever the table does. -/
structure LeadsWithin (table wider : LinkTable) : Prop where
  target : ∀ target offset,
    offset ∈ table.targetOffsets target → offset ∈ wider.targetOffsets target
  transfer : ∀ transfer offset,
    offset ∈ table.transferOffsets transfer → offset ∈ wider.transferOffsets transfer

theorem leads_of_linksWithin (within : table.LinksWithin wider)
    (leads : table.Leads path target offset) : wider.Leads path target offset := by
  induction leads with
  | jump => exact .jump
  | trap fresh linked atTrap other =>
      obtain ⟨link, inWider, _, sameTraps⟩ := within _ _ linked
      exact .trap fresh inWider (sameTraps.offsets_eq ▸ atTrap) other
  | target fresh linked _ other induction =>
      obtain ⟨link, inWider, sameTarget, _⟩ := within _ _ linked
      exact .target fresh inWider (sameTarget ▸ induction) other

theorem LinksWithin.leadsWithin (within : table.LinksWithin wider) : table.LeadsWithin wider := by
  have ofTarget : ∀ target offset,
      offset ∈ table.targetOffsets target → offset ∈ wider.targetOffsets target := by
    intro target offset found
    rw [mem_targetOffsets_iff] at found ⊢
    exact leads_of_linksWithin within found
  refine ⟨ofTarget, ?_⟩
  intro transfer offset found
  rw [transferOffsets, IndexSet.mem_union] at found ⊢
  exact found.imp_right (ofTarget transfer.target offset)

end LinkTable

namespace Registry

open LinkTable

variable {calls more : List Call} {body : FinallyBody} {instruction : Instruction} {link : BackLink}

/-- The instructions that the calls register, in their order. -/
def requests (calls : List Call) : List Instruction := calls.filterMap Call.linked?

/-- No index is registered for two different transfers. -/
def Consistent (calls : List Call) : Prop :=
  ∀ first ∈ requests calls, ∀ second ∈ requests calls,
    first.index = second.index → first.transfer.Agrees second.transfer

instance (calls : List Call) : Decidable (Consistent calls) :=
  inferInstanceAs (Decidable (∀ first ∈ requests calls, ∀ second ∈ requests calls,
    first.index = second.index → first.transfer.Agrees second.transfer))

/-- Every link comes from a call. -/
theorem request_of_mem_backLinks (linked : link ∈ (empty.after calls).backLinks body) :
    ⟨link.instruction, link.transfer⟩ ∈ requests calls ∧ link.transfer.traps.Enters body := by
  have recounts := (records_after calls).recounts body
  obtain ⟨call, found, isLinked⟩ := Option.bind_eq_some_iff.mp (recounts.first link linked)
  have links : call.Links body link.instruction := by simpa using List.find?_some found
  obtain ⟨instruction, isInstruction, _, enters⟩ := links
  cases Option.some.inj (isLinked.symm.trans isInstruction)
  exact ⟨List.mem_filterMap.mpr ⟨call, List.mem_of_find?_eq_some found, isLinked⟩, enters⟩

theorem exists_link_of_request (requested : instruction ∈ requests calls)
    (enters : instruction.transfer.traps.Enters body) :
    ∃ link ∈ (empty.after calls).backLinks body, link.instruction = instruction.index := by
  have recounts := (records_after calls).recounts body
  obtain ⟨call, inCalls, isLinked⟩ := List.mem_filterMap.mp requested
  have member := (recounts.mem_iff instruction.index).mpr
    ⟨call, inCalls, instruction, isLinked, rfl, enters⟩
  exact List.mem_map.mp member

theorem linksWithin_of_requests (consistent : Consistent more)
    (subset : requests calls ⊆ requests more) :
    (empty.after calls).freeze.LinksWithin (empty.after more).freeze := by
  intro body link linked
  obtain ⟨requested, enters⟩ := request_of_mem_backLinks linked
  -- the index may have been linked for another call, which then has the same transfer
  obtain ⟨other, otherLinked, sameIndex⟩ := exists_link_of_request (subset requested) enters
  obtain ⟨otherRequested, _⟩ := request_of_mem_backLinks otherLinked
  exact ⟨other, otherLinked, consistent _ (subset requested) _ otherRequested sameIndex.symm⟩

theorem linksWithin_append (calls later : List Call) :
    (empty.after calls).freeze.LinksWithin (empty.after (calls ++ later)).freeze := by
  intro body link linked
  have grown : (empty.after calls).backLinks body <+: (empty.after (calls ++ later)).backLinks body := by
    rw [after, after, List.foldl_append]
    exact prefix_backLinks_after body
  exact ⟨link, grown.subset linked, .refl link.transfer⟩

/-- What is found from any target or transfer grows with the transfers linked to
each body.  For calls that register no index with two transfers it depends on the
instructions alone, not on the order of the calls or on repetitions, and it grows
with the instructions.  Further calls of any kind take no offset away. -/
theorem offsets_grow_with_links :
    (∀ table wider : LinkTable, table.LinksWithin wider → table.LeadsWithin wider) ∧
      (∀ calls again : List Call, Consistent calls →
        requests calls ⊆ requests again → requests again ⊆ requests calls →
          (∀ target, (empty.after calls).freeze.targetOffsets target =
            (empty.after again).freeze.targetOffsets target) ∧
          ∀ transfer, (empty.after calls).freeze.transferOffsets transfer =
            (empty.after again).freeze.transferOffsets transfer) ∧
      (∀ calls more : List Call, Consistent more → requests calls ⊆ requests more →
        (empty.after calls).freeze.LeadsWithin (empty.after more).freeze) ∧
      ∀ calls later : List Call,
        (empty.after calls).freeze.LeadsWithin (empty.after (calls ++ later)).freeze := by
  refine ⟨fun _ _ within => within.leadsWithin, ?_, ?_, ?_⟩
  · intro calls again consistent subset superset
    have consistentAgain : Consistent again := fun first inFirst second inSecond =>
      consistent first (superset inFirst) second (superset inSecond)
    have forth := (linksWithin_of_requests consistentAgain subset).leadsWithin
    have back := (linksWithin_of_requests consistent superset).leadsWithin
    refine ⟨fun target => ?_, fun transfer => ?_⟩
    · exact IndexSet.eq_of_mem_iff fun offset => ⟨forth.target _ _, back.target _ _⟩
    · exact IndexSet.eq_of_mem_iff fun offset => ⟨forth.transfer _ _, back.transfer _ _⟩
  · intro calls more consistent subset
    exact (linksWithin_of_requests consistent subset).leadsWithin
  · intro calls later
    exact (linksWithin_append calls later).leadsWithin

/-- Two bodies that end in each other, linked in two orders, and a table with one of
the links alone. -/
theorem offsets_grow_with_cyclic_links :
    let first : FinallyEntry := ⟨⟨0⟩, .always, ⟨50⟩⟩
    let second : FinallyEntry := ⟨⟨1⟩, .always, ⟨60⟩⟩
    let jumping : Instruction := ⟨⟨5⟩, .jump ⟨90⟩ [], [⟨0, ⟨0⟩, .enters first⟩]⟩
    let leaving : Instruction := ⟨⟨6⟩, .exitFinally second, [⟨0, ⟨0⟩, .enters first⟩]⟩
    let returning : Instruction := ⟨⟨7⟩, .exitFinally first, [⟨1, ⟨1⟩, .enters second⟩]⟩
    let calls : List Call := [.link jumping, .link leaving, .link returning]
    let again : List Call :=
      [.link returning, .allocate .always ⟨50⟩, .link leaving, .link returning,
        .linkTransfer ⟨5⟩ jumping.transfer]
    let single : LinkTable := ⟨0, [⟨⟨0⟩, ⟨8⟩, jumping.transfer⟩]⟩
    Consistent calls ∧ (empty.after calls).freeze ≠ (empty.after again).freeze ∧
      (empty.after calls).freeze.targetOffsets (.exitFinally second) =
        (empty.after again).freeze.targetOffsets (.exitFinally second) ∧
      single.LinksWithin (empty.after again).freeze ∧
      ⟨90⟩ ∈ (empty.after again).freeze.targetOffsets (.exitFinally first) := by
  intro first second jumping leaving returning calls again single
  obtain ⟨grows, reorders, _, _⟩ := offsets_grow_with_links
  have consistent : Consistent calls := by decide
  have subset : ∀ instruction ∈ requests calls, instruction ∈ requests again := by decide
  have superset : ∀ instruction ∈ requests again, instruction ∈ requests calls := by decide
  have within : single.LinksWithin (empty.after again).freeze := by
    intro body link linked
    obtain ⟨inSingle, isBody⟩ := List.mem_filter.mp linked
    cases List.mem_singleton.mp inSingle
    cases of_decide_eq_true isBody
    exact ⟨⟨⟨0⟩, ⟨5⟩, jumping.transfer⟩, by decide, by decide⟩
  have found : single.targetOffsets (.exitFinally first) = .ofList [⟨90⟩] := by decide
  have member : ⟨90⟩ ∈ single.targetOffsets (.exitFinally first) :=
    found ▸ IndexSet.mem_ofList.mpr (List.mem_singleton_self _)
  exact ⟨consistent, by decide, (reorders calls again consistent subset superset).1 _, within,
    (grows single _ within).target _ _ member⟩

end Registry

end Unwind
