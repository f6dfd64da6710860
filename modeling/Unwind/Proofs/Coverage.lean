import Unwind.Proofs.Narrowing
import Unwind.Proofs.Reachability
import Unwind.Proofs.Resume

/-!
# Static offsets cover dispatch

Dispatch knows the state and follows one transfer; the static offsets are read
off the traps, the target and the back-links alone.  From outside all finally
bodies a transfer keeps its destination and only drops traps on its way, whatever
the state narrows or pops.  Every instruction it reaches is therefore one that
its traps or its destination name, and so is every instruction that is reached
later from what it saves at the entry of a body.
-/

set_option autoImplicit false

namespace Unwind

/-- A dispatch that ends well has instructions only at the allowed offsets among
its successors. -/
def LandsOn (allowed : Offset → Prop) (outcome : Except Error (List Successor)) : Prop :=
  ∀ successors, outcome = .ok successors →
    ∀ successor ∈ successors, ∀ offset, successor.offset? = some offset → allowed offset

def Target.destination? : Target → Option Offset
  | .jump offset _ => some offset
  | _ => none

/-! ## What is left of a transfer -/

namespace Continuation

variable {whole part first second : Continuation} {offset : Offset}

/-- The offset is one of those that the traps send to, or the destination. -/
def Names (continuation : Continuation) (offset : Offset) : Prop :=
  offset ∈ continuation.traps.offsets ∨ continuation.target.destination? = some offset

/-- What is left of a transfer that has met some of its traps.  An exception may
have been narrowed. -/
structure PartOf (part whole : Continuation) : Prop where
  traps : part.traps <:+ whole.traps
  destination : part.target.destination? = whole.target.destination?

theorem PartOf.trans {rest : Continuation} (later : rest.PartOf part) (former : part.PartOf whole) :
    rest.PartOf whole :=
  ⟨later.traps.trans former.traps, later.destination.trans former.destination⟩

theorem PartOf.names (left : part.PartOf whole) (named : part.Names offset) :
    whole.Names offset := by
  rcases named with atTrap | atDestination
  · obtain ⟨trap, member, possible⟩ := TrapStack.mem_offsets_iff.mp atTrap
    exact .inl (TrapStack.mem_offsets_iff.mpr ⟨trap, left.traps.subset member, possible⟩)
  · exact .inr (left.destination.symm.trans atDestination)

theorem Agrees.names (agrees : first.Agrees second) (named : second.Names offset) :
    first.Names offset := by
  obtain ⟨sameTarget, sameTraps⟩ := agrees
  rw [Names, TrapStack.offsets] at named ⊢
  rw [sameTarget, sameTraps]
  exact named

theorem Names.mem_offsets_or_targetOffsets (table : LinkTable)
    (named : whole.Names offset) :
    offset ∈ whole.traps.offsets ∨ offset ∈ table.targetOffsets whole.target := by
  refine named.imp_right fun atDestination => ?_
  cases isTarget : whole.target with
  | jump destination flush =>
      rw [isTarget] at atDestination
      cases Option.some.inj atDestination
      exact LinkTable.mem_targetOffsets_iff.mpr .jump
  | _ => simp [isTarget, Target.destination?] at atDestination

end Continuation

/-- The arrival is at an offset that the transfer names, and at the entry of a
body it has saved what is left of the transfer. -/
structure Arrival.From (whole : Continuation) (arrival : Arrival) : Prop where
  named : ∀ offset, arrival.successor.offset? = some offset → whole.Names offset
  saved : ∀ entry, arrival.entered? = some entry → ∃ saved below,
    arrival.successor.state.operands = .continuation saved :: below ∧ saved.PartOf whole

theorem Arrival.From.of_part {part whole : Continuation} {arrival : Arrival}
    (comes : arrival.From part) (left : part.PartOf whole) : arrival.From whole := by
  refine ⟨fun offset lands => left.names (comes.named offset lands), ?_⟩
  intro entry entered
  obtain ⟨saved, below, top, isPart⟩ := comes.saved entry entered
  exact ⟨saved, below, top, isPart.trans left⟩

/-! ## Single steps -/

namespace Transfer

variable {state : State} {target : Target} {trap : Shared Trap} {outer : TrapStack}

def continuation (transfer : Transfer) : Continuation := ⟨transfer.target, transfer.traps⟩

/-- What a step sends on comes from the transfer, and what it passes on is left of
it. -/
def KeepsTo (transfer : Transfer) : Step → Prop
  | .finish successors => ∀ arrival ∈ transfer.sends successors, arrival.From transfer.continuation
  | .fail _ => True
  | .pass branches rest =>
      (∀ arrival ∈ transfer.sends branches, arrival.From transfer.continuation) ∧
        rest.continuation.PartOf transfer.continuation

theorem keepsTo_pass_nil {next : State} :
    KeepsTo ⟨state, target, trap :: outer⟩ (.pass [] ⟨next, target, outer⟩) :=
  ⟨nofun, List.suffix_cons trap outer, rfl⟩

/-- A trap that enters no body sends to its own offsets. -/
theorem from_of_mem_sends {successors : List Successor} {arrival : Arrival}
    (noEntry : trap.value.entry? = none)
    (atTrap : ∀ successor ∈ successors, ∀ offset, successor.offset? = some offset →
      offset ∈ trap.value.offsets)
    (member : arrival ∈ sends ⟨state, target, trap :: outer⟩ successors) :
    arrival.From ⟨target, trap :: outer⟩ := by
  obtain ⟨successor, inSuccessors, rfl⟩ := List.mem_map.mp member
  refine ⟨?_, ?_⟩
  · intro offset lands
    refine .inl (TrapStack.mem_offsets_iff.mpr ⟨trap, List.mem_cons_self, ?_⟩)
    exact IndexSet.mem_ofList.mpr (atTrap successor inSuccessors offset lands)
  · intro entry entered
    have isEntry : trap.value.entry? = some entry := entered
    rw [noEntry] at isEntry
    contradiction

/-- Every branch goes to the handler of an arm. -/
theorem exists_arm_of_mem_sift {branch : Branch} {arms : List Arm} {uncaught : Constraint}
    (member : branch ∈ (sift state uncaught arms).branches) :
    ∃ arm ∈ arms, branch.handler = arm.handler := by
  obtain ⟨arm, inArms, left, branches⟩ := exists_branch?_of_mem_sift member
  obtain ⟨matched, _, goesOn⟩ := Option.bind_eq_some_iff.mp branches
  obtain ⟨narrowed, _, rfl⟩ := Option.map_eq_some_iff.mp goesOn
  exact ⟨arm, inArms, rfl⟩

theorem keepsTo_throughClauses {thrown : Constraint} {clauses : List Clause}
    (isRule : trap.value.rule = .catches clauses) :
    KeepsTo ⟨state, .exception thrown, trap :: outer⟩
      (throughClauses state thrown clauses outer) := by
  have noEntry : trap.value.entry? = none := by
    rw [Trap.entry?, isRule]
  have handlers : ∀ successor ∈
      (sift state thrown (clauses.flatMap Clause.arms)).branches.map Branch.successor,
      ∀ offset, successor.offset? = some offset → offset ∈ trap.value.offsets := by
    intro successor member offset lands
    obtain ⟨branch, inBranches, rfl⟩ := List.mem_map.mp member
    obtain ⟨arm, inArms, same⟩ := exists_arm_of_mem_sift inBranches
    obtain ⟨clause, inClauses, inClause⟩ := List.mem_flatMap.mp inArms
    obtain ⟨caught, _, rfl⟩ := List.mem_map.mp inClause
    cases Option.some.inj lands
    rw [Trap.offsets, isRule]
    exact List.mem_map.mpr ⟨clause, inClauses, same.symm⟩
  have branches : ∀ arrival ∈ sends ⟨state, .exception thrown, trap :: outer⟩
      ((sift state thrown (clauses.flatMap Clause.arms)).branches.map Branch.successor),
      arrival.From ⟨.exception thrown, trap :: outer⟩ :=
    fun _ => from_of_mem_sends noEntry handlers
  cases isUncaught : (sift state thrown (clauses.flatMap Clause.arms)).uncaught with
  | none =>
      rw [throughClauses_of_caught isUncaught]
      exact branches
  | some uncaught =>
      cases narrows : state.narrow? uncaught with
      | none =>
          rw [throughClauses_of_infeasible isUncaught narrows]
          exact branches
      | some narrowed =>
          rw [throughClauses_of_narrow? isUncaught narrows]
          exact ⟨branches, List.suffix_cons trap outer, rfl⟩

theorem keepsTo_catchAll {handler : Offset} (isRule : trap.value.rule = .catchAll handler) :
    KeepsTo ⟨state, target, trap :: outer⟩ (.finish [.instruction handler state]) := by
  have noEntry : trap.value.entry? = none := by
    rw [Trap.entry?, isRule]
  refine fun _ => from_of_mem_sends noEntry ?_
  intro successor member offset lands
  cases List.mem_singleton.mp member
  cases Option.some.inj lands
  rw [Trap.offsets, isRule]
  exact List.mem_singleton_self handler

theorem keepsTo_enterBody {entry : FinallyEntry} (isRule : trap.value.rule = .enters entry) :
    KeepsTo ⟨state, target, trap :: outer⟩ (enterBody state target entry outer) := by
  intro arrival member
  cases List.mem_singleton.mp member
  refine ⟨?_, ?_⟩
  · intro offset lands
    cases Option.some.inj lands
    refine .inl (TrapStack.mem_offsets_iff.mpr ⟨trap, List.mem_cons_self, ?_⟩)
    rw [Trap.possibleOffsets, IndexSet.mem_ofList, Trap.offsets, isRule]
    exact List.mem_singleton_self entry.jump
  · intro _ _
    exact ⟨⟨target, outer⟩, state.operands, rfl, List.suffix_cons trap outer, rfl⟩

theorem keepsTo_leaveInlined :
    KeepsTo ⟨state, target, trap :: outer⟩ (leaveInlined state target trap.value outer) := by
  rw [leaveInlined]
  cases state.popContinuation? with
  | none => trivial
  | some popped =>
      simp only
      split
      · exact keepsTo_pass_nil
      · trivial

theorem keepsTo_arrive : KeepsTo ⟨state, target, []⟩ (arrive state target) := by
  cases target with
  | exitFinally entry => trivial
  | jump destination flush =>
      intro arrival member
      cases List.mem_singleton.mp member
      exact ⟨fun _ lands => .inr lands, nofun⟩
  | _ =>
      intro arrival member
      cases List.mem_singleton.mp member
      exact ⟨nofun, nofun⟩

theorem keepsTo_step {transfer : Transfer} (outside : transfer.traps.OutsideBodies) :
    transfer.KeepsTo transfer.step := by
  obtain ⟨state, target, traps⟩ := transfer
  cases traps with
  | nil => exact keepsTo_arrive
  | cons trap outer =>
      cases isRule : trap.value.rule with
      | insideFinally => exact absurd isRule (outside trap List.mem_cons_self)
      | insideInlined =>
          simp only [step, through, isRule]
          exact keepsTo_leaveInlined
      | enters entry =>
          simp only [step, through, isRule]
          split
          · exact keepsTo_enterBody isRule
          · exact keepsTo_pass_nil
      | catches clauses =>
          cases target with
          | exception thrown =>
              rw [step_of_catches isRule]
              exact keepsTo_throughClauses isRule
          | _ =>
              rw [step_of_ordinary rfl (.inl ⟨clauses, isRule⟩)]
              exact keepsTo_pass_nil
      | catchAll handler =>
          cases target with
          | exception thrown =>
              rw [step_of_catchAll isRule]
              exact keepsTo_catchAll isRule
          | _ =>
              rw [step_of_ordinary rfl (.inr ⟨handler, isRule⟩)]
              exact keepsTo_pass_nil

/-! ## Whole runs -/

theorem from_of_mem_arrivals :
    ∀ {steps : Nat} {transfer : Transfer} {arrivals : List Arrival},
      transfer.traps.OutsideBodies → transfer.arrivals steps = some (.ok arrivals) →
        ∀ arrival ∈ arrivals, arrival.From transfer.continuation := by
  intro steps
  induction steps with
  | zero =>
      intro transfer arrivals _ arrives
      contradiction
  | succ steps induction =>
      intro transfer arrivals outside arrives
      have keeps := keepsTo_step outside
      rcases arrivals_eq_ok_cases arrives with
        ⟨successors, finishes, rfl⟩ | ⟨branches, rest, later, passes, restArrives, rfl⟩
      · rw [finishes] at keeps
        exact keeps
      · rw [passes] at keeps
        obtain ⟨fromBranches, left⟩ := keeps
        intro arrival member
        rcases List.mem_append.mp member with here | after
        · exact fromBranches arrival here
        · have comes := induction (outside.of_suffix left.traps) restArrives arrival after
          exact comes.of_part left

/-- A transfer from outside all bodies lands on offsets that it names. -/
theorem landsOn_names {limits : Limits} {transfer : Transfer}
    (outside : transfer.traps.OutsideBodies) :
    LandsOn transfer.continuation.Names (transfer.dispatch limits) := by
  intro successors dispatches successor member offset lands
  obtain ⟨arrivals, arrives, rfl⟩ := exists_dispatchArrivals_of_dispatch_eq_ok dispatches
  obtain ⟨arrival, inArrivals, rfl⟩ := List.mem_map.mp member
  have comes := from_of_mem_arrivals outside (arrivals_of_dispatchArrivals_eq_ok arrives)
  exact (comes arrival inArrivals).named offset lands

/-- The end of a body lands on offsets that the saved transfer names. -/
theorem landsOn_resumed {limits : Limits} {resumed : State} {saved : Continuation}
    {below : List Operand} {inside : Shared Trap} {around : TrapStack}
    (outside : saved.traps.OutsideBodies) (top : resumed.operands = .continuation saved :: below)
    (isInside : inside.value.rule = .insideFinally) :
    LandsOn saved.Names (dispatch limits ⟨resumed, target, inside :: around⟩) := by
  obtain ⟨depth, bound⟩ := limits
  cases depth with
  | zero =>
      intro successors dispatches
      contradiction
  | succ depth =>
      intro successors dispatches
      have later : OneStepLater depth
          (dispatch ⟨depth, bound⟩ ⟨{ resumed with operands := below }, saved.target, saved.traps⟩)
          (dispatch ⟨depth + 1, bound⟩ ⟨resumed, target, inside :: around⟩) :=
        oneStepLater_resumed isInside top
      exact landsOn_names outside successors ((later.ok successors).mp dispatches)

end Transfer

/-! ## Instructions -/

section Instructions

variable {instruction : Instruction} {offset : Offset}

theorem mem_possibleOffsets_of_names (table : LinkTable)
    (named : instruction.transfer.Names offset) : offset ∈ instruction.possibleOffsets table := by
  rw [Instruction.possibleOffsets, LinkTable.transferOffsets, IndexSet.mem_union,
    IndexSet.mem_ofList]
  exact named.mem_offsets_or_targetOffsets table

/-- Past its start, the end of a body leads wherever a linked transfer names. -/
theorem mem_targetOffsets_of_linked {table : LinkTable} {entry : FinallyEntry} {link : BackLink}
    (linked : link ∈ table.backLinks entry.body) (named : link.transfer.Names offset) :
    offset = entry.jump ∨ offset ∈ table.targetOffsets (.exitFinally entry) := by
  by_cases start : offset = entry.jump
  · exact .inl start
  · refine .inr (LinkTable.mem_targetOffsets_exitFinally_iff.mpr ⟨?_, start⟩)
    exact ⟨link, linked, named.mem_offsets_or_targetOffsets table⟩

/-- What an instruction outside all bodies reaches is among its static offsets.
And where it enters a body that it is linked to, what the end of the body reaches
from there is the start of the body or among the static offsets of its end. -/
theorem execute_covered (table : LinkTable) (outside : instruction.transfer.traps.OutsideBodies) :
    (∀ limits state, LandsOn (· ∈ instruction.possibleOffsets table)
        (instruction.execute limits state)) ∧
      ∀ entry, (∃ link ∈ table.backLinks entry.body, link.transfer.Agrees instruction.transfer) →
        ∀ limits state successors, instruction.execute limits state = .ok successors →
          ∃ arrivals,
            (instruction.transfer.transfer state).dispatchArrivals limits = .ok arrivals ∧
            successors = arrivals.map Arrival.successor ∧
            ∀ arrival ∈ arrivals, arrival.entered? = some entry →
              ∃ saved below,
                arrival.successor.state.operands = .continuation saved :: below ∧
                ∀ (resumed : State) (rest : List Operand),
                  resumed.operands = .continuation saved :: rest →
                  ∀ (inside : Shared Trap) (around : TrapStack),
                    inside.value.rule = .insideFinally → ∀ limits,
                      LandsOn
                        (fun offset => offset = entry.jump ∨
                          offset ∈ table.targetOffsets (.exitFinally entry))
                        (Transfer.dispatch limits
                          ⟨resumed, .exitFinally entry, inside :: around⟩) := by
  refine ⟨?_, ?_⟩
  · intro limits state successors executes successor member offset lands
    have named := Transfer.landsOn_names outside successors executes successor member offset lands
    exact mem_possibleOffsets_of_names table named
  · rintro entry ⟨link, linked, agrees⟩ limits state successors executes
    obtain ⟨arrivals, arrives, same⟩ :=
      Transfer.exists_dispatchArrivals_of_dispatch_eq_ok executes
    refine ⟨arrivals, arrives, same, ?_⟩
    intro arrival member entered
    have comes := Transfer.from_of_mem_arrivals outside
      (Transfer.arrivals_of_dispatchArrivals_eq_ok arrives) arrival member
    obtain ⟨saved, below, top, left⟩ := comes.saved entry entered
    refine ⟨saved, below, top, ?_⟩
    intro resumed rest resumedTop inside around isInside later found dispatches successor
      inFound offset lands
    have savedOutside := outside.of_suffix left.traps
    have named : saved.Names offset :=
      Transfer.landsOn_resumed savedOutside resumedTop isInside found dispatches successor
        inFound offset lands
    exact mem_targetOffsets_of_linked linked (agrees.names (left.names named))

/-- An exception that is narrowed by clauses before it enters a finally body. -/
theorem execute_covered_narrowed :
    let entry : FinallyEntry := ⟨⟨0⟩, .always, ⟨50⟩⟩
    let throwing : Instruction :=
      ⟨⟨5⟩, .exception (.instanceOf Hierarchy.throwables ⟨1⟩),
        [⟨0, ⟨0⟩, .catches [⟨[.instanceOf Hierarchy.throwables ⟨2⟩], ⟨10⟩⟩]⟩,
          ⟨1, ⟨1⟩, .enters entry⟩, ⟨2, ⟨2⟩, .catchAll ⟨20⟩⟩]⟩
    let table := (Registry.empty.link throwing).freeze
    ⟨50⟩ ∈ throwing.possibleOffsets table ∧
      ((⟨20⟩ : Offset) = ⟨50⟩ ∨ ⟨20⟩ ∈ table.targetOffsets (.exitFinally entry)) := by
  intro entry throwing table
  let uncaught : Constraint := ⟨Hierarchy.throwables, ⟨1⟩, [⟨2⟩]⟩
  let entered : State :=
    ⟨.empty, [.continuation ⟨.exception uncaught, [⟨2, ⟨2⟩, .catchAll ⟨20⟩⟩]⟩], some uncaught⟩
  have outside : throwing.transfer.traps.OutsideBodies := by decide
  have executes : throwing.execute .strict .initial =
      .ok [.instruction ⟨10⟩
          { State.initial with exception := some (.instanceOf Hierarchy.throwables ⟨2⟩) },
        .instruction ⟨50⟩ entered] := by decide
  have linked : ∃ link ∈ table.backLinks entry.body, link.transfer.Agrees throwing.transfer := by
    decide
  obtain ⟨lands, resumes⟩ := execute_covered table outside
  refine ⟨lands .strict .initial _ executes (.instruction ⟨50⟩ entered) (by simp) ⟨50⟩ rfl, ?_⟩
  obtain ⟨arrivals, arrives, _, saves⟩ := resumes entry linked .strict .initial _ executes
  have isArrivals : (throwing.transfer.transfer .initial).dispatchArrivals .strict =
      .ok [⟨some ⟨⟨0⟩, .catches [⟨[.instanceOf Hierarchy.throwables ⟨2⟩], ⟨10⟩⟩]⟩,
          .instruction ⟨10⟩
            { State.initial with exception := some (.instanceOf Hierarchy.throwables ⟨2⟩) }⟩,
        ⟨some ⟨⟨1⟩, .enters entry⟩, .instruction ⟨50⟩ entered⟩] := by decide
  cases isArrivals.symm.trans arrives
  obtain ⟨saved, below, top, covers⟩ :=
    saves ⟨some ⟨⟨1⟩, .enters entry⟩, .instruction ⟨50⟩ entered⟩ (by simp) rfl
  have dispatches : Transfer.dispatch .strict
      ⟨entered, .exitFinally entry, [⟨9, ⟨1⟩, .insideFinally⟩]⟩ =
        .ok [.instruction ⟨20⟩ { entered with operands := [] }] := by decide
  exact covers entered below top ⟨9, ⟨1⟩, .insideFinally⟩ [] rfl .strict _ dispatches
    (.instruction ⟨20⟩ { entered with operands := [] }) (by simp) ⟨20⟩ rfl

end Instructions

end Unwind
