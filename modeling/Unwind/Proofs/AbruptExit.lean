import Unwind.Proofs.Coverage

/-!
# Abrupt exits from a finally body

An instruction inside a finally body may throw, return or jump before the body is
completed.  It resumes what was saved at the entry of the body all the same, so
it goes wherever the end of the body goes and its own target has no influence.

Its static offsets are those of its own target and traps.  They do not cover what
it reaches: where the traps around the body are those that lie outside its entry,
the one offset that they may miss is the destination of the transfer that was
saved.  The static offsets of the end of the body have it.
-/

set_option autoImplicit false

namespace Unwind

theorem LandsOn.mono {allowed wider : Offset → Prop} {outcome : Except Error (List Successor)}
    (lands : LandsOn allowed outcome) (implies : ∀ offset, allowed offset → wider offset) :
    LandsOn wider outcome := by
  intro successors isOk successor member offset isOffset
  exact implies offset (lands successors isOk successor member offset isOffset)

section Saved

variable {instruction : Instruction} {limits : Limits} {state : State}
  {successors : List Successor}

/-- At the entry of a body, what is left of the transfer has been saved. -/
theorem exists_saved_at_entry (outside : instruction.transfer.traps.OutsideBodies)
    (executes : instruction.execute limits state = .ok successors) :
    ∃ arrivals,
      (instruction.transfer.transfer state).dispatchArrivals limits = .ok arrivals ∧
      successors = arrivals.map Arrival.successor ∧
      ∀ arrival ∈ arrivals, ∀ entry, arrival.entered? = some entry →
        ∃ saved below, arrival.successor.state.operands = .continuation saved :: below ∧
          saved.PartOf instruction.transfer := by
  obtain ⟨arrivals, arrives, same⟩ := Transfer.exists_dispatchArrivals_of_dispatch_eq_ok executes
  refine ⟨arrivals, arrives, same, ?_⟩
  intro arrival member
  exact (Transfer.from_of_mem_arrivals outside
    (Transfer.arrivals_of_dispatchArrivals_eq_ok arrives) arrival member).saved

variable {saved : Continuation} {below : List Operand} {inside : Shared Trap}
  {around : TrapStack} {offset : Offset}

/-- The target of an instruction inside a body does not matter. -/
theorem execute_inside_eq (index : Offset) (target other : Target)
    (isInside : inside.value.rule = .insideFinally)
    (top : state.operands = .continuation saved :: below) :
    Instruction.execute limits state ⟨index, target, inside :: around⟩ =
      Instruction.execute limits state ⟨index, other, inside :: around⟩ := by
  obtain ⟨depth, bound⟩ := limits
  cases depth with
  | zero => rfl
  | succ depth =>
      exact Transfer.dispatch_eq_of_pass_nil (Transfer.step_of_inside isInside top)
        (Transfer.step_of_inside isInside top)

/-- With the saved traps around it, an instruction has all offsets of the saved
transfer but its destination. -/
theorem mem_possibleOffsets_or_destination (table : LinkTable) (index : Offset) (target : Target)
    (suffix : saved.traps.SuffixOf around) (named : saved.Names offset) :
    offset ∈ Instruction.possibleOffsets ⟨index, target, inside :: around⟩ table ∨
      saved.target.destination? = some offset := by
  refine named.imp_left fun atTrap => ?_
  obtain ⟨trap, member, possible⟩ := TrapStack.mem_offsets_iff.mp atTrap
  have inAround : trap ∈ around := suffix.subset member
  exact mem_possibleOffsets_of_names table
    (.inl (TrapStack.mem_offsets_iff.mpr ⟨trap, List.mem_cons_of_mem inside inAround, possible⟩))

end Saved

variable {instruction : Instruction}

/-- Where an instruction has entered a body that it is linked to, an instruction
inside the body does what the end of the body does, and reaches its start or the
static offsets of its end.  Its own static offsets miss at most the destination
of the transfer that entered. -/
theorem execute_inside_covered (table : LinkTable)
    (outside : instruction.transfer.traps.OutsideBodies) (entry : FinallyEntry)
    (linked : ∃ link ∈ table.backLinks entry.body, link.transfer.Agrees instruction.transfer)
    {limits : Limits} {state : State} {successors : List Successor}
    (executes : instruction.execute limits state = .ok successors) :
    ∃ arrivals,
      (instruction.transfer.transfer state).dispatchArrivals limits = .ok arrivals ∧
      successors = arrivals.map Arrival.successor ∧
      ∀ arrival ∈ arrivals, arrival.entered? = some entry →
        ∃ saved below,
          arrival.successor.state.operands = .continuation saved :: below ∧
          ∀ (index : Offset) (target : Target) (inside : Shared Trap) (around : TrapStack),
            inside.value.rule = .insideFinally → ∀ limits,
              let leaving : Instruction := ⟨index, target, inside :: around⟩
              let ending : Instruction := ⟨index, .exitFinally entry, inside :: around⟩
              let outcome := leaving.execute limits arrival.successor.state
              outcome = ending.execute limits arrival.successor.state ∧
              LandsOn
                (fun offset => offset = entry.jump ∨
                  offset ∈ table.targetOffsets (.exitFinally entry)) outcome ∧
              (saved.traps.SuffixOf around →
                LandsOn
                  (fun offset => offset ∈ leaving.possibleOffsets table ∨
                    instruction.transfer.target.destination? = some offset) outcome) := by
  obtain ⟨link, isLink, agrees⟩ := linked
  obtain ⟨arrivals, arrives, same, saves⟩ := exists_saved_at_entry outside executes
  refine ⟨arrivals, arrives, same, ?_⟩
  intro arrival member entered
  obtain ⟨saved, below, top, left⟩ := saves arrival member entry entered
  refine ⟨saved, below, top, ?_⟩
  intro index target inside around isInside limits leaving ending outcome
  have lands : LandsOn saved.Names outcome :=
    Transfer.landsOn_resumed (outside.of_suffix left.traps) top isInside
  refine ⟨execute_inside_eq index target (.exitFinally entry) isInside top, ?_, ?_⟩
  · refine lands.mono ?_
    intro offset named
    exact mem_targetOffsets_of_linked isLink (agrees.names (left.names named))
  · intro suffix
    refine lands.mono ?_
    intro offset named
    rw [← left.destination]
    exact mem_possibleOffsets_or_destination table index target suffix named

/-- An exception enters a body that is left by a jump.  The handler outside the
body is reached, and not the destination of that jump. -/
theorem execute_jump_inside_covered :
    let entry : FinallyEntry := ⟨⟨0⟩, .always, ⟨50⟩⟩
    let handler : Shared Trap := ⟨1, ⟨1⟩, .catchAll ⟨20⟩⟩
    let thrown := Target.exception (.instanceOf Hierarchy.throwables ⟨1⟩)
    let throwing : Instruction := ⟨⟨5⟩, thrown, [⟨0, ⟨0⟩, .enters entry⟩, handler]⟩
    let jumping : Instruction := ⟨⟨55⟩, .jump ⟨70⟩ [], [⟨2, ⟨0⟩, .insideFinally⟩, handler]⟩
    let table := (Registry.empty.link throwing).freeze
    let entered : State := ⟨.empty, [.continuation ⟨thrown, [handler]⟩], none⟩
    throwing.execute .strict .initial = .ok [.instruction ⟨50⟩ entered] ∧
      jumping.execute .strict entered = .ok [.instruction ⟨20⟩ .initial] ∧
      ((⟨20⟩ : Offset) = ⟨50⟩ ∨ ⟨20⟩ ∈ table.targetOffsets (.exitFinally entry)) ∧
      (⟨20⟩ ∈ jumping.possibleOffsets table ∨ thrown.destination? = some ⟨20⟩) := by
  intro entry handler thrown throwing jumping table entered
  have outside : throwing.transfer.traps.OutsideBodies := by decide
  have linked : ∃ link ∈ table.backLinks entry.body, link.transfer.Agrees throwing.transfer := by
    decide
  have executes : throwing.execute .strict .initial = .ok [.instruction ⟨50⟩ entered] := rfl
  have leaves : jumping.execute .strict entered = .ok [.instruction ⟨20⟩ .initial] := rfl
  refine ⟨executes, leaves, ?_⟩
  obtain ⟨arrivals, arrives, _, covers⟩ :=
    execute_inside_covered table outside entry linked executes
  have isArrivals : (throwing.transfer.transfer .initial).dispatchArrivals .strict =
      .ok [⟨some ⟨⟨0⟩, .enters entry⟩, .instruction ⟨50⟩ entered⟩] := rfl
  cases Except.ok.inj (isArrivals.symm.trans arrives)
  obtain ⟨saved, below, top, covered⟩ := covers _ (List.mem_singleton_self _) rfl
  cases top
  obtain ⟨_, atEnd, atLeaving⟩ :=
    covered ⟨55⟩ (.jump ⟨70⟩ []) ⟨2, ⟨0⟩, .insideFinally⟩ [handler] rfl .strict
  exact ⟨atEnd _ leaves _ (List.mem_singleton_self _) ⟨20⟩ rfl,
    atLeaving (List.suffix_refl _) _ leaves _ (List.mem_singleton_self _) ⟨20⟩ rfl⟩

/-- A jump enters a body that is left by a return.  The destination of the jump is
reached, and the return has no static offset at all. -/
theorem execute_return_inside_not_covered :
    let allocated := Registry.empty.allocate .always ⟨50⟩
    let jumping : Instruction := ⟨⟨5⟩, .jump ⟨90⟩ [], [⟨0, ⟨0⟩, .enters allocated.1⟩]⟩
    let returning : Instruction := ⟨⟨55⟩, .ret, [⟨1, ⟨0⟩, .insideFinally⟩]⟩
    let table := (allocated.2.link jumping).freeze
    let entered : State := ⟨.empty, [.continuation ⟨.jump ⟨90⟩ [], []⟩], none⟩
    jumping.transfer.traps.OutsideBodies ∧
      jumping.execute .standard .initial = .ok [.instruction ⟨50⟩ entered] ∧
      returning.execute .standard entered = .ok [.instruction ⟨90⟩ .initial] ∧
      returning.possibleOffsets table = ∅ ∧
      ¬ LandsOn (· ∈ returning.possibleOffsets table)
        (returning.execute .standard entered) := by
  intro allocated jumping returning table entered
  have leaves : returning.execute .standard entered = .ok [.instruction ⟨90⟩ .initial] := rfl
  have nowhere : returning.possibleOffsets table = ∅ := rfl
  refine ⟨by decide, rfl, leaves, nowhere, ?_⟩
  intro lands
  have covered := lands _ leaves _ (List.mem_singleton_self _) ⟨90⟩ rfl
  rw [nowhere] at covered
  exact IndexSet.not_mem_empty _ covered

end Unwind
