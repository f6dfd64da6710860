import Unwind.Proofs.JumpRoute

/-!
# What becomes of a target that is no exception

Outside finally bodies a jump, a return or the end of a body goes straight out: it
passes handlers by, drops a saved return at the mark of each inlined call, and
stops at the first entry of a finally body.  So there are two ways to fail, and
both can be seen beforehand: too few returns lie on top of the operand stack, or
the end of a body meets no entry at all.  `Settled` puts the outcome of a run and
its cause side by side, and is followed from trap to trap.
-/

set_option autoImplicit false

namespace Unwind

/-- The operand is a return that an inlined call has saved. -/
def Operand.IsReturn : Operand → Prop
  | .continuation saved => saved.target = .ret
  | .constant _ => False

instance : DecidablePred Operand.IsReturn
  | .continuation saved => inferInstanceAs (Decidable (saved.target = .ret))
  | .constant _ => inferInstanceAs (Decidable False)

namespace State

/-- So many saved returns lie on top of the operand stack. -/
def HoldsReturns (state : State) (count : Nat) : Prop :=
  count ≤ state.operands.length ∧ ∀ operand ∈ state.operands.take count, operand.IsReturn

instance (state : State) (count : Nat) : Decidable (state.HoldsReturns count) :=
  inferInstanceAs (Decidable (_ ∧ _))

def dropTop (state : State) (count : Nat) : State :=
  { state with operands := state.operands.drop count }

variable {state : State} {count : Nat} {saved : Continuation} {below : List Operand}

theorem holdsReturns_zero : state.HoldsReturns 0 := ⟨Nat.zero_le _, by simp⟩

theorem holdsReturns_succ (isTop : state.operands = .continuation saved :: below)
    (isReturn : saved.target = .ret) :
    state.HoldsReturns (count + 1) ↔ HoldsReturns { state with operands := below } count := by
  simp [HoldsReturns, isTop, Operand.IsReturn, isReturn]

theorem exists_top_of_holdsReturns (holds : state.HoldsReturns (count + 1)) :
    ∃ saved below, state.operands = .continuation saved :: below ∧ saved.target = .ret := by
  obtain ⟨enough, areReturns⟩ := holds
  cases isTop : state.operands with
  | nil => simp [isTop] at enough
  | cons top below =>
      have isReturn : top.IsReturn := areReturns top (by simp [isTop])
      cases top with
      | constant value => exact absurd isReturn id
      | continuation saved => exact ⟨saved, below, rfl, isReturn⟩

theorem dropTop_succ (isTop : state.operands = .continuation saved :: below) :
    state.dropTop (count + 1) = dropTop { state with operands := below } count := by
  simp [dropTop, isTop]

end State

namespace TrapStack

/-- The traps before the first entry of a finally body. -/
def untilEntry (traps : TrapStack) : TrapStack :=
  traps.takeWhile fun trap => trap.value.entry?.isNone

/-- The first entry of a finally body and the traps outside it. -/
def fromEntry (traps : TrapStack) : TrapStack :=
  traps.dropWhile fun trap => trap.value.entry?.isNone

variable {traps outer : TrapStack} {trap : Shared Trap} {entry : FinallyEntry}

theorem untilEntry_cons_of_none (noEntry : trap.value.entry? = none) :
    untilEntry (trap :: outer) = trap :: untilEntry outer :=
  List.takeWhile_cons_of_pos (by simp [noEntry])

theorem fromEntry_cons_of_none (noEntry : trap.value.entry? = none) :
    fromEntry (trap :: outer) = fromEntry outer :=
  List.dropWhile_cons_of_pos (by simp [noEntry])

theorem untilEntry_cons_of_some (isEntry : trap.value.entry? = some entry) :
    untilEntry (trap :: outer) = [] :=
  List.takeWhile_cons_of_neg (by simp [isEntry])

theorem fromEntry_cons_of_some (isEntry : trap.value.entry? = some entry) :
    fromEntry (trap :: outer) = trap :: outer :=
  List.dropWhile_cons_of_neg (by simp [isEntry])

theorem fromEntry_eq_nil_iff : traps.fromEntry = [] ↔ traps.entries = [] := by
  induction traps with
  | nil => exact iff_of_true rfl rfl
  | cons trap outer induction =>
      cases isEntry : trap.value.entry? with
      | none => rw [fromEntry_cons_of_none isEntry, entries_cons_of_none isEntry, induction]
      | some entry => simp [fromEntry_cons_of_some isEntry, entries_cons_of_some isEntry]

end TrapStack

/-- Where the target goes from the state, with the first entry of a finally body
before it or with no trap at all. -/
inductive Settles (state : State) : Target → TrapStack → Successor → Prop
  | enters {target : Target} {trap : Shared Trap} {outer : TrapStack} {entry : FinallyEntry} :
      trap.value.rule = .enters entry →
        Settles state target (trap :: outer)
          (.instruction entry.jump
            { state with operands := .continuation ⟨target, outer⟩ :: state.operands })
  | jumps {offset : Offset} {flush : List String} :
      Settles state (.jump offset flush) []
        (.instruction offset { state with bindings := state.bindings.without flush })
  | returns : Settles state .ret [] (.ret state)

theorem Settles.eq_of_enters {state : State} {target : Target} {trap : Shared Trap}
    {outer : TrapStack} {entry : FinallyEntry} {successor : Successor}
    (isRule : trap.value.rule = .enters entry)
    (settles : Settles state target (trap :: outer) successor) :
    successor = .instruction entry.jump
      { state with operands := .continuation ⟨target, outer⟩ :: state.operands } := by
  cases settles with
  | enters isOther =>
      cases isRule.symm.trans isOther
      rfl

/-- So many returns can be dropped, and the end of a body has an entry to go to. -/
def CanLeave (state : State) (target : Target) (count : Nat) (remaining : TrapStack) : Prop :=
  state.HoldsReturns count ∧ (remaining ≠ [] ∨ ∀ entry, target ≠ .exitFinally entry)

/-- The outcome of a run that drops so many returns and then has the remaining
traps before it, together with what decides between success and failure. -/
def Settled (state : State) (target : Target) (count : Nat) (remaining : TrapStack) :
    Option (Except Violation (List Successor)) → Prop
  | some (.ok successors) => CanLeave state target count remaining ∧
      ∃ successor, successors = [successor] ∧
        Settles (state.dropTop count) target remaining successor
  | some (.error _) => ¬ CanLeave state target count remaining
  | none => False

theorem settled_succ_iff {state : State} {target : Target} {count : Nat} {remaining : TrapStack}
    {saved : Continuation} {below : List Operand}
    {outcome : Option (Except Violation (List Successor))}
    (isTop : state.operands = .continuation saved :: below) (isReturn : saved.target = .ret) :
    Settled state target (count + 1) remaining outcome ↔
      Settled { state with operands := below } target count remaining outcome := by
  cases outcome with
  | none => exact Iff.rfl
  | some result =>
      cases result <;>
        simp only [Settled, CanLeave, State.holdsReturns_succ isTop isReturn,
          State.dropTop_succ isTop]

namespace Transfer

variable {limits : Limits} {state : State} {target : Target} {trap : Shared Trap}
  {traps outer : TrapStack} {steps : Nat}

/-- The mark of an inlined call finds a saved return on top, or the step fails. -/
theorem inlined_pops_or_fails (isRule : trap.value.rule = .insideInlined) :
    (∃ saved below, state.operands = .continuation saved :: below ∧ saved.target = .ret) ∨
      (¬ ∃ saved below, state.operands = .continuation saved :: below ∧ saved.target = .ret) ∧
        ∃ violation, step ⟨state, target, trap :: outer⟩ = .fail violation := by
  simp only [step, through, isRule, leaveInlined, State.popContinuation?]
  cases state.operands with
  | nil => exact .inr ⟨by simp, _, rfl⟩
  | cons top below =>
      cases top with
      | constant value => exact .inr ⟨by simp, _, rfl⟩
      | continuation saved =>
          by_cases isReturn : saved.target = .ret
          · exact .inl ⟨saved, below, rfl, isReturn⟩
          · refine .inr ⟨?_, .notReturn trap.value saved.target, by simp only [if_neg isReturn]⟩
            rintro ⟨other, _, isTop, otherReturn⟩
            cases isTop
            exact isReturn otherReturn

theorem settled_arrive (ordinary : target.isException = false) :
    Settled state target 0 [] (run (steps + 1) ⟨state, target, []⟩) := by
  cases target with
  | exception thrown => simp [Target.isException] at ordinary
  | exitFinally entry =>
      rw [run_of_fail rfl]
      rintro ⟨_, someTrap | notExit⟩
      · exact someTrap rfl
      · exact notExit entry rfl
  | ret =>
      rw [run_of_finish rfl]
      exact ⟨⟨State.holdsReturns_zero, .inr (by simp)⟩, _, rfl, .returns⟩
  | jump offset flush =>
      rw [run_of_finish rfl, State.flushAll_eq_without]
      exact ⟨⟨State.holdsReturns_zero, .inr (by simp)⟩, _, rfl, .jumps⟩

/-- What the returns on top and the first entry of a finally body decide. -/
theorem settled_run (ordinary : target.isException = false) :
    ∀ {traps : TrapStack} {state : State} {steps : Nat},
      traps.OutsideBodies → traps.length < steps →
        Settled state target traps.untilEntry.inlinedCalls traps.fromEntry
          (run steps ⟨state, target, traps⟩) := by
  intro traps
  induction traps with
  | nil =>
      intro state steps _ enough
      obtain ⟨fewer, rfl⟩ : ∃ fewer, steps = fewer + 1 := ⟨steps - 1, by omega⟩
      exact settled_arrive ordinary
  | cons trap outer induction =>
      intro state steps outside enough
      rw [List.length_cons] at enough
      obtain ⟨fewer, rfl⟩ : ∃ fewer, steps = fewer + 1 := ⟨steps - 1, by omega⟩
      have outerOutside := outside.of_suffix (List.suffix_cons trap outer)
      have outerEnough : outer.length < fewer := by omega
      cases isRule : trap.value.rule with
      | catches _ | catchAll _ =>
          have noEntry : trap.value.entry? = none := by rw [Trap.entry?, isRule]
          rw [TrapStack.untilEntry_cons_of_none noEntry, TrapStack.fromEntry_cons_of_none noEntry,
            TrapStack.inlinedCalls_cons_of_ne (by simp [isRule]),
            run_of_pass_nil (step_of_ordinary ordinary (by simp [isRule]))]
          exact induction outerOutside outerEnough
      | insideFinally => exact absurd isRule (outside trap List.mem_cons_self)
      | insideInlined =>
          have noEntry : trap.value.entry? = none := by rw [Trap.entry?, isRule]
          rw [TrapStack.untilEntry_cons_of_none noEntry, TrapStack.fromEntry_cons_of_none noEntry,
            TrapStack.inlinedCalls_cons_of_eq isRule]
          rcases inlined_pops_or_fails isRule with
            ⟨saved, below, isTop, isReturn⟩ | ⟨noReturn, violation, fails⟩
          · rw [run_of_pass_nil (step_of_inlined isRule isTop isReturn),
              settled_succ_iff isTop isReturn]
            exact induction outerOutside outerEnough
          · rw [run_of_fail fails]
            exact fun canLeave => noReturn (State.exists_top_of_holdsReturns canLeave.1)
      | enters entry =>
          have isEntry : trap.value.entry? = some entry := by rw [Trap.entry?, isRule]
          rw [TrapStack.untilEntry_cons_of_some isEntry, TrapStack.fromEntry_cons_of_some isEntry,
            run_of_finish (step_of_enters isRule (.inr ordinary))]
          exact ⟨⟨State.holdsReturns_zero, .inl (List.cons_ne_nil _ _)⟩, _, rfl, .enters isRule⟩

/-! ## Whole dispatches -/

/-- Outside finally bodies, a target that is no exception succeeds if and only if
the returns that the inlined calls before the first finally entry have saved are on
top of the stack, and it is not the end of a body with no entry around it.  It then
has one successor: the body of that entry, or the destination if there is none. -/
theorem dispatch_ordinary_exactly (state : State) (target : Target)
    (ordinary : target.isException = false) (outside : traps.OutsideBodies)
    (deep : traps.length < limits.maxDepth) :
    let count := traps.untilEntry.inlinedCalls
    let outcome := dispatch limits ⟨state, target, traps⟩
    ((∃ successors, outcome = .ok successors) ↔
        state.HoldsReturns count ∧ (traps.entries ≠ [] ∨ ∀ entry, target ≠ .exitFinally entry)) ∧
      ((∀ successors, outcome ≠ .ok successors) →
        ∃ violation, outcome = .error (.violation violation)) ∧
      ∀ successors, outcome = .ok successors →
        ∃ successor, successors = [successor] ∧
          Settles (state.dropTop count) target traps.fromEntry successor := by
  intro count outcome
  have settled : Settled state target count traps.fromEntry (run limits.maxDepth _) :=
    settled_run ordinary outside deep
  rw [Ne, ← TrapStack.fromEntry_eq_nil_iff]
  cases runs : run limits.maxDepth ⟨state, target, traps⟩ with
  | none => simp [runs, Settled] at settled
  | some result =>
      rw [runs] at settled
      cases result with
      | error violation =>
          have fails : outcome = .error (.violation violation) := by
            simp [outcome, dispatch, resolve, runs]
          have isNotOk : ∀ successors, outcome ≠ .ok successors := by
            intro successors isOk
            rw [fails] at isOk
            contradiction
          refine ⟨iff_of_false ?_ settled, fun _ => ⟨violation, fails⟩, ?_⟩
          · rintro ⟨successors, isOk⟩
            exact isNotOk successors isOk
          · intro successors isOk
            exact absurd isOk (isNotOk successors)
      | ok successors =>
          obtain ⟨canLeave, successor, rfl, settles⟩ := settled
          have succeeds : outcome = .ok [successor] :=
            dispatch_eq_ok_iff.mpr ⟨runs, by simp only [List.length_singleton]; omega⟩
          rw [succeeds]
          refine ⟨iff_of_true ⟨_, rfl⟩ canLeave, fun isNotOk => absurd rfl (isNotOk _), ?_⟩
          rintro _ ⟨⟩
          exact ⟨successor, rfl, settles⟩

/-- The end of a body leaves inlined code and meets a resource body.  The second mark
of an inlined call lies outside that and takes nothing; the first one needs a return
on top. -/
theorem dispatch_exit_meets_resource :
    let resource : Shared Trap := ⟨2, ⟨2⟩, .enters ⟨⟨0⟩, .resource, ⟨50⟩⟩⟩
    let outer : TrapStack := [⟨3, ⟨3⟩, .insideInlined⟩]
    let traps : TrapStack :=
      ⟨0, ⟨0⟩, .catchAll ⟨9⟩⟩ :: ⟨1, ⟨1⟩, .insideInlined⟩ :: resource :: outer
    let target := Target.exitFinally ⟨⟨1⟩, .always, ⟨60⟩⟩
    let start : State := ⟨⟨[("x", 1)]⟩, [.continuation ⟨.ret, []⟩, .constant 7], none⟩
    let shadowed : State := ⟨⟨[("x", 1)]⟩, [.constant 7, .continuation ⟨.ret, []⟩], none⟩
    let entered : Successor :=
      .instruction ⟨50⟩ ⟨⟨[("x", 1)]⟩, [.continuation ⟨target, outer⟩, .constant 7], none⟩
    (dispatch .strict ⟨start, target, traps⟩ = .ok [entered] ∧
        Settles ⟨⟨[("x", 1)]⟩, [.constant 7], none⟩ target (resource :: outer) entered) ∧
      ∃ violation, dispatch .strict ⟨shadowed, target, traps⟩ = .error (.violation violation) := by
  intro resource outer traps target start shadowed entered
  have outside : traps.OutsideBodies := by decide
  have deep : traps.length < Limits.strict.maxDepth := by decide
  have someEntry : traps.entries ≠ [] := by decide
  constructor
  · obtain ⟨succeeds, _, single⟩ := dispatch_ordinary_exactly start target rfl outside deep
    obtain ⟨successors, isOk⟩ := succeeds.mpr ⟨by decide, .inl someEntry⟩
    obtain ⟨successor, rfl, settles⟩ := single successors isOk
    have isEntered : successor = entered := settles.eq_of_enters rfl
    rw [isEntered] at isOk settles
    exact ⟨isOk, settles⟩
  · obtain ⟨succeeds, fails, _⟩ := dispatch_ordinary_exactly shadowed target rfl outside deep
    apply fails
    intro successors isOk
    have holds := (succeeds.mp ⟨successors, isOk⟩).1
    exact absurd holds (by decide)

end Transfer

end Unwind
