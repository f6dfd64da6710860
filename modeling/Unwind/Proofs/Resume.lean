import Unwind.Proofs.Runs

/-!
# Entering a finally body and leaving it

A transfer that enters a finally body is saved on the state, and the end of the
body takes it up from there.  What was in flight at the end of the body, and the
traps around it, are forgotten.  The way through the body therefore costs one
step, the one that meets the mark of the body, and changes nothing else: every
outcome of the direct way is the outcome of the way through the body, where a
limit on the depth counts one more.
-/

set_option autoImplicit false

namespace Unwind

/-- No trap of the stack marks the inside of a finally body. -/
def TrapStack.OutsideBodies (traps : TrapStack) : Prop :=
  ∀ trap ∈ traps, trap.value.rule ≠ .insideFinally

instance (traps : TrapStack) : Decidable traps.OutsideBodies :=
  inferInstanceAs (Decidable (∀ trap ∈ traps, trap.value.rule ≠ .insideFinally))

theorem TrapStack.OutsideBodies.of_suffix {traps outer : TrapStack}
    (outside : traps.OutsideBodies) (suffix : outer <:+ traps) : outer.OutsideBodies :=
  fun trap member => outside trap (suffix.subset member)

/-- The second outcome is the first one, reached at a depth of one more. -/
structure OneStepLater (depth : Nat) (direct later : Except Error (List Successor)) : Prop where
  ok : ∀ successors, later = .ok successors ↔ direct = .ok successors
  violation : ∀ cause, later = .error (.violation cause) ↔ direct = .error (.violation cause)
  successorLimit : ∀ count limit,
    later = .error (.successorLimit count limit) ↔ direct = .error (.successorLimit count limit)
  recursionLimit :
    later = .error (.recursionLimit (depth + 1)) ↔ direct = .error (.recursionLimit depth)

namespace Transfer

variable {limits : Limits} {transfer rest : Transfer} {steps : Nat}

/-! ## Steps that leave nothing behind -/

theorem arrivals_of_pass_nil (passes : transfer.step = .pass [] rest) :
    transfer.arrivals (steps + 1) = rest.arrivals steps := by
  rw [arrivals, passes]
  simp only
  cases rest.arrivals steps with
  | none => rfl
  | some outcome => cases outcome <;> rfl

theorem run_of_pass_nil (passes : transfer.step = .pass [] rest) :
    transfer.run (steps + 1) = rest.run steps := by
  rw [run_eq_map_arrivals, arrivals_of_pass_nil passes, ← run_eq_map_arrivals]

theorem oneStepLater_of_pass_nil {depth bound : Nat} (passes : transfer.step = .pass [] rest) :
    OneStepLater depth (rest.dispatch ⟨depth, bound⟩) (transfer.dispatch ⟨depth + 1, bound⟩) := by
  simp only [dispatch, resolve, run_of_pass_nil passes]
  cases rest.run depth with
  | none => constructor <;> simp
  | some outcome =>
      cases outcome with
      | error violation => constructor <;> simp
      | ok successors =>
          simp only
          split <;> constructor <;> simp

theorem dispatch_eq_of_pass_nil {other : Transfer} {depth bound : Nat}
    (passes : transfer.step = .pass [] rest) (otherPasses : other.step = .pass [] rest) :
    other.dispatch ⟨depth + 1, bound⟩ = transfer.dispatch ⟨depth + 1, bound⟩ := by
  simp only [dispatch, resolve, run_of_pass_nil passes, run_of_pass_nil otherPasses]

theorem dispatchArrivals_of_single {arrival : Arrival}
    (arrives : transfer.arrivals limits.maxDepth = some (.ok [arrival])) :
    transfer.dispatchArrivals limits = .ok [arrival] := by
  rw [dispatchArrivals, arrives]
  simp only [List.length_singleton]
  -- a bound on the successors that is not zero leaves room for one
  rw [if_neg (by omega)]

variable {state : State} {target : Target} {trap : Shared Trap} {outer around : TrapStack}
  {entry : FinallyEntry}

/-- Catch clauses and handlers are about exceptions only. -/
theorem step_of_ordinary (ordinary : target.isException = false)
    (isCatch : (∃ clauses, trap.value.rule = .catches clauses) ∨
      ∃ handler, trap.value.rule = .catchAll handler) :
    step ⟨state, target, trap :: outer⟩ = .pass [] ⟨state, target, outer⟩ := by
  cases target with
  | exception thrown => simp [Target.isException] at ordinary
  | _ => rcases isCatch with ⟨_, isRule⟩ | ⟨_, isRule⟩ <;> simp only [step, through, isRule]

theorem step_of_inlined {saved : Continuation} {below : List Operand}
    (isRule : trap.value.rule = .insideInlined)
    (top : state.operands = .continuation saved :: below) (isReturn : saved.target = .ret) :
    step ⟨state, target, trap :: outer⟩ =
      .pass [] ⟨{ state with operands := below }, target, outer⟩ := by
  simp only [step, through, isRule, leaveInlined, State.popContinuation?, top, isReturn, if_true]

/-! ## The two ends of a finally body -/

theorem step_of_enters (isEntry : trap.value.rule = .enters entry) (runs : entry.RunsFor target) :
    step ⟨state, target, trap :: outer⟩ =
      .finish [.instruction entry.jump
        { state with operands := .continuation ⟨target, outer⟩ :: state.operands }] := by
  simp only [step, through, isEntry, runs, if_true, enterBody, State.push]

theorem step_of_inside {saved : Continuation} {below : List Operand}
    (isInside : trap.value.rule = .insideFinally)
    (top : state.operands = .continuation saved :: below) :
    step ⟨state, target, trap :: around⟩ =
      .pass [] ⟨{ state with operands := below }, saved.target, saved.traps⟩ := by
  simp only [step, through, isInside, resumeSaved, State.popContinuation?, top]

/-- From the end of a body, dispatch goes on as the saved transfer does. -/
theorem oneStepLater_resumed {saved : Continuation} {below : List Operand} {depth bound : Nat}
    (isInside : trap.value.rule = .insideFinally)
    (top : state.operands = .continuation saved :: below) :
    OneStepLater depth
      (dispatch ⟨depth, bound⟩ ⟨{ state with operands := below }, saved.target, saved.traps⟩)
      (dispatch ⟨depth + 1, bound⟩ ⟨state, target, trap :: around⟩) :=
  oneStepLater_of_pass_nil (step_of_inside isInside top)

theorem dispatch_of_enters (isEntry : trap.value.rule = .enters entry)
    (runs : entry.RunsFor target) (deep : 1 ≤ limits.maxDepth) :
    dispatch limits ⟨state, target, trap :: outer⟩ =
      .ok [.instruction entry.jump
        { state with operands := .continuation ⟨target, outer⟩ :: state.operands }] := by
  obtain ⟨steps, isDepth⟩ : ∃ steps, limits.maxDepth = steps + 1 :=
    ⟨limits.maxDepth - 1, by omega⟩
  have enters : step ⟨state, target, trap :: outer⟩ =
      .finish [.instruction entry.jump
        { state with operands := .continuation ⟨target, outer⟩ :: state.operands }] :=
    step_of_enters isEntry runs
  exact (round_of_arrives
    (dispatchArrivals_of_single (isDepth ▸ arrivals_of_finish enters))).dispatches

/-- A finally body is no obstacle to what runs through it: its entry saves the
transfer on the state and changes nothing else, and its end goes on from there as
the transfer would have gone on at once.  What is in flight at the end, and the
traps around it, do not matter. -/
theorem dispatch_enters_and_resumes (outer : TrapStack) (isEntry : trap.value.rule = .enters entry)
    (runs : entry.kind = .always ∨ entry.kind = .resource ∧ target.isException = false) :
    (∀ limits state, 1 ≤ limits.maxDepth →
        dispatch limits ⟨state, target, trap :: outer⟩ =
          .ok [.instruction entry.jump
            { state with operands := .continuation ⟨target, outer⟩ :: state.operands }]) ∧
      ∀ (resumed : State) (below : List Operand),
        resumed.operands = .continuation ⟨target, outer⟩ :: below →
        ∀ (inside : Shared Trap) (inFlight : Target) (around : TrapStack),
          inside.value.rule = .insideFinally → ∀ depth bound : Nat,
            let later := dispatch ⟨depth + 1, bound⟩ ⟨resumed, inFlight, inside :: around⟩
            OneStepLater depth
                (dispatch ⟨depth, bound⟩ ⟨{ resumed with operands := below }, target, outer⟩)
                later ∧
              ∀ (other : Shared Trap) (otherTarget : Target) (otherAround : TrapStack),
                other.value.rule = .insideFinally →
                  dispatch ⟨depth + 1, bound⟩ ⟨resumed, otherTarget, other :: otherAround⟩ =
                    later := by
  refine ⟨?_, ?_⟩
  · intro limits state deep
    have runsFor : entry.RunsFor target := runs.imp_right And.right
    exact dispatch_of_enters isEntry runsFor deep
  · intro resumed below top inside inFlight around isInside depth bound later
    refine ⟨oneStepLater_resumed isInside top, ?_⟩
    intro other otherTarget otherAround isOther
    exact dispatch_eq_of_pass_nil (step_of_inside isInside top) (step_of_inside isOther top)

/-- A return through a resource body inside a block with a finally body. -/
theorem dispatch_return_resumes :
    let entry : FinallyEntry := ⟨⟨0⟩, .resource, ⟨50⟩⟩
    let outer : TrapStack := [⟨1, ⟨1⟩, .enters ⟨⟨1⟩, .always, ⟨60⟩⟩⟩]
    let entered : State := ⟨.empty, [.continuation ⟨.ret, outer⟩], none⟩
    let leave : Transfer := ⟨entered, .exitFinally entry, [⟨2, ⟨0⟩, .insideFinally⟩]⟩
    dispatch .strict ⟨.initial, .ret, ⟨0, ⟨0⟩, .enters entry⟩ :: outer⟩ =
        .ok [.instruction ⟨50⟩ entered] ∧
      leave.dispatch ⟨2, 0⟩ =
        .ok [.instruction ⟨60⟩ ⟨.empty, [.continuation ⟨.ret, []⟩], none⟩] ∧
      leave.dispatch ⟨1, 0⟩ = .error (.recursionLimit 1) := by
  intro entry outer entered leave
  have runs : entry.kind = .always ∨ entry.kind = .resource ∧ Target.ret.isException = false :=
    .inr ⟨rfl, rfl⟩
  have isEntry : (Shared.mk 0 (Trap.mk ⟨0⟩ (.enters entry))).value.rule = .enters entry := rfl
  obtain ⟨enters, resumes⟩ := dispatch_enters_and_resumes outer isEntry runs
  have leaves := resumes entered [] rfl ⟨2, ⟨0⟩, .insideFinally⟩ (.exitFinally entry) [] rfl
  refine ⟨enters .strict .initial (by decide), ?_, ?_⟩
  · exact ((leaves 1 0).1.ok _).mpr rfl
  · exact (leaves 0 0).1.recursionLimit.mpr rfl

end Transfer

end Unwind
