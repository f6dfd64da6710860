import Unwind.Proofs.Runs

/-!
# How deep a dispatch goes

A step that does not end a dispatch passes on a transfer that weighs less, where
the traps before a transfer count as well as those of all continuations that are
saved on its state.  The end of a finally body takes up saved traps, so the trap
stack alone may grow on the way.

Every transfer therefore has a depth, the number of steps that it needs, and an
outcome that is there from this depth on.  The configured limits decide between
this outcome and an error of their own, and have no other influence.
-/

set_option autoImplicit false

namespace Unwind

/-! ## What a step passes on -/

/-- The trap lets the target through as it is. -/
def Trap.Ignores (trap : Trap) (target : Target) : Prop :=
  match trap.rule with
  | .catches _ | .catchAll _ => target.isException = false
  | .enters entry => ¬ entry.RunsFor target
  | .insideFinally | .insideInlined => False

theorem State.popContinuation?_eq_some {state popped : State} {saved : Continuation}
    (pops : state.popContinuation? = some (saved, popped)) :
    ∃ below, state.operands = .continuation saved :: below ∧
      popped = { state with operands := below } := by
  unfold popContinuation? at pops
  split at pops
  · next below isTop =>
      cases Option.some.inj pops
      exact ⟨below, isTop, rfl⟩
  · contradiction

namespace Transfer

/-- A transfer, the branches that its innermost trap leaves behind, and what the
trap passes on. -/
inductive Passes : Transfer → List Successor → Transfer → Prop
  | uncaught {state narrowed : State} {thrown uncaught : Constraint} {trap : Shared Trap}
      {outer : TrapStack} {clauses : List Clause} :
      trap.value.rule = .catches clauses →
      (sift state thrown (clauses.flatMap Clause.arms)).uncaught = some uncaught →
      state.narrow? uncaught = some narrowed →
        Passes ⟨state, .exception thrown, trap :: outer⟩
          ((sift state thrown (clauses.flatMap Clause.arms)).branches.map Branch.successor)
          ⟨narrowed, .exception uncaught, outer⟩
  | ignored {state : State} {target : Target} {trap : Shared Trap} {outer : TrapStack} :
      trap.value.Ignores target →
        Passes ⟨state, target, trap :: outer⟩ [] ⟨state, target, outer⟩
  | resumed {state : State} {target : Target} {trap : Shared Trap} {outer : TrapStack}
      {saved : Continuation} {below : List Operand} :
      trap.value.rule = .insideFinally → state.operands = .continuation saved :: below →
        Passes ⟨state, target, trap :: outer⟩ []
          ⟨{ state with operands := below }, saved.target, saved.traps⟩
  | dropped {state : State} {target : Target} {trap : Shared Trap} {outer : TrapStack}
      {saved : Continuation} {below : List Operand} :
      trap.value.rule = .insideInlined → state.operands = .continuation saved :: below →
      saved.target = .ret →
        Passes ⟨state, target, trap :: outer⟩ [] ⟨{ state with operands := below }, target, outer⟩

variable {transfer rest : Transfer} {branches : List Successor} {state : State} {target : Target}
  {trap : Shared Trap} {outer : TrapStack}

theorem passes_of_throughClauses {thrown : Constraint} {clauses : List Clause}
    (isRule : trap.value.rule = .catches clauses)
    (passes : throughClauses state thrown clauses outer = .pass branches rest) :
    Passes ⟨state, .exception thrown, trap :: outer⟩ branches rest := by
  simp only [throughClauses] at passes
  split at passes
  · contradiction
  · next onward isOnward =>
      obtain ⟨uncaught, isUncaught, goesOn⟩ := Option.bind_eq_some_iff.mp isOnward
      obtain ⟨narrowed, narrows, isRest⟩ := Option.map_eq_some_iff.mp goesOn
      cases passes
      subst isRest
      exact .uncaught isRule isUncaught narrows

theorem passes_of_resumeSaved (isRule : trap.value.rule = .insideFinally)
    (passes : resumeSaved state target trap.value = .pass branches rest) :
    Passes ⟨state, target, trap :: outer⟩ branches rest := by
  unfold resumeSaved at passes
  split at passes
  · contradiction
  · next saved popped pops =>
      obtain ⟨below, isTop, isPopped⟩ := State.popContinuation?_eq_some pops
      cases passes
      subst isPopped
      exact .resumed isRule isTop

theorem passes_of_leaveInlined (isRule : trap.value.rule = .insideInlined)
    (passes : leaveInlined state target trap.value outer = .pass branches rest) :
    Passes ⟨state, target, trap :: outer⟩ branches rest := by
  unfold leaveInlined at passes
  split at passes
  · contradiction
  · next saved popped pops =>
      obtain ⟨below, isTop, isPopped⟩ := State.popContinuation?_eq_some pops
      split at passes
      · next isReturn =>
          cases passes
          subst isPopped
          exact .dropped isRule isTop isReturn
      · contradiction

theorem passes_of_step (passes : transfer.step = .pass branches rest) :
    Passes transfer branches rest := by
  obtain ⟨state, target, traps⟩ := transfer
  cases traps with
  | nil => cases target <;> simp [step, arrive] at passes
  | cons trap outer =>
      cases isRule : trap.value.rule with
      | catches clauses =>
          cases target with
          | exception thrown =>
              simp only [step, through, isRule] at passes
              exact passes_of_throughClauses isRule passes
          | _ =>
              simp only [step, through, isRule] at passes
              cases passes
              exact .ignored (by simp [Trap.Ignores, isRule, Target.isException])
      | catchAll handler =>
          cases target with
          | exception thrown => simp [step, through, isRule] at passes
          | _ =>
              simp only [step, through, isRule] at passes
              cases passes
              exact .ignored (by simp [Trap.Ignores, isRule, Target.isException])
      | enters entry =>
          simp only [step, through, isRule] at passes
          split at passes
          · simp [enterBody] at passes
          · next runsNot =>
              cases passes
              exact .ignored (by simpa [Trap.Ignores, isRule] using runsNot)
      | insideFinally =>
          simp only [step, through, isRule] at passes
          exact passes_of_resumeSaved isRule passes
      | insideInlined =>
          simp only [step, through, isRule] at passes
          exact passes_of_leaveInlined isRule passes

end Transfer

/-! ## Weights -/

/-- The traps that a saved continuation still has before it. -/
def Operand.savedTraps : Operand → TrapStack
  | .continuation saved => saved.traps
  | .constant _ => []

/-- The traps of all saved continuations. -/
def State.savedTraps (state : State) : TrapStack := state.operands.flatMap Operand.savedTraps

theorem State.savedTraps_of_top {state : State} {saved : Continuation} {below : List Operand}
    (isTop : state.operands = .continuation saved :: below) :
    state.savedTraps = saved.traps ++ State.savedTraps { state with operands := below } := by
  simp only [savedTraps, isTop, List.flatMap_cons, Operand.savedTraps]

theorem State.operands_of_narrow? {state narrowed : State} {learnt : Constraint}
    (narrows : state.narrow? learnt = some narrowed) : narrowed.operands = state.operands := by
  unfold narrow? at narrows
  split at narrows
  · cases Option.some.inj narrows
    rfl
  · obtain ⟨both, _, isNarrowed⟩ := Option.map_eq_some_iff.mp narrows
    subst isNarrowed
    rfl

namespace Transfer

variable {transfer rest : Transfer} {branches : List Successor}

def weight (transfer : Transfer) : Nat :=
  transfer.traps.length + transfer.state.savedTraps.length

theorem Passes.weight_lt (passes : Passes transfer branches rest) :
    rest.weight < transfer.weight := by
  cases passes with
  | uncaught _ _ narrows =>
      simp only [weight, State.savedTraps, State.operands_of_narrow? narrows, List.length_cons]
      omega
  | ignored _ =>
      simp only [weight, List.length_cons]
      omega
  | resumed _ isTop =>
      -- the saved traps only move from the state to the stack
      simp only [weight, State.savedTraps_of_top isTop, List.length_cons, List.length_append]
      omega
  | dropped _ isTop _ =>
      simp only [weight, State.savedTraps_of_top isTop, List.length_cons, List.length_append]
      omega

/-! ## Depth and outcome -/

/-- The outcome is there from the depth on, and nothing is there before. -/
structure EndsAt (transfer : Transfer) (depth : Nat)
    (outcome : Except Violation (List Successor)) : Prop where
  early : ∀ steps, steps < depth → transfer.run steps = none
  late : ∀ steps, depth ≤ steps → transfer.run steps = some outcome

theorem endsAt_one {outcome : Except Violation (List Successor)}
    (ends : ∀ steps, transfer.run (steps + 1) = some outcome) : transfer.EndsAt 1 outcome := by
  constructor
  · intro steps tooFew
    obtain rfl : steps = 0 := by omega
    rfl
  · intro steps enough
    obtain ⟨fewer, rfl⟩ : ∃ fewer, steps = fewer + 1 := ⟨steps - 1, by omega⟩
    exact ends fewer

theorem EndsAt.of_pass {depth : Nat} {outcome : Except Violation (List Successor)}
    (ends : rest.EndsAt depth outcome) (passes : transfer.step = .pass branches rest) :
    transfer.EndsAt (depth + 1) (outcome.map (branches ++ ·)) := by
  have runs : ∀ steps, transfer.run (steps + 1) =
      (rest.run steps).map fun outcome => outcome.map (branches ++ ·) := by
    intro steps
    rw [run, passes]
  constructor
  · intro steps tooFew
    cases steps with
    | zero => rfl
    | succ steps => rw [runs, ends.early steps (by omega), Option.map_none]
  · intro steps enough
    cases steps with
    | zero => omega
    | succ steps => rw [runs, ends.late steps (by omega), Option.map_some]

theorem exists_endsAt :
    ∀ {bound : Nat} {transfer : Transfer}, transfer.weight ≤ bound →
      ∃ depth outcome, 1 ≤ depth ∧ depth ≤ 1 + transfer.weight ∧
        transfer.EndsAt depth outcome := by
  intro bound
  -- every step that goes on takes something off the weight
  induction bound using Nat.strongRecOn with
  | ind bound induction =>
      intro transfer bounded
      cases isStep : transfer.step with
      | finish successors =>
          exact ⟨1, .ok successors, Nat.le_refl 1, by omega, endsAt_one fun _ => run_of_finish isStep⟩
      | fail violation =>
          exact ⟨1, .error violation, Nat.le_refl 1, by omega, endsAt_one fun _ => run_of_fail isStep⟩
      | pass branches rest =>
          have lighter := (passes_of_step isStep).weight_lt
          obtain ⟨depth, outcome, _, withinWeight, ends⟩ :=
            induction rest.weight (by omega) (Nat.le_refl rest.weight)
          exact ⟨depth + 1, _, by omega, by omega, ends.of_pass isStep⟩

/-- The number of steps has no influence on what a run comes to. -/
theorem run_unique {steps other : Nat} {outcome otherOutcome : Except Violation (List Successor)}
    (runs : transfer.run steps = some outcome) (otherRuns : transfer.run other = some otherOutcome) :
    outcome = otherOutcome := by
  obtain ⟨depth, common, _, _, ends⟩ := exists_endsAt (Nat.le_refl transfer.weight)
  have isCommon : ∀ {steps outcome}, transfer.run steps = some outcome → outcome = common := by
    intro steps outcome runs
    by_cases enough : depth ≤ steps
    · exact Option.some.inj (runs.symm.trans (ends.late steps enough))
    · rw [ends.early steps (by omega)] at runs
      contradiction
  rw [isCommon runs, isCommon otherRuns]

end Transfer

/-- What limits make of an outcome that needs the given depth. -/
def Limits.apply (limits : Limits) (depth : Nat) (outcome : Except Violation (List Successor)) :
    Except Error (List Successor) :=
  if limits.maxDepth < depth then .error (.recursionLimit limits.maxDepth)
  else
    match outcome with
    | .error violation => .error (.violation violation)
    | .ok successors =>
        if limits.maxSuccessors = 0 ∨ successors.length ≤ limits.maxSuccessors then .ok successors
        else .error (.successorLimit successors.length limits.maxSuccessors)

namespace Transfer

theorem EndsAt.dispatch {transfer : Transfer} {depth : Nat}
    {outcome : Except Violation (List Successor)} (ends : transfer.EndsAt depth outcome)
    (limits : Limits) : transfer.dispatch limits = limits.apply depth outcome := by
  by_cases shallow : limits.maxDepth < depth
  · simp only [Transfer.dispatch, resolve, ends.early limits.maxDepth shallow, Limits.apply,
      if_pos shallow]
  · simp only [Transfer.dispatch, resolve, ends.late limits.maxDepth (by omega), Limits.apply,
      if_neg shallow]
    cases outcome with
    | error violation => rfl
    | ok successors =>
        simp only
        by_cases fits : limits.maxSuccessors = 0 ∨ successors.length ≤ limits.maxSuccessors
        · rw [if_pos fits, if_neg (by omega)]
        · rw [if_neg fits, if_pos (by omega)]

/-- Every dispatch has a depth and an outcome that no limit changes: below the
depth the answer is the limit on the depth, and from there on it is the outcome,
or the limit on the successors if there are too many of them. -/
theorem dispatch_eq_apply_limits (transfer : Transfer) :
    ∃ depth outcome, 1 ≤ depth ∧
      depth ≤ 1 + transfer.traps.length + transfer.state.savedTraps.length ∧
      ∀ limits, transfer.dispatch limits = limits.apply depth outcome := by
  obtain ⟨depth, outcome, positive, withinWeight, ends⟩ :=
    exists_endsAt (Nat.le_refl transfer.weight)
  refine ⟨depth, outcome, positive, ?_, ends.dispatch⟩
  rw [weight] at withinWeight
  omega

-- A body that was entered from the end of another body needs every step that the bound allows.
example :
    let inside : Shared Trap := ⟨0, ⟨0⟩, .insideFinally⟩
    let entered : State :=
      ⟨.empty, [.continuation ⟨.ret, [inside]⟩, .continuation ⟨.ret, []⟩], none⟩
    dispatch ⟨2, 0⟩ ⟨entered, .ret, [inside]⟩ = .error (.recursionLimit 2) ∧
      dispatch ⟨3, 0⟩ ⟨entered, .ret, [inside]⟩ = .ok [.ret .initial] := ⟨rfl, rfl⟩

end Transfer

end Unwind
