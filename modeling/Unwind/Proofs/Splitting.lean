import Unwind.Proofs.CatchClauses
import Unwind.Proofs.Depth
import Unwind.Proofs.Lattice
import Unwind.Proofs.Vanishing

/-!
# One trap for each caught type

Catch clauses may list several types, and a trap may have several clauses.  The
same can be written as a stack of traps that catch one type each, the first type
innermost.  The two ways of writing differ in how they keep the state: within one
trap every branch narrows the state from before the trap, while in the stack it
has been narrowed to what each type has left over.

`narrow?_of_narrow?` says why this makes no difference.  Whatever is learnt later
is part of what was left over, and learning the part makes learning the whole
superfluous.  Once the state contradicts what is left over, the stack stops and
the trap goes on, but finds no further branch.
-/

set_option autoImplicit false

namespace Unwind

/-! ## Learning part of what is known -/

namespace Constraint

variable {known weaker stronger : Constraint}

theorem Rebuilt.meet_of_within (rebuilt : stronger.Rebuilt) (within : stronger.Within weaker) :
    weaker.meet stronger = some stronger := by
  have same : weaker.hierarchy = stronger.hierarchy := within.about.symm
  have normal : Normal stronger.hierarchy (weaker.meet stronger) := same ▸ normal_meet same
  refine normal.eq_of_leaves_iff rebuilt.normal fun identifier => ?_
  rw [leaves_meet same, leaves_some]
  exact ⟨And.right, fun admitted => ⟨within.admits identifier admitted, admitted⟩⟩

theorem Rebuilt.meet_bind_meet (rebuilt : stronger.Rebuilt) (within : stronger.Within weaker) :
    (known.meet weaker).bind (·.meet stronger) = known.meet stronger := by
  by_cases same : known.hierarchy = weaker.hierarchy
  · rw [meet_assoc same (same.trans within.about.symm), rebuilt.meet_of_within within,
      Option.bind_some]
  · have differ : known.hierarchy ≠ stronger.hierarchy := within.about ▸ same
    simp only [meet_of_ne same, meet_of_ne differ, Option.bind_some]

end Constraint

theorem State.narrow?_of_narrow? {state narrowed : State} {weaker stronger : Constraint}
    (rebuilt : stronger.Rebuilt) (within : stronger.Within weaker)
    (narrows : state.narrow? weaker = some narrowed) :
    narrowed.narrow? stronger = state.narrow? stronger := by
  have inTurn : narrowed.narrow? stronger = (state.narrow? weaker).bind (·.narrow? stronger) := by
    rw [narrows, Option.bind_some]
  rw [inTurn, narrow?_bind_narrow?]
  cases isKnown : state.exception with
  | none => simp only [rebuilt.meet_of_within within, narrow?, isKnown, Option.map_some]
  | some known => simp only [rebuilt.meet_bind_meet within, narrow?, isKnown]

/-! ## Sifting from a narrowed state -/

/-- The two states learn the same from any part of the constraint. -/
def State.LearnAlike (state other : State) (uncaught : Constraint) : Prop :=
  ∀ learnt : Constraint, learnt.Rebuilt → learnt.Within uncaught →
    state.narrow? learnt = other.narrow? learnt

section Sifting

variable {state other : State} {uncaught : Constraint} {arms : List Arm} {outer : TrapStack}

theorem State.LearnAlike.of_within {part : Constraint} (alike : state.LearnAlike other uncaught)
    (within : part.Within uncaught) : state.LearnAlike other part :=
  fun learnt rebuilt learntWithin => alike learnt rebuilt (learntWithin.trans within)

theorem State.learnAlike_of_narrow? (narrows : state.narrow? uncaught = some other) :
    other.LearnAlike state uncaught :=
  fun _ rebuilt within => narrow?_of_narrow? rebuilt within narrows

theorem Arm.branch?_congr (arm : Arm) (rebuilt : uncaught.Rebuilt)
    (alike : state.LearnAlike other uncaught) :
    arm.branch? state uncaught = arm.branch? other uncaught := by
  refine Option.bind_congr fun matched meets => ?_
  rw [alike matched (Constraint.rebuilt_of_meet rebuilt meets) (Constraint.within_of_meet meets)]

theorem sift_congr :
    ∀ {arms : List Arm} {uncaught : Constraint}, uncaught.Rebuilt →
      state.LearnAlike other uncaught → sift state uncaught arms = sift other uncaught arms := by
  intro arms
  induction arms with
  | nil =>
      intro uncaught _ _
      rfl
  | cons arm arms induction =>
      intro uncaught rebuilt alike
      have sameBranch := arm.branch?_congr rebuilt alike
      cases excludes : uncaught.exclude arm.caught with
      | none => rw [sift_cons_of_none excludes, sift_cons_of_none excludes, sameBranch]
      | some remaining =>
          have later := induction (Constraint.rebuilt_of_exclude rebuilt excludes)
            (alike.of_within (Constraint.within_of_exclude rebuilt.satisfiable excludes))
          rw [sift_cons_of_some excludes, sift_cons_of_some excludes, sameBranch, later]

theorem within_of_sift :
    ∀ {arms : List Arm} {uncaught rest : Constraint}, uncaught.Rebuilt →
      (sift state uncaught arms).uncaught = some rest → rest.Rebuilt ∧ rest.Within uncaught := by
  intro arms
  induction arms with
  | nil =>
      intro uncaught rest rebuilt isRest
      cases Option.some.inj isRest
      exact ⟨rebuilt, .refl uncaught⟩
  | cons arm arms induction =>
      intro uncaught rest rebuilt isRest
      cases excludes : uncaught.exclude arm.caught with
      | none => simp [sift_cons_of_none excludes] at isRest
      | some remaining =>
          rw [sift_cons_of_some excludes] at isRest
          obtain ⟨restRebuilt, within⟩ :=
            induction (Constraint.rebuilt_of_exclude rebuilt excludes) isRest
          exact ⟨restRebuilt,
            within.trans (Constraint.within_of_exclude rebuilt.satisfiable excludes)⟩

end Sifting

/-! ## The step after sifting -/

/-- The branches end the step, unless something is uncaught and agrees with the
state. -/
def Sifted.step (sifted : Sifted) (state : State) (outer : TrapStack) : Step :=
  match sifted.uncaught.bind fun uncaught =>
    (state.narrow? uncaught).map fun narrowed =>
      (⟨narrowed, .exception uncaught, outer⟩ : Transfer) with
  | none => .finish sifted.caught
  | some rest => .pass sifted.caught rest

namespace Step

/-- The outcome of a step that is followed by so many others. -/
def outcome (steps : Nat) : Step → Option (Except Violation (List Successor))
  | .finish successors => some (.ok successors)
  | .fail violation => some (.error violation)
  | .pass branches rest => (rest.run steps).map fun outcome => outcome.map (branches ++ ·)

/-- The step with more branches before its own. -/
def after (earlier : List Successor) : Step → Step
  | .finish successors => .finish (earlier ++ successors)
  | .fail violation => .fail violation
  | .pass branches rest => .pass (earlier ++ branches) rest

theorem outcome_after (earlier : List Successor) (steps : Nat) (step : Step) :
    (step.after earlier).outcome steps =
      (step.outcome steps).map fun outcome => outcome.map (earlier ++ ·) := by
  cases step with
  | finish successors => rfl
  | fail violation => rfl
  | pass branches rest =>
      simp only [after, outcome, Option.map_map]
      congr 1
      funext result
      cases result <;> simp [Except.map]

end Step

section Steps

variable {state narrowed : State} {uncaught : Constraint} {sifted : Sifted} {arms : List Arm}
  {outer : TrapStack} {here : List Branch}

theorem Sifted.step_append :
    Sifted.step ⟨here ++ sifted.branches, sifted.uncaught⟩ state outer =
      (sifted.step state outer).after (here.map Branch.successor) := by
  simp only [Sifted.step, Sifted.caught, List.map_append]
  split <;> rfl

/-- Sifting a contradicted exception finds nothing. -/
theorem step_sift_of_infeasible (rebuilt : uncaught.Rebuilt)
    (infeasible : state.narrow? uncaught = none) :
    (sift state uncaught arms).step state outer = .finish [] := by
  have contradicts := State.narrow?_eq_none_iff_contradicts.mp infeasible
  obtain ⟨noBranches, restContradicts⟩ : (sift state uncaught arms).branches = [] ∧ _ :=
    sift_of_contradicts rebuilt.satisfiable contradicts
  cases isUncaught : (sift state uncaught arms).uncaught with
  | none => simp [Sifted.step, Sifted.caught, isUncaught, noBranches]
  | some rest =>
      have restInfeasible :=
        State.narrow?_eq_none_iff_contradicts.mpr (restContradicts rest isUncaught)
      simp [Sifted.step, Sifted.caught, isUncaught, restInfeasible, noBranches]

/-- Sifting an exception makes no difference between a state and the same state
with the exception learnt. -/
theorem step_sift_of_narrow? (rebuilt : uncaught.Rebuilt)
    (narrows : state.narrow? uncaught = some narrowed) :
    (sift state uncaught arms).step state outer =
      (sift narrowed uncaught arms).step narrowed outer := by
  have alike := State.learnAlike_of_narrow? narrows
  rw [sift_congr rebuilt alike]
  cases isUncaught : (sift state uncaught arms).uncaught with
  | none => simp only [Sifted.step, isUncaught, Option.bind_none]
  | some rest =>
      obtain ⟨restRebuilt, within⟩ := within_of_sift rebuilt isUncaught
      simp only [Sifted.step, isUncaught, Option.bind_some, alike rest restRebuilt within]

end Steps

/-! ## The traps of a stack -/

def Arm.clause (arm : Arm) : Clause := ⟨[arm.caught], arm.handler⟩

/-- A trap of its own for each caught type, the first one innermost. -/
def TrapStack.Splits (inner : TrapStack) (clauses : List Clause) : Prop :=
  List.Forall₂ (fun trap arm => Trap.ofClauses trap.value.region [arm.clause] = .ok trap.value)
    inner (clauses.flatMap Clause.arms)

/-- Accepted clauses are those of the trap, and they catch something. -/
theorem Trap.catches_of_ofClauses {region : Region} {clauses : List Clause} {trap : Trap}
    (accepted : Trap.ofClauses region clauses = .ok trap) :
    trap.rule = .catches clauses ∧ clauses.flatMap Clause.arms ≠ [] := by
  obtain ⟨wellFormed, rfl⟩ := ofClauses_eq_ok_iff.mp accepted
  refine ⟨rfl, ?_⟩
  cases clauses with
  | nil => exact absurd rfl wellFormed.nonempty
  | cons clause rest => simp [Clause.arms, wellFormed.typed clause List.mem_cons_self]

namespace Transfer

variable {limits : Limits} {state : State} {thrown : Constraint} {trap : Shared Trap}
  {inner outer around : TrapStack} {arm : Arm} {arms : List Arm} {clauses : List Clause}
  {steps more : Nat}

theorem run_succ (steps : Nat) (transfer : Transfer) :
    transfer.run (steps + 1) = transfer.step.outcome steps := by
  rw [run]
  cases transfer.step <;> rfl

theorem step_eq_sifted (isRule : trap.value.rule = .catches clauses) :
    step ⟨state, .exception thrown, trap :: outer⟩ =
      (sift state thrown (clauses.flatMap Clause.arms)).step state outer :=
  step_of_catches isRule

/-- Where nothing is caught, the exception goes on as soon as the state has learnt
it. -/
theorem outcome_sift_nil {narrowed : State} (narrows : state.narrow? thrown = some narrowed) :
    ((sift state thrown []).step state outer).outcome steps =
      run steps ⟨narrowed, .exception thrown, outer⟩ := by
  have passes : (sift state thrown []).step state outer =
      .pass [] ⟨narrowed, .exception thrown, outer⟩ := by
    simp [sift, Sifted.step, Sifted.caught, narrows]
  rw [passes, Step.outcome]
  cases run steps ⟨narrowed, .exception thrown, outer⟩ with
  | none => rfl
  | some outcome => cases outcome <;> rfl

/-- The trap of the first arm comes to what a trap of all arms does, if the traps
around it do for the other arms and every state that has learnt the exception. -/
theorem run_split_cons (isRule : trap.value.rule = .catches [arm.clause]) (rebuilt : thrown.Rebuilt)
    (later : ∀ {narrowed : State} {remaining : Constraint}, remaining.Rebuilt →
      narrowed.narrow? remaining = some narrowed →
        run more ⟨narrowed, .exception remaining, around⟩ =
          ((sift narrowed remaining arms).step narrowed outer).outcome steps) :
    run (more + 1) ⟨state, .exception thrown, trap :: around⟩ =
      ((sift state thrown (arm :: arms)).step state outer).outcome steps := by
  have isStep : step ⟨state, .exception thrown, trap :: around⟩ =
      (sift state thrown [arm]).step state around := step_eq_sifted isRule
  rw [run_succ, isStep]
  cases excludes : thrown.exclude arm.caught with
  | none =>
      rw [sift_cons_of_none excludes, sift_cons_of_none excludes]
      rfl
  | some remaining =>
      have restRebuilt := Constraint.rebuilt_of_exclude rebuilt excludes
      rw [sift_cons_of_some excludes, sift_cons_of_some excludes, Sifted.step_append,
        Sifted.step_append, Step.outcome_after, Step.outcome_after]
      congr 1
      cases narrows : state.narrow? remaining with
      | none =>
          -- the stack stops here, and the one trap finds nothing more
          rw [step_sift_of_infeasible restRebuilt narrows, step_sift_of_infeasible restRebuilt narrows]
          rfl
      | some narrowed =>
          have learnt : narrowed.narrow? remaining = some narrowed :=
            (State.narrow?_of_narrow? restRebuilt (.refl remaining) narrows).trans narrows
          calc ((sift state remaining []).step state around).outcome more
            _ = run more ⟨narrowed, .exception remaining, around⟩ := outcome_sift_nil narrows
            _ = ((sift narrowed remaining arms).step narrowed outer).outcome steps :=
                later restRebuilt learnt
            _ = ((sift state remaining arms).step state outer).outcome steps := by
                rw [step_sift_of_narrow? restRebuilt narrows]

theorem run_split {traps : TrapStack}
    (splits : List.Forall₂
      (fun trap arm => Trap.ofClauses trap.value.region [arm.clause] = .ok trap.value) traps arms) :
    ∀ {state : State} {thrown : Constraint}, thrown.Rebuilt → state.narrow? thrown = some state →
      run (steps + traps.length) ⟨state, .exception thrown, traps ++ outer⟩ =
        ((sift state thrown arms).step state outer).outcome steps := by
  induction splits with
  | nil =>
      intro state thrown _ learnt
      exact (outcome_sift_nil learnt).symm
  | cons accepted _ induction =>
      intro state thrown rebuilt _
      exact run_split_cons (Trap.catches_of_ofClauses accepted).1 rebuilt induction

/-- The stack of traps needs a step for each of them where the one trap needs a
single step, and comes to the same. -/
theorem run_eq_run_split {region : Region} (rebuilt : thrown.Rebuilt)
    (accepted : Trap.ofClauses region clauses = .ok trap.value) (splits : inner.Splits clauses) :
    run (steps + 1) ⟨state, .exception thrown, trap :: outer⟩ =
      run (steps + inner.length) ⟨state, .exception thrown, inner ++ outer⟩ := by
  obtain ⟨isRule, someArm⟩ := Trap.catches_of_ofClauses accepted
  rw [run_succ, step_eq_sifted isRule]
  rw [TrapStack.Splits] at splits
  generalize clauses.flatMap Clause.arms = arms at splits someArm
  cases splits with
  | nil => contradiction
  | cons firstAccepted others =>
      -- the state may know nothing of the exception yet, so the first trap is taken by itself
      exact (run_split_cons (Trap.catches_of_ofClauses firstAccepted).1 rebuilt
        (run_split others)).symm

theorem exists_run_of_dispatch_ne {transfer : Transfer}
    (shallow : transfer.dispatch limits ≠ .error (.recursionLimit limits.maxDepth)) :
    ∃ outcome, transfer.run limits.maxDepth = some outcome := by
  cases runs : transfer.run limits.maxDepth with
  | none => exact absurd (by simp only [dispatch, resolve, runs]) shallow
  | some outcome => exact ⟨outcome, rfl⟩

/-- One trap and the stack of traps that it splits into dispatch an exception
alike, unless one of them runs out of steps: they fail for the same reason, have
too many successors alike, or have the same successors.  The caught types and the
constraint of the state may be about any hierarchies. -/
theorem dispatch_eq_dispatch_split {region : Region} (state : State) (outer : TrapStack)
    (formed : thrown.Formed) (accepted : Trap.ofClauses region clauses = .ok trap.value)
    (splits : inner.Splits clauses)
    (shallow : dispatch limits ⟨state, .exception thrown, trap :: outer⟩ ≠
      .error (.recursionLimit limits.maxDepth))
    (splitShallow : dispatch limits ⟨state, .exception thrown, inner ++ outer⟩ ≠
      .error (.recursionLimit limits.maxDepth)) :
    dispatch limits ⟨state, .exception thrown, trap :: outer⟩ =
      dispatch limits ⟨state, .exception thrown, inner ++ outer⟩ := by
  obtain ⟨outcome, runs⟩ := exists_run_of_dispatch_ne shallow
  obtain ⟨splitOutcome, splitRuns⟩ := exists_run_of_dispatch_ne splitShallow
  have deepRuns : ∃ steps, run steps ⟨state, .exception thrown, inner ++ outer⟩ = some outcome := by
    cases isDepth : limits.maxDepth with
    | zero => simp [isDepth, run] at runs
    | succ steps =>
        refine ⟨steps + inner.length, ?_⟩
        rw [← run_eq_run_split formed.rebuilt accepted splits, ← isDepth, runs]
  obtain ⟨steps, deepRuns⟩ := deepRuns
  have same : outcome = splitOutcome := run_unique deepRuns splitRuns
  simp only [dispatch, resolve, runs, splitRuns, same]

/-- Two types in one clause, one of them over a hierarchy of its own, and a second
clause.  The state rules the first type out. -/
theorem dispatch_split_not_io :
    let foreign : Shared Hierarchy := ⟨1, Hierarchy.throwables.value⟩
    let io := Constraint.instanceOf Hierarchy.throwables ⟨2⟩
    let sql := Constraint.instanceOf Hierarchy.throwables ⟨3⟩
    let thrown := Constraint.instanceOf Hierarchy.throwables ⟨1⟩
    let notIo : Constraint := ⟨Hierarchy.throwables, ⟨1⟩, [⟨2⟩]⟩
    let neither : Constraint := ⟨Hierarchy.throwables, ⟨1⟩, [⟨2⟩, ⟨3⟩]⟩
    let other := Constraint.instanceOf foreign ⟨0⟩
    let state : State := ⟨⟨[("x", 1)]⟩, [.constant 7], some notIo⟩
    let whole : Shared Trap := ⟨0, ⟨0⟩, .catches [⟨[io, other], ⟨10⟩⟩, ⟨[sql], ⟨20⟩⟩]⟩
    let inner : TrapStack :=
      [⟨1, ⟨0⟩, .catches [⟨[io], ⟨10⟩⟩]⟩, ⟨2, ⟨0⟩, .catches [⟨[other], ⟨10⟩⟩]⟩,
        ⟨3, ⟨0⟩, .catches [⟨[sql], ⟨20⟩⟩]⟩]
    let outer : TrapStack := [⟨4, ⟨1⟩, .enters ⟨⟨0⟩, .resource, ⟨50⟩⟩⟩]
    dispatch .strict ⟨state, .exception thrown, inner ++ outer⟩ =
        .ok [.instruction ⟨10⟩ state, .instruction ⟨20⟩ { state with exception := some sql },
          .escape neither { state with exception := some neither }] ∧
      dispatch .strict ⟨state, .exception thrown, whole :: outer⟩ =
        dispatch .strict ⟨state, .exception thrown, inner ++ outer⟩ := by
  intro foreign io sql thrown notIo neither other state whole inner outer
  have dispatches : dispatch .strict ⟨state, .exception thrown, inner ++ outer⟩ =
      .ok [.instruction ⟨10⟩ state, .instruction ⟨20⟩ { state with exception := some sql },
        .escape neither { state with exception := some neither }] := by decide +kernel
  have wholeDispatches : dispatch .strict ⟨state, .exception thrown, whole :: outer⟩ =
      .ok [.instruction ⟨10⟩ state, .instruction ⟨20⟩ { state with exception := some sql },
        .escape neither { state with exception := some neither }] := by decide +kernel
  have accepted : Trap.ofClauses ⟨0⟩ [⟨[io, other], ⟨10⟩⟩, ⟨[sql], ⟨20⟩⟩] = .ok whole.value := by
    simp [Trap.ofClauses, Trap.clauseDefect?, whole]
  have splits : inner.Splits [⟨[io, other], ⟨10⟩⟩, ⟨[sql], ⟨20⟩⟩] :=
    .cons rfl (.cons rfl (.cons rfl .nil))
  refine ⟨dispatches, dispatch_eq_dispatch_split state outer (.instanceOf _ _) accepted splits ?_ ?_⟩
  · rw [wholeDispatches]
    simp
  · rw [dispatches]
    simp

end Transfer

end Unwind
