import Mathlib.Data.List.Forall2
import Unwind.Proofs.Narrowing
import Unwind.Proofs.Runs

/-!
# Less precise exceptions

Knowing less about a thrown exception never hides where it may go.  `Within`
compares two constraints, and with them targets, states and successors: the
second one leaves open whatever the first one does.  Intersection, removal of
what was caught and narrowing all keep this order, also where caught types have
exclusions of their own.

The two runs of a dispatch may end at different traps, since the less precise
one may go on where the other has been caught.  Step by step, though, it reaches
every trap that the precise one reaches, with a state that knows no more.
-/

set_option autoImplicit false

namespace Unwind

/-! ## The order of precision -/

/-- The second constraint admits what the first one admits. -/
structure Constraint.Within (first second : Constraint) : Prop where
  about : first.hierarchy = second.hierarchy
  admits : ∀ identifier, first.Admits identifier → second.Admits identifier

theorem Constraint.Within.refl (constraint : Constraint) : constraint.Within constraint :=
  ⟨rfl, fun _ => id⟩

theorem Constraint.Within.trans {first second third : Constraint} (within : first.Within second)
    (further : second.Within third) : first.Within third :=
  ⟨within.about.trans further.about, fun identifier admitted =>
    further.admits identifier (within.admits identifier admitted)⟩

theorem Constraint.Within.satisfiable {first second : Constraint} (within : first.Within second)
    (satisfiable : first.Satisfiable) : second.Satisfiable :=
  satisfiable_of_admits (within.admits first.upper satisfiable)

def Target.Within : Target → Target → Prop
  | .exception first, .exception second => first.Within second
  | first, second => first = second

theorem Target.Within.refl (target : Target) : target.Within target := by
  cases target with
  | exception thrown => exact Constraint.Within.refl thrown
  | _ => rfl

structure Continuation.Within (first second : Continuation) : Prop where
  target : first.target.Within second.target
  traps : first.traps = second.traps

def Operand.Within : Operand → Operand → Prop
  | .continuation first, .continuation second => first.Within second
  | first, second => first = second

theorem Operand.Within.refl (operand : Operand) : operand.Within operand := by
  cases operand with
  | continuation saved => exact ⟨Target.Within.refl saved.target, rfl⟩
  | constant value => rfl

/-- The second state knows no more about the exception than the first, nor about
those that are saved, and the same about everything else. -/
structure State.Within (first second : State) : Prop where
  bindings : first.bindings = second.bindings
  operands : List.Forall₂ Operand.Within first.operands second.operands
  about : ∀ known ∈ first.exception, ∀ other ∈ second.exception,
    known.hierarchy = other.hierarchy
  admits : ∀ identifier, first.Admits identifier → second.Admits identifier

theorem State.Within.refl (state : State) : state.Within state := by
  refine ⟨rfl, ?_, ?_, fun _ => id⟩
  · exact List.forall₂_same.mpr fun operand _ => Operand.Within.refl operand
  · intro known isKnown other isOther
    cases Option.some.inj (isKnown.symm.trans isOther)
    rfl

theorem State.Within.push {first second : State} {operand other : Operand}
    (within : first.Within second) (operandWithin : operand.Within other) :
    (first.push operand).Within (second.push other) :=
  ⟨within.bindings, .cons operandWithin within.operands, within.about, within.admits⟩

def Successor.Within : Successor → Successor → Prop
  | .instruction offset first, .instruction other second => offset = other ∧ first.Within second
  | .escape exception first, .escape other second =>
      exception.Within other ∧ first.Within second
  | .ret first, .ret second => first.Within second
  | _, _ => False

/-- Every successor of the first list has one in the second that knows no more. -/
def CoveredBy (first second : List Successor) : Prop :=
  ∀ successor ∈ first, ∃ other ∈ second, successor.Within other

theorem coveredBy_singleton {first second : Successor} (within : first.Within second) :
    CoveredBy [first] [second] := by
  intro successor member
  cases List.mem_singleton.mp member
  exact ⟨second, List.mem_singleton_self second, within⟩

theorem CoveredBy.append {first second firstLater secondLater : List Successor}
    (covered : CoveredBy first second) (laterCovered : CoveredBy firstLater secondLater) :
    CoveredBy (first ++ firstLater) (second ++ secondLater) := by
  intro successor member
  rcases List.mem_append.mp member with here | later
  · obtain ⟨other, inSecond, within⟩ := covered successor here
    exact ⟨other, List.mem_append_left _ inSecond, within⟩
  · obtain ⟨other, inLater, within⟩ := laterCovered successor later
    exact ⟨other, List.mem_append_right _ inLater, within⟩

theorem CoveredBy.append_right {first second : List Successor} (covered : CoveredBy first second)
    (more : List Successor) : CoveredBy first (second ++ more) := by
  intro successor member
  obtain ⟨other, inSecond, within⟩ := covered successor member
  exact ⟨other, List.mem_append_left more inSecond, within⟩

/-! ## Operations on constraints and states -/

namespace Constraint

variable {first second caught matched remaining : Constraint}

theorem within_of_meet (meets : first.meet second = some matched) : matched.Within first := by
  by_cases same : first.hierarchy = second.hierarchy
  · refine ⟨hierarchy_of_meet meets, ?_⟩
    intro identifier admitted
    exact ((admits_of_meet same meets).mp admitted).1
  · rw [meet, if_pos same] at meets
    cases Option.some.inj meets
    exact Within.refl first

theorem within_of_exclude (satisfiable : first.Satisfiable)
    (excludes : first.exclude caught = some remaining) : remaining.Within first := by
  by_cases same : first.hierarchy = caught.hierarchy
  · refine ⟨hierarchy_of_exclude excludes, ?_⟩
    intro identifier admitted
    exact ((admits_of_exclude same satisfiable excludes).mp admitted).1
  · rw [exclude, if_pos same] at excludes
    cases Option.some.inj excludes
    exact Within.refl first

/-- An answer that leaves open whatever a possible constraint admits is there, and
is less precise. -/
theorem exists_within_of_leaves {answer : Option Constraint} (satisfiable : first.Satisfiable)
    (about : ∀ wider ∈ answer, first.hierarchy = wider.hierarchy)
    (leaves : ∀ identifier, first.Admits identifier → Leaves answer identifier) :
    ∃ wider, answer = some wider ∧ first.Within wider := by
  cases answer with
  | none => exact absurd (leaves first.upper satisfiable) leaves_none
  | some wider =>
      refine ⟨wider, rfl, about wider rfl, ?_⟩
      intro identifier admitted
      exact leaves_some.mp (leaves identifier admitted)

theorem Within.meet (within : first.Within second) (same : first.hierarchy = caught.hierarchy)
    (meets : first.meet caught = some matched) :
    ∃ wider, second.meet caught = some wider ∧ matched.Within wider := by
  apply exists_within_of_leaves (satisfiable_of_meet same meets)
  · intro wider meetsWider
    rw [hierarchy_of_meet meets, hierarchy_of_meet meetsWider, within.about]
  · intro identifier admitted
    obtain ⟨firstAdmits, caughtAdmits⟩ := (admits_of_meet same meets).mp admitted
    rw [leaves_meet (within.about.symm.trans same)]
    exact ⟨within.admits identifier firstAdmits, caughtAdmits⟩

theorem Within.exclude (within : first.Within second) (satisfiable : first.Satisfiable)
    (same : first.hierarchy = caught.hierarchy)
    (excludes : first.exclude caught = some remaining) :
    ∃ wider, second.exclude caught = some wider ∧ remaining.Within wider := by
  apply exists_within_of_leaves (satisfiable_of_exclude satisfiable excludes)
  · intro wider excludesWider
    rw [hierarchy_of_exclude excludes, hierarchy_of_exclude excludesWider, within.about]
  · intro identifier admitted
    rw [← leaves_some, ← excludes, leaves_exclude same satisfiable] at admitted
    rw [leaves_exclude (within.about.symm.trans same) (within.satisfiable satisfiable),
      ← within.about]
    exact ⟨within.admits identifier admitted.1, admitted.2⟩

end Constraint

/-- An exception and a state of one hierarchy, and less precise ones. -/
structure Widens (hierarchy : Shared Hierarchy) (state : State) (thrown : Constraint)
    (widerState : State) (widerThrown : Constraint) : Prop where
  about : thrown.hierarchy = hierarchy
  satisfiable : thrown.Satisfiable
  thrownWithin : thrown.Within widerThrown
  stateOver : state.Over hierarchy
  widerOver : widerState.Over hierarchy
  stateWithin : state.Within widerState

section Steps

variable {hierarchy : Shared Hierarchy} {state widerState : State}
  {thrown widerThrown : Constraint}

theorem Widens.narrow? {narrowed : State}
    (widens : Widens hierarchy state thrown widerState widerThrown)
    (narrows : state.narrow? thrown = some narrowed) :
    ∃ wider, widerState.narrow? widerThrown = some wider ∧
      Widens hierarchy narrowed thrown wider widerThrown := by
  have widerAbout : widerThrown.hierarchy = hierarchy :=
    widens.thrownWithin.about.symm.trans widens.about
  have widerSatisfiable := widens.thrownWithin.satisfiable widens.satisfiable
  have learns := State.learns_of_narrow? widens.stateOver widens.about widens.satisfiable narrows
  have feasible : widerState.narrow? widerThrown ≠ none := by
    intro infeasible
    rw [State.narrow?_eq_none_iff widens.widerOver widerAbout widerSatisfiable] at infeasible
    obtain ⟨identifier, admitted⟩ := learns.possible
    obtain ⟨stateAdmits, thrownAdmits⟩ := (learns.admits_iff identifier).mp admitted
    exact infeasible identifier ⟨widens.stateWithin.admits identifier stateAdmits,
      widens.thrownWithin.admits identifier thrownAdmits⟩
  obtain ⟨wider, widerNarrows⟩ := Option.ne_none_iff_exists'.mp feasible
  have widerLearns :=
    State.learns_of_narrow? widens.widerOver widerAbout widerSatisfiable widerNarrows
  refine ⟨wider, widerNarrows, widens.about, widens.satisfiable, widens.thrownWithin, learns.about,
    widerLearns.about, ?_, ?_, ?_, ?_⟩
  · rw [learns.frame, widerLearns.frame]
    exact widens.stateWithin.bindings
  · rw [learns.frame, widerLearns.frame]
    exact widens.stateWithin.operands
  · intro known isKnown other isOther
    rw [learns.about known isKnown, widerLearns.about other isOther]
  · intro identifier admitted
    obtain ⟨stateAdmits, thrownAdmits⟩ := (learns.admits_iff identifier).mp admitted
    exact (widerLearns.admits_iff identifier).mpr
      ⟨widens.stateWithin.admits identifier stateAdmits,
        widens.thrownWithin.admits identifier thrownAdmits⟩

/-! ## Catch clauses -/

theorem Widens.branch? {arm : Arm} {branch : Branch}
    (widens : Widens hierarchy state thrown widerState widerThrown)
    (armOver : arm.caught.hierarchy = hierarchy)
    (branches : arm.branch? state thrown = some branch) :
    ∃ wider, arm.branch? widerState widerThrown = some wider ∧
      branch.successor.Within wider.successor := by
  have same : thrown.hierarchy = arm.caught.hierarchy := widens.about.trans armOver.symm
  obtain ⟨matched, meets, goesOn⟩ := Option.bind_eq_some_iff.mp branches
  obtain ⟨narrowed, narrows, isBranch⟩ := Option.map_eq_some_iff.mp goesOn
  obtain ⟨widerMatched, widerMeets, matchedWithin⟩ := widens.thrownWithin.meet same meets
  have matchedWidens : Widens hierarchy state matched widerState widerMatched :=
    ⟨(Constraint.hierarchy_of_meet meets).trans widens.about,
      Constraint.satisfiable_of_meet same meets, matchedWithin, widens.stateOver,
      widens.widerOver, widens.stateWithin⟩
  obtain ⟨wider, widerNarrows, narrowedWidens⟩ := matchedWidens.narrow? narrows
  refine ⟨⟨arm.handler, widerMatched, wider⟩, ?_, ?_⟩
  · simp [Arm.branch?, widerMeets, widerNarrows]
  · subst isBranch
    exact ⟨rfl, narrowedWidens.stateWithin⟩

theorem Widens.exclude {arm : Arm} {remaining : Constraint}
    (widens : Widens hierarchy state thrown widerState widerThrown)
    (armOver : arm.caught.hierarchy = hierarchy)
    (excludes : thrown.exclude arm.caught = some remaining) :
    ∃ wider, widerThrown.exclude arm.caught = some wider ∧
      Widens hierarchy state remaining widerState wider := by
  have same : thrown.hierarchy = arm.caught.hierarchy := widens.about.trans armOver.symm
  obtain ⟨wider, widerExcludes, remainingWithin⟩ :=
    widens.thrownWithin.exclude widens.satisfiable same excludes
  exact ⟨wider, widerExcludes, (Constraint.hierarchy_of_exclude excludes).trans widens.about,
    Constraint.satisfiable_of_exclude widens.satisfiable excludes, remainingWithin,
    widens.stateOver, widens.widerOver, widens.stateWithin⟩

/-- The successors of the branches. -/
def Sifted.caught (sifted : Sifted) : List Successor := sifted.branches.map Branch.successor

theorem sift_caught_cons (state : State) (thrown : Constraint) (arm : Arm) (arms : List Arm) :
    ∃ more, (sift state thrown (arm :: arms)).caught =
      (arm.branch? state thrown).toList.map Branch.successor ++ more := by
  cases excludes : thrown.exclude arm.caught with
  | none => exact ⟨[], by simp [sift_cons_of_none excludes, Sifted.caught]⟩
  | some remaining =>
      exact ⟨(sift state remaining arms).caught,
        by simp [sift_cons_of_some excludes, Sifted.caught]⟩

theorem sift_widens :
    ∀ {arms : List Arm} {thrown widerThrown : Constraint},
      Widens hierarchy state thrown widerState widerThrown →
      (∀ arm ∈ arms, arm.caught.hierarchy = hierarchy) →
        CoveredBy (sift state thrown arms).caught
            (sift widerState widerThrown arms).caught ∧
          ∀ uncaught, (sift state thrown arms).uncaught = some uncaught →
            ∃ wider, (sift widerState widerThrown arms).uncaught = some wider ∧
              Widens hierarchy state uncaught widerState wider := by
  intro arms
  induction arms with
  | nil =>
      intro thrown widerThrown widens _
      refine ⟨nofun, ?_⟩
      intro uncaught isUncaught
      cases Option.some.inj isUncaught
      exact ⟨widerThrown, rfl, widens⟩
  | cons arm arms induction =>
      intro thrown widerThrown widens armsOver
      have armOver := armsOver arm List.mem_cons_self
      have here : CoveredBy ((arm.branch? state thrown).toList.map Branch.successor)
          ((arm.branch? widerState widerThrown).toList.map Branch.successor) := by
        cases branches : arm.branch? state thrown with
        | none => exact nofun
        | some branch =>
            obtain ⟨wider, widerBranches, within⟩ := widens.branch? armOver branches
            rw [widerBranches]
            exact coveredBy_singleton within
      cases excludes : thrown.exclude arm.caught with
      | none =>
          -- the precise exception is caught for good, and the other one may go on
          obtain ⟨more, isCaught⟩ := sift_caught_cons widerState widerThrown arm arms
          refine ⟨?_, by simp [sift_cons_of_none excludes]⟩
          rw [isCaught, sift_cons_of_none excludes]
          exact here.append_right more
      | some remaining =>
          obtain ⟨wider, widerExcludes, remainingWidens⟩ := widens.exclude armOver excludes
          obtain ⟨later, onward⟩ := induction remainingWidens fun other member =>
            armsOver other (List.mem_cons_of_mem arm member)
          rw [sift_cons_of_some excludes, sift_cons_of_some widerExcludes]
          refine ⟨?_, onward⟩
          simp only [Sifted.caught, List.map_append] at later ⊢
          exact here.append later

variable {outer : TrapStack}

theorem throughClauses_finishes_or_passes (state : State) (thrown : Constraint)
    (clauses : List Clause) (outer : TrapStack) :
    let caught := (sift state thrown (clauses.flatMap Clause.arms)).caught
    Transfer.throughClauses state thrown clauses outer = .finish caught ∨
      ∃ narrowed uncaught, Transfer.throughClauses state thrown clauses outer =
        .pass caught ⟨narrowed, .exception uncaught, outer⟩ := by
  cases isUncaught : (sift state thrown (clauses.flatMap Clause.arms)).uncaught with
  | none => exact .inl (Transfer.throughClauses_of_caught isUncaught)
  | some uncaught =>
      cases narrows : state.narrow? uncaught with
      | none => exact .inl (Transfer.throughClauses_of_infeasible isUncaught narrows)
      | some narrowed =>
          exact .inr ⟨narrowed, uncaught, Transfer.throughClauses_of_narrow? isUncaught narrows⟩

/-- Clauses that pass on the precise exception pass on the other one as well. -/
theorem throughClauses_widens {clauses : List Clause}
    (widens : Widens hierarchy state thrown widerState widerThrown)
    (armsOver : ∀ arm ∈ clauses.flatMap Clause.arms, arm.caught.hierarchy = hierarchy) :
    let caught := (sift state thrown (clauses.flatMap Clause.arms)).caught
    let widerCaught := (sift widerState widerThrown (clauses.flatMap Clause.arms)).caught
    CoveredBy caught widerCaught ∧
      (Transfer.throughClauses state thrown clauses outer = .finish caught ∨
        ∃ narrowed uncaught wider widerUncaught,
          Transfer.throughClauses state thrown clauses outer =
              .pass caught ⟨narrowed, .exception uncaught, outer⟩ ∧
            Transfer.throughClauses widerState widerThrown clauses outer =
              .pass widerCaught ⟨wider, .exception widerUncaught, outer⟩ ∧
            Widens hierarchy narrowed uncaught wider widerUncaught) := by
  intro caught widerCaught
  obtain ⟨covered, onward⟩ := sift_widens widens armsOver
  refine ⟨covered, ?_⟩
  cases isUncaught : (sift state thrown (clauses.flatMap Clause.arms)).uncaught with
  | none => exact .inl (Transfer.throughClauses_of_caught isUncaught)
  | some uncaught =>
      obtain ⟨widerUncaught, isWider, uncaughtWidens⟩ := onward uncaught isUncaught
      cases narrows : state.narrow? uncaught with
      | none => exact .inl (Transfer.throughClauses_of_infeasible isUncaught narrows)
      | some narrowed =>
          obtain ⟨wider, widerNarrows, narrowedWidens⟩ := uncaughtWidens.narrow? narrows
          exact .inr ⟨narrowed, uncaught, wider, widerUncaught,
            Transfer.throughClauses_of_narrow? isUncaught narrows,
            Transfer.throughClauses_of_narrow? isWider widerNarrows, narrowedWidens⟩

end Steps

/-! ## Traps -/

/-- Catch clauses with types of the hierarchy, a handler for every exception, or
the entry of a finally body. -/
def TrapRule.TypedOver (hierarchy : Shared Hierarchy) : TrapRule → Prop
  | .catches clauses => ∀ clause ∈ clauses, ∀ caught ∈ clause.types, caught.hierarchy = hierarchy
  | .catchAll _ | .enters _ => True
  | .insideFinally | .insideInlined => False

instance (hierarchy : Shared Hierarchy) :
    (rule : TrapRule) → Decidable (rule.TypedOver hierarchy)
  | .catches clauses =>
      inferInstanceAs
        (Decidable (∀ clause ∈ clauses, ∀ caught ∈ clause.types, caught.hierarchy = hierarchy))
  | .catchAll _ | .enters _ => inferInstanceAs (Decidable True)
  | .insideFinally | .insideInlined => inferInstanceAs (Decidable False)

def TrapStack.TypedOver (hierarchy : Shared Hierarchy) (traps : TrapStack) : Prop :=
  ∀ trap ∈ traps, trap.value.rule.TypedOver hierarchy

instance (hierarchy : Shared Hierarchy) (traps : TrapStack) :
    Decidable (traps.TypedOver hierarchy) :=
  inferInstanceAs (Decidable (∀ trap ∈ traps, trap.value.rule.TypedOver hierarchy))

theorem TrapStack.TypedOver.of_suffix {hierarchy : Shared Hierarchy} {traps outer : TrapStack}
    (typed : traps.TypedOver hierarchy) (suffix : outer <:+ traps) : outer.TypedOver hierarchy :=
  fun trap member => typed trap (suffix.subset member)

section Traps

variable {hierarchy : Shared Hierarchy} {state widerState : State}
  {thrown widerThrown : Constraint} {trap : Shared Trap} {outer : TrapStack}

/-- An exception ends at such a trap, or goes on to the next one as an exception. -/
theorem step_finishes_or_passes (typed : trap.value.rule.TypedOver hierarchy) :
    (∃ successors, Transfer.step ⟨state, .exception thrown, trap :: outer⟩ = .finish successors) ∨
      ∃ branches narrowed uncaught, Transfer.step ⟨state, .exception thrown, trap :: outer⟩ =
        .pass branches ⟨narrowed, .exception uncaught, outer⟩ := by
  cases isRule : trap.value.rule with
  | catches clauses =>
      rw [Transfer.step_of_catches isRule]
      rcases throughClauses_finishes_or_passes state thrown clauses outer with
        finishes | ⟨narrowed, uncaught, passes⟩
      · exact .inl ⟨_, finishes⟩
      · exact .inr ⟨_, narrowed, uncaught, passes⟩
  | catchAll handler => exact .inl ⟨_, Transfer.step_of_catchAll isRule⟩
  | enters entry =>
      cases isKind : entry.kind with
      | always => exact .inl ⟨_, Transfer.step_of_always isRule isKind⟩
      | resource => exact .inr ⟨[], state, thrown, Transfer.step_of_resource isRule isKind⟩
  | insideFinally => simp [isRule, TrapRule.TypedOver] at typed
  | insideInlined => simp [isRule, TrapRule.TypedOver] at typed

/-- Where the precise exception ends, the other one ends or goes on.  Where the
precise one goes on, so does the other, and is still less precise. -/
theorem step_widens (widens : Widens hierarchy state thrown widerState widerThrown)
    (typed : trap.value.rule.TypedOver hierarchy) :
    let precise : Transfer := ⟨state, .exception thrown, trap :: outer⟩
    let wide : Transfer := ⟨widerState, .exception widerThrown, trap :: outer⟩
    (∃ successors found, precise.step = .finish successors ∧ CoveredBy successors found ∧
        (wide.step = .finish found ∨
          ∃ narrowed uncaught, wide.step = .pass found ⟨narrowed, .exception uncaught, outer⟩)) ∨
      ∃ branches found narrowed uncaught wider widerUncaught,
        precise.step = .pass branches ⟨narrowed, .exception uncaught, outer⟩ ∧
          wide.step = .pass found ⟨wider, .exception widerUncaught, outer⟩ ∧
          CoveredBy branches found ∧ Widens hierarchy narrowed uncaught wider widerUncaught := by
  intro precise wide
  cases isRule : trap.value.rule with
  | catches clauses =>
      rw [isRule] at typed
      have preciseSteps : precise.step = Transfer.throughClauses state thrown clauses outer :=
        Transfer.step_of_catches isRule
      have wideSteps : wide.step = Transfer.throughClauses widerState widerThrown clauses outer :=
        Transfer.step_of_catches isRule
      rw [preciseSteps, wideSteps]
      obtain ⟨covered, finishes | passes⟩ := throughClauses_widens widens (forall_arms typed)
      · exact .inl ⟨_, _, finishes, covered,
          throughClauses_finishes_or_passes widerState widerThrown clauses outer⟩
      · obtain ⟨narrowed, uncaught, wider, widerUncaught, passes, widerPasses, restWidens⟩ := passes
        exact .inr ⟨_, _, narrowed, uncaught, wider, widerUncaught, passes, widerPasses, covered,
          restWidens⟩
  | catchAll handler =>
      refine .inl ⟨_, _, Transfer.step_of_catchAll isRule, ?_,
        .inl (Transfer.step_of_catchAll isRule)⟩
      exact coveredBy_singleton ⟨rfl, widens.stateWithin⟩
  | enters entry =>
      cases isKind : entry.kind with
      | always =>
          refine .inl ⟨_, _, Transfer.step_of_always isRule isKind, ?_,
            .inl (Transfer.step_of_always isRule isKind)⟩
          -- the exception that is saved for the end of the body is less precise as well
          exact coveredBy_singleton ⟨rfl, widens.stateWithin.push ⟨widens.thrownWithin, rfl⟩⟩
      | resource =>
          exact .inr ⟨[], [], state, thrown, widerState, widerThrown,
            Transfer.step_of_resource isRule isKind, Transfer.step_of_resource isRule isKind,
            nofun, widens⟩
  | insideFinally => simp [isRule, TrapRule.TypedOver] at typed
  | insideInlined => simp [isRule, TrapRule.TypedOver] at typed

end Traps

/-! ## Runs -/

section Runs

variable {hierarchy : Shared Hierarchy}

theorem exists_run :
    ∀ {traps : TrapStack} {steps : Nat} {state : State} {thrown : Constraint},
      traps.TypedOver hierarchy → traps.length < steps →
        ∃ successors, Transfer.run steps ⟨state, .exception thrown, traps⟩ =
          some (.ok successors) := by
  intro traps
  induction traps with
  | nil =>
      intro steps state thrown _ enough
      obtain ⟨fewer, rfl⟩ : ∃ fewer, steps = fewer + 1 := ⟨steps - 1, by omega⟩
      exact ⟨_, rfl⟩
  | cons trap outer induction =>
      intro steps state thrown typed enough
      rw [List.length_cons] at enough
      obtain ⟨fewer, rfl⟩ : ∃ fewer, steps = fewer + 1 := ⟨steps - 1, by omega⟩
      have enoughLeft : outer.length < fewer := by omega
      have outerTyped := typed.of_suffix (List.suffix_cons trap outer)
      rcases step_finishes_or_passes (typed trap List.mem_cons_self) with
        ⟨successors, finishes⟩ | ⟨branches, narrowed, uncaught, passes⟩
      · exact ⟨successors, Transfer.run_of_finish finishes⟩
      · obtain ⟨later, runs⟩ := induction outerTyped enoughLeft
        exact ⟨branches ++ later, Transfer.run_of_pass passes runs⟩

theorem run_widens :
    ∀ {traps : TrapStack} {steps : Nat} {state widerState : State}
      {thrown widerThrown : Constraint},
      Widens hierarchy state thrown widerState widerThrown → traps.TypedOver hierarchy →
      traps.length < steps →
        ∃ successors found,
          Transfer.run steps ⟨state, .exception thrown, traps⟩ = some (.ok successors) ∧
          Transfer.run steps ⟨widerState, .exception widerThrown, traps⟩ = some (.ok found) ∧
          CoveredBy successors found := by
  intro traps
  induction traps with
  | nil =>
      intro steps state widerState thrown widerThrown widens _ enough
      obtain ⟨fewer, rfl⟩ : ∃ fewer, steps = fewer + 1 := ⟨steps - 1, by omega⟩
      exact ⟨_, _, rfl, rfl, coveredBy_singleton ⟨widens.thrownWithin, widens.stateWithin⟩⟩
  | cons trap outer induction =>
      intro steps state widerState thrown widerThrown widens typed enough
      rw [List.length_cons] at enough
      obtain ⟨fewer, rfl⟩ : ∃ fewer, steps = fewer + 1 := ⟨steps - 1, by omega⟩
      have enoughLeft : outer.length < fewer := by omega
      have outerTyped := typed.of_suffix (List.suffix_cons trap outer)
      rcases step_widens widens (typed trap List.mem_cons_self) with
        ⟨successors, found, finishes, covered, ends⟩ |
          ⟨branches, found, narrowed, uncaught, wider, widerUncaught, passes, widerPasses,
            covered, restWidens⟩
      · have runs : Transfer.run (fewer + 1) ⟨state, .exception thrown, trap :: outer⟩ =
            some (.ok successors) := Transfer.run_of_finish finishes
        rcases ends with widerFinishes | ⟨wider, widerUncaught, widerPasses⟩
        · exact ⟨successors, found, runs, Transfer.run_of_finish widerFinishes, covered⟩
        · obtain ⟨later, widerRuns⟩ := exists_run outerTyped enoughLeft
          exact ⟨successors, found ++ later, runs, Transfer.run_of_pass widerPasses widerRuns,
            covered.append_right later⟩
      · obtain ⟨later, widerLater, runs, widerRuns, laterCovered⟩ :=
          induction restWidens outerTyped enoughLeft
        exact ⟨branches ++ later, found ++ widerLater, Transfer.run_of_pass passes runs,
          Transfer.run_of_pass widerPasses widerRuns, covered.append laterCovered⟩

/-- A less precise exception loses no successor: for each one of the precise
exception there is one of the same kind at the same place that leaves open all
that the first does, in its state, in what it has saved and in what escapes. -/
theorem dispatch_covered_by_wider {limits : Limits} {state : State} {precise wide : Constraint}
    {traps : TrapStack} (formed : precise.Formed) (about : precise.hierarchy = hierarchy)
    (wideAbout : wide.hierarchy = hierarchy)
    (admits : ∀ identifier, precise.Admits identifier → wide.Admits identifier)
    (stateOver : state.Over hierarchy) (typed : traps.TypedOver hierarchy)
    (deep : traps.length < limits.maxDepth) (unlimited : limits.maxSuccessors = 0) :
    ∃ successors found,
      Transfer.dispatch limits ⟨state, .exception precise, traps⟩ = .ok successors ∧
      Transfer.dispatch limits ⟨state, .exception wide, traps⟩ = .ok found ∧
      ∀ successor ∈ successors, ∃ other ∈ found, successor.Within other := by
  have widens : Widens hierarchy state precise state wide :=
    ⟨about, formed.satisfiable, ⟨about.trans wideAbout.symm, admits⟩, stateOver, stateOver,
      State.Within.refl state⟩
  obtain ⟨successors, found, runs, widerRuns, covered⟩ := run_widens widens typed deep
  exact ⟨successors, found, Transfer.dispatch_of_run runs unlimited,
    Transfer.dispatch_of_run widerRuns unlimited, covered⟩

/-- An input-output exception is caught for good where any exception may also go
on to a finally body. -/
theorem dispatch_io_covered :
    let io := Constraint.instanceOf Hierarchy.throwables ⟨2⟩
    let any := Constraint.instanceOf Hierarchy.throwables ⟨0⟩
    let notSql : Constraint := ⟨Hierarchy.throwables, ⟨1⟩, [⟨3⟩]⟩
    let traps : TrapStack :=
      [⟨0, ⟨0⟩, .catches [⟨[notSql], ⟨10⟩⟩]⟩, ⟨1, ⟨1⟩, .enters ⟨⟨0⟩, .always, ⟨50⟩⟩⟩]
    let caught := Successor.instruction ⟨10⟩ ⟨.empty, [], some io⟩
    (Constraint.instanceOf Hierarchy.throwables ⟨1⟩).exclude
        (.instanceOf Hierarchy.throwables ⟨3⟩) = some notSql ∧
      Transfer.dispatch .standard ⟨.initial, .exception io, traps⟩ = .ok [caught] ∧
      ∃ found, Transfer.dispatch .standard ⟨.initial, .exception any, traps⟩ = .ok found ∧
        ∃ other ∈ found, caught.Within other := by
  intro io any notSql traps caught
  have admits : ∀ identifier, io.Admits identifier → any.Admits identifier := by
    intro identifier admitted
    have ioBelow : Hierarchy.throwables.value.Below ⟨2⟩ ⟨0⟩ := by decide
    rw [Constraint.admits_instanceOf] at admitted ⊢
    exact Hierarchy.below_trans admitted ioBelow
  have anyAbout : any.hierarchy = Hierarchy.throwables := rfl
  have stateOver : State.initial.Over Hierarchy.throwables := by decide
  have typed : traps.TypedOver Hierarchy.throwables := by decide
  have deep : traps.length < Limits.standard.maxDepth := by decide
  have dispatches : Transfer.dispatch .standard ⟨.initial, .exception io, traps⟩ =
      .ok [caught] := rfl
  obtain ⟨successors, found, isFew, isMany, covered⟩ :=
    dispatch_covered_by_wider (.instanceOf Hierarchy.throwables ⟨2⟩) rfl anyAbout admits stateOver
      typed deep rfl
  cases Except.ok.inj (dispatches.symm.trans isFew)
  exact ⟨by decide, dispatches, found, isMany, covered caught (List.mem_singleton_self caught)⟩

end Runs

end Unwind
