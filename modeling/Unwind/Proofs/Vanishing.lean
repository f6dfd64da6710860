import Unwind.Proofs.FirstMatch
import Unwind.Proofs.Precision

/-!
# Exceptions that vanish

A state keeps its constraint after the exception has been caught.  If another
exception is thrown later, catch clauses still narrow that old constraint.  When
the two have no class in common, no branch is feasible and neither is the way
past the clauses, so dispatch ends well and has no successor at all.

An exception vanishes in this way and in no other: the constraint of the state
contradicts the thrown one, and catch clauses are the first trap that looks at it.
A handler for every exception, a finally body and the end of the stack do not
look at it.
-/

set_option autoImplicit false

namespace Unwind

namespace State

variable {state narrowed : State} {learnt : Constraint} {identifier : ClassId}

/-- What the state knows of an exception leaves none of the learnt classes. -/
def Contradicts (state : State) (learnt : Constraint) : Prop :=
  ∃ known ∈ state.exception, known.hierarchy = learnt.hierarchy ∧
    ∀ identifier, ¬ (known.Admits identifier ∧ learnt.Admits identifier)

theorem narrow?_eq_none_iff_contradicts :
    state.narrow? learnt = none ↔ state.Contradicts learnt := by
  cases isKnown : state.exception with
  | none => simp [narrow?, Contradicts, isKnown]
  | some known =>
      simp only [narrow?, isKnown, Option.map_eq_none_iff, Contradicts, Option.mem_def,
        Option.some.injEq, exists_eq_left']
      by_cases same : known.hierarchy = learnt.hierarchy
      · simp only [Constraint.meet_eq_none_iff_disjoint same, same, true_and]
      · simp [Constraint.meet, same]

/-- The state leaves the class of the hierarchy possible.  A constraint over
another hierarchy says nothing about it. -/
def Allows (state : State) (hierarchy : Shared Hierarchy) (identifier : ClassId) : Prop :=
  ∀ known ∈ state.exception, known.hierarchy = hierarchy → known.Admits identifier

theorem not_contradicts_of_allows (allows : state.Allows learnt.hierarchy identifier)
    (admitted : learnt.Admits identifier) : ¬ state.Contradicts learnt := by
  rintro ⟨known, isKnown, same, disjoint⟩
  exact disjoint identifier ⟨allows known isKnown same, admitted⟩

theorem exists_allows_of_not_contradicts (satisfiable : learnt.Satisfiable)
    (compatible : ¬ state.Contradicts learnt) :
    ∃ identifier, state.Allows learnt.hierarchy identifier ∧ learnt.Admits identifier := by
  apply Classical.byContradiction
  intro nothing
  have disjoint : ∀ identifier, learnt.Admits identifier →
      ¬ state.Allows learnt.hierarchy identifier := by
    intro identifier admitted allows
    exact nothing ⟨identifier, allows, admitted⟩
  have refused := disjoint learnt.upper satisfiable
  simp only [Allows, Classical.not_forall] at refused
  obtain ⟨known, isKnown, same, _⟩ := refused
  refine compatible ⟨known, isKnown, same, ?_⟩
  rintro identifier ⟨knownAdmits, admitted⟩
  apply disjoint identifier admitted
  intro other isOther _
  cases Option.some.inj (isKnown.symm.trans isOther)
  exact knownAdmits

/-- What has just been learnt is no contradiction. -/
theorem not_contradicts_of_narrow? (satisfiable : learnt.Satisfiable)
    (narrows : state.narrow? learnt = some narrowed) : ¬ narrowed.Contradicts learnt := by
  unfold narrow? at narrows
  split at narrows
  · cases Option.some.inj narrows
    rintro ⟨known, isKnown, _, disjoint⟩
    cases Option.some.inj isKnown
    exact disjoint learnt.upper ⟨satisfiable, satisfiable⟩
  · next known _ =>
      obtain ⟨both, meets, isNarrowed⟩ := Option.map_eq_some_iff.mp narrows
      subst isNarrowed
      rintro ⟨kept, isKept, same, disjoint⟩
      cases Option.some.inj isKept
      have sameKnown : known.hierarchy = learnt.hierarchy :=
        (Constraint.hierarchy_of_meet meets).symm.trans same
      have bothSatisfiable := Constraint.satisfiable_of_meet sameKnown meets
      have learntAdmits := ((Constraint.admits_of_meet sameKnown meets).mp bothSatisfiable).2
      exact disjoint both.upper ⟨bothSatisfiable, learntAdmits⟩

/-- Whoever contradicts a constraint contradicts what implies it. -/
theorem Contradicts.of_within {stronger : Constraint} (contradicts : state.Contradicts learnt)
    (within : stronger.Within learnt) : state.Contradicts stronger := by
  obtain ⟨known, isKnown, sameKnown, disjoint⟩ := contradicts
  refine ⟨known, isKnown, sameKnown.trans within.about.symm, ?_⟩
  rintro identifier ⟨knownAdmits, admitted⟩
  exact disjoint identifier ⟨knownAdmits, within.admits identifier admitted⟩

end State

/-! ## Catch clauses -/

section Clauses

variable {hierarchy : Shared Hierarchy} {state : State}

theorem branch?_eq_none_of_contradicts {arm : Arm} {uncaught : Constraint}
    (contradicts : state.Contradicts uncaught) : arm.branch? state uncaught = none := by
  cases meets : uncaught.meet arm.caught with
  | none => simp [Arm.branch?, meets]
  | some matched =>
      have infeasible := State.narrow?_eq_none_iff_contradicts.mpr
        (contradicts.of_within (Constraint.within_of_meet meets))
      simp [Arm.branch?, meets, infeasible]

/-- A contradicted exception leaves no branch, and what is not caught of it is
contradicted as well. -/
theorem sift_of_contradicts :
    ∀ {arms : List Arm} {uncaught : Constraint}, uncaught.Satisfiable →
      state.Contradicts uncaught →
        (sift state uncaught arms).branches = [] ∧
          ∀ rest, (sift state uncaught arms).uncaught = some rest → state.Contradicts rest := by
  intro arms
  induction arms with
  | nil =>
      intro uncaught _ contradicts
      refine ⟨rfl, ?_⟩
      intro rest isRest
      cases Option.some.inj isRest
      exact contradicts
  | cons arm arms induction =>
      intro uncaught satisfiable contradicts
      have noBranch : arm.branch? state uncaught = none :=
        branch?_eq_none_of_contradicts contradicts
      cases excludes : uncaught.exclude arm.caught with
      | none => simp [sift_cons_of_none excludes, noBranch]
      | some remaining =>
          have later := induction (Constraint.satisfiable_of_exclude satisfiable excludes)
            (contradicts.of_within (Constraint.within_of_exclude satisfiable excludes))
          rw [sift_cons_of_some excludes, noBranch]
          exact later

/-- An exception that the state does not contradict leaves a branch, or something
uncaught that the state does not contradict. -/
theorem sift_of_not_contradicts :
    ∀ {arms : List Arm} {uncaught : Constraint}, uncaught.hierarchy = hierarchy →
      uncaught.Satisfiable → (∀ arm ∈ arms, arm.caught.PlainOver hierarchy) →
      ¬ state.Contradicts uncaught →
        (sift state uncaught arms).branches ≠ [] ∨
          ∃ rest, (sift state uncaught arms).uncaught = some rest ∧ ¬ state.Contradicts rest := by
  intro arms
  induction arms with
  | nil =>
      intro uncaught _ _ _ compatible
      exact .inr ⟨uncaught, rfl, compatible⟩
  | cons arm arms induction =>
      intro uncaught about satisfiable plain compatible
      have armPlain := plain arm (by simp)
      have same : uncaught.hierarchy = arm.caught.hierarchy := about.trans armPlain.about.symm
      obtain ⟨identifier, allows, admitted⟩ :=
        State.exists_allows_of_not_contradicts satisfiable compatible
      by_cases caught : arm.caught.Admits identifier
      · -- the class is caught here, so this arm has a branch
        obtain ⟨matched, meets, matchedAdmits⟩ :=
          (Constraint.leaves_meet same).mpr ⟨admitted, caught⟩
        have sameMatched := Constraint.hierarchy_of_meet meets
        have feasible : ¬ state.narrow? matched = none := by
          rw [State.narrow?_eq_none_iff_contradicts]
          exact State.not_contradicts_of_allows (sameMatched ▸ allows) matchedAdmits
        obtain ⟨narrowed, narrows⟩ := Option.ne_none_iff_exists'.mp feasible
        have branches : arm.branch? state uncaught = some ⟨arm.handler, matched, narrowed⟩ := by
          simp [Arm.branch?, Option.mem_def.mp meets, narrows]
        refine .inl ?_
        cases excludes : uncaught.exclude arm.caught with
        | none => simp [sift_cons_of_none excludes, branches]
        | some remaining => simp [sift_cons_of_some excludes, branches]
      · -- the class goes on to the next arm
        subst about
        obtain ⟨remaining, excludes, stillAdmitted⟩ :=
          (Constraint.leaves_exclude_plain armPlain satisfiable).mpr ⟨admitted, caught⟩
        obtain ⟨restOver, restSatisfiable, _⟩ := remaining_facts rfl satisfiable armPlain excludes
        have later := induction restOver restSatisfiable
          (fun other member => plain other (by simp [member]))
          (State.not_contradicts_of_allows (restOver ▸ allows) stillAdmitted)
        rw [sift_cons_of_some excludes]
        rcases later with someBranch | onward
        · exact .inl fun nothing => someBranch (List.append_eq_nil_iff.mp nothing).2
        · exact .inr onward

variable {thrown : Constraint} {clauses : List Clause} {outer : TrapStack}

theorem throughClauses_of_contradicts (satisfiable : thrown.Satisfiable)
    (contradicts : state.Contradicts thrown) :
    Transfer.throughClauses state thrown clauses outer = .finish [] := by
  obtain ⟨noBranches, restContradicts⟩ := sift_of_contradicts satisfiable contradicts
  cases isUncaught : (sift state thrown (clauses.flatMap Clause.arms)).uncaught with
  | none => rw [Transfer.throughClauses_of_caught isUncaught, noBranches, List.map_nil]
  | some uncaught =>
      have infeasible :=
        State.narrow?_eq_none_iff_contradicts.mpr (restContradicts uncaught isUncaught)
      rw [Transfer.throughClauses_of_infeasible isUncaught infeasible, noBranches, List.map_nil]

theorem throughClauses_of_not_contradicts (about : thrown.hierarchy = hierarchy)
    (satisfiable : thrown.Satisfiable)
    (plain : ∀ arm ∈ clauses.flatMap Clause.arms, arm.caught.PlainOver hierarchy)
    (compatible : ¬ state.Contradicts thrown) :
    (∃ successors, Transfer.throughClauses state thrown clauses outer = .finish successors ∧
        successors ≠ []) ∨
      ∃ branches narrowed uncaught,
        Transfer.throughClauses state thrown clauses outer =
            .pass branches ⟨narrowed, .exception uncaught, outer⟩ ∧
          uncaught.hierarchy = hierarchy ∧ uncaught.Satisfiable ∧
          ¬ narrowed.Contradicts uncaught := by
  have goesOn := sift_of_not_contradicts about satisfiable plain compatible
  cases isUncaught : (sift state thrown (clauses.flatMap Clause.arms)).uncaught with
  | none =>
      refine .inl ⟨_, Transfer.throughClauses_of_caught isUncaught, ?_⟩
      simpa [isUncaught] using goesOn
  | some uncaught =>
      obtain ⟨restOver, restSatisfiable⟩ := sift_uncaught_facts about satisfiable plain isUncaught
      cases narrows : state.narrow? uncaught with
      | none =>
          have contradicts := State.narrow?_eq_none_iff_contradicts.mp narrows
          refine .inl ⟨_, Transfer.throughClauses_of_infeasible isUncaught narrows, ?_⟩
          simpa [isUncaught, contradicts] using goesOn
      | some narrowed =>
          exact .inr ⟨_, narrowed, uncaught, Transfer.throughClauses_of_narrow? isUncaught narrows,
            restOver, restSatisfiable, State.not_contradicts_of_narrow? restSatisfiable narrows⟩

end Clauses

/-! ## Runs -/

/-- Catch clauses are the first trap that an exception does not just pass. -/
def TrapStack.ReachesClauses : TrapStack → Prop
  | [] => False
  | trap :: outer =>
      match trap.value.rule with
      | .catches _ => True
      | .enters entry => entry.kind = .resource ∧ TrapStack.ReachesClauses outer
      | _ => False

section Runs

variable {hierarchy : Shared Hierarchy}

/-- A step that ends a dispatch without a successor has met a contradiction at
catch clauses.  A step that goes on leaves this question to the rest. -/
theorem step_eq_nil_cases {state : State} {thrown : Constraint} {trap : Shared Trap}
    {outer : TrapStack} (about : thrown.hierarchy = hierarchy) (satisfiable : thrown.Satisfiable)
    (handles : trap.value.rule.HandlesOver hierarchy) :
    let transfer : Transfer := ⟨state, .exception thrown, trap :: outer⟩
    let vanishes := state.Contradicts thrown ∧ TrapStack.ReachesClauses (trap :: outer)
    (∃ successors, transfer.step = .finish successors ∧ (successors = [] ↔ vanishes)) ∨
      ∃ branches narrowed uncaught,
        transfer.step = .pass branches ⟨narrowed, .exception uncaught, outer⟩ ∧
          uncaught.hierarchy = hierarchy ∧ uncaught.Satisfiable ∧
          ∀ later : List Successor,
            (later = [] ↔ narrowed.Contradicts uncaught ∧ outer.ReachesClauses) →
              (branches ++ later = [] ↔ vanishes) := by
  intro transfer vanishes
  cases isRule : trap.value.rule with
  | catches clauses =>
      rw [isRule] at handles
      have plain := forall_arms handles
      have reaches : TrapStack.ReachesClauses (trap :: outer) := by
        simp [TrapStack.ReachesClauses, isRule]
      by_cases contradicts : state.Contradicts thrown
      · refine .inl ⟨[], ?_, by simp [vanishes, contradicts, reaches]⟩
        rw [Transfer.step_of_catches isRule]
        exact throughClauses_of_contradicts satisfiable contradicts
      · rcases throughClauses_of_not_contradicts about satisfiable plain contradicts with
          ⟨successors, finishes, someFound⟩ |
            ⟨branches, narrowed, uncaught, passes, restOver, restSatisfiable, compatible⟩
        · refine .inl ⟨successors, (Transfer.step_of_catches isRule).trans finishes, ?_⟩
          simp [vanishes, someFound, contradicts]
        · refine .inr ⟨branches, narrowed, uncaught,
            (Transfer.step_of_catches isRule).trans passes, restOver, restSatisfiable, ?_⟩
          intro later laterIff
          simp [vanishes, laterIff, contradicts, compatible]
  | catchAll handler =>
      refine .inl ⟨_, Transfer.step_of_catchAll isRule, ?_⟩
      simp [vanishes, TrapStack.ReachesClauses, isRule]
  | enters entry =>
      cases isKind : entry.kind with
      | always =>
          refine .inl ⟨_, Transfer.step_of_always isRule isKind, ?_⟩
          simp [vanishes, TrapStack.ReachesClauses, isRule, isKind]
      | resource =>
          refine .inr ⟨[], state, thrown, Transfer.step_of_resource isRule isKind, about,
            satisfiable, ?_⟩
          intro later laterIff
          rw [List.nil_append, laterIff]
          simp [vanishes, TrapStack.ReachesClauses, isRule, isKind]
  | insideFinally => simp [isRule, TrapRule.HandlesOver] at handles
  | insideInlined => simp [isRule, TrapRule.HandlesOver] at handles

theorem run_eq_nil_iff :
    ∀ {traps : TrapStack} {steps : Nat} {state : State} {thrown : Constraint}
      {successors : List Successor},
      thrown.hierarchy = hierarchy → thrown.Satisfiable → traps.HandlesOver hierarchy →
      Transfer.run steps ⟨state, .exception thrown, traps⟩ = some (.ok successors) →
        (successors = [] ↔ state.Contradicts thrown ∧ traps.ReachesClauses) := by
  intro traps steps
  induction steps generalizing traps with
  | zero =>
      intro state thrown successors _ _ _ runs
      simp [Transfer.run] at runs
  | succ steps induction =>
      intro state thrown successors about satisfiable handles runs
      have ends := Transfer.run_eq_ok_cases runs
      cases traps with
      | nil =>
          rcases ends with finishes | ⟨_, _, _, passes, _⟩
          · cases finishes
            simp [TrapStack.ReachesClauses]
          · cases passes
      | cons trap outer =>
          have outerHandles := handles.of_suffix (List.suffix_cons trap outer)
          rcases step_eq_nil_cases about satisfiable (handles trap (by simp)) with
            ⟨found, isFinish, foundIff⟩ |
              ⟨branches, narrowed, uncaught, isPass, restOver, restSatisfiable, extend⟩
          · rw [isFinish] at ends
            rcases ends with finishes | ⟨_, _, _, passes, _⟩
            · cases finishes
              exact foundIff
            · cases passes
          · rw [isPass] at ends
            rcases ends with finishes | ⟨_, _, later, passes, restRuns, isAll⟩
            · cases finishes
            · cases passes
              rw [isAll]
              exact extend later (induction restOver restSatisfiable outerHandles restRuns)

/-- An exception vanishes exactly when the state contradicts it and catch clauses
are the first to look. -/
theorem dispatch_eq_nil_iff {limits : Limits} {state : State} {thrown : Constraint}
    {traps : TrapStack} {successors : List Successor} (formed : thrown.Formed)
    (about : thrown.hierarchy = hierarchy) (handles : traps.HandlesOver hierarchy)
    (dispatches : Transfer.dispatch limits ⟨state, .exception thrown, traps⟩ = .ok successors) :
    successors = [] ↔ state.Contradicts thrown ∧ traps.ReachesClauses :=
  run_eq_nil_iff about formed.satisfiable handles (Transfer.run_of_dispatch_eq_ok dispatches)

theorem dispatch_nested_sql :
    let thrown := Constraint.instanceOf Hierarchy.throwables ⟨3⟩
    let saved : Continuation := ⟨.exception thrown, TrapStack.nested.drop 2⟩
    Transfer.dispatch .standard ⟨.initial, .exception thrown, .nested⟩ =
        .ok [.instruction ⟨50⟩ ⟨.empty, [.continuation saved], some thrown⟩] ∧
      ¬ (State.initial.Contradicts thrown ∧ TrapStack.nested.ReachesClauses) := by
  intro thrown saved
  have dispatches : Transfer.dispatch .standard ⟨.initial, .exception thrown, .nested⟩ =
      .ok [.instruction ⟨50⟩ ⟨.empty, [.continuation saved], some thrown⟩] := by rfl
  refine ⟨dispatches, ?_⟩
  rw [← dispatch_eq_nil_iff (.instanceOf _ _) rfl (by decide) dispatches]
  simp

/-- An input-output exception is caught.  A database exception that is thrown
afterwards should escape, but is gone. -/
theorem dispatch_in_handler_eq_nil :
    let io := Constraint.instanceOf Hierarchy.throwables ⟨2⟩
    let sql := Constraint.instanceOf Hierarchy.throwables ⟨3⟩
    let handling : State := ⟨.empty, [], some io⟩
    let traps : TrapStack := [⟨0, ⟨0⟩, .catches [⟨[io], ⟨10⟩⟩]⟩]
    traps.HandlesOver Hierarchy.throwables ∧
      Transfer.dispatch .standard ⟨.initial, .exception io, traps⟩ =
        .ok [.instruction ⟨10⟩ handling] ∧
      Transfer.dispatch .standard ⟨handling, .exception sql, traps⟩ = .ok [] := by
  intro io sql handling traps
  refine ⟨by decide, ?_, ?_⟩
  · rfl
  · rfl

end Runs

end Unwind
