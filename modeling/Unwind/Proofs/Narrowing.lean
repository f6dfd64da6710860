import Unwind.Transfer
import Unwind.Proofs.Admission

/-!
# Narrowing a state along catch clauses

The constraint of a state is about the exception in flight.  Over one hierarchy,
narrowing intersects it with what is learnt, and fails exactly when no class is
left.  `sift_admitting` follows a single class through the arms of a trap: among
the branches it shows up in one, that of the first arm that catches it, and
`leaves_sift_uncaught` says that it goes on exactly when no arm does.  The steps
of an exception through each kind of trap are listed at the end.
-/

set_option autoImplicit false

namespace Unwind

/-- The constraint of one class, with nothing excluded. -/
def Constraint.PlainOver (hierarchy : Shared Hierarchy) (constraint : Constraint) : Prop :=
  constraint = .instanceOf hierarchy constraint.upper

instance (hierarchy : Shared Hierarchy) (constraint : Constraint) :
    Decidable (constraint.PlainOver hierarchy) :=
  inferInstanceAs (Decidable (constraint = _))

theorem Constraint.PlainOver.about {hierarchy : Shared Hierarchy} {constraint : Constraint}
    (plain : constraint.PlainOver hierarchy) : constraint.hierarchy = hierarchy := by
  rw [PlainOver] at plain
  rw [plain]
  rfl

theorem Constraint.PlainOver.admits_iff {hierarchy : Shared Hierarchy} {constraint : Constraint}
    {identifier : ClassId} (plain : constraint.PlainOver hierarchy) :
    constraint.Admits identifier ↔ hierarchy.value.Below identifier constraint.upper := by
  rw [PlainOver] at plain
  rw [plain]
  exact admits_instanceOf

/-- Removing what a plain constraint admits. -/
theorem Constraint.leaves_exclude_plain {constraint caught : Constraint} {identifier : ClassId}
    (plain : caught.PlainOver constraint.hierarchy) (satisfiable : constraint.Satisfiable) :
    Leaves (constraint.exclude caught) identifier ↔
      constraint.Admits identifier ∧ ¬ caught.Admits identifier := by
  rw [leaves_exclude plain.about.symm satisfiable, plain.admits_iff]

/-! ## The constraint of a state -/

namespace State

variable {state narrowed : State} {learnt : Constraint} {identifier : ClassId}
  {hierarchy : Shared Hierarchy}

/-- A state without a constraint admits every class. -/
def Admits (state : State) (identifier : ClassId) : Prop :=
  ∀ known ∈ state.exception, known.Admits identifier

instance (state : State) (identifier : ClassId) : Decidable (state.Admits identifier) :=
  inferInstanceAs (Decidable (∀ known ∈ state.exception, known.Admits identifier))

theorem admits_of_none (unknown : state.exception = none) : state.Admits identifier := by
  simp [Admits, unknown]

theorem admits_iff_of_some {known : Constraint} (isKnown : state.exception = some known) :
    state.Admits identifier ↔ known.Admits identifier := by
  simp [Admits, isKnown]

@[simp] theorem admits_mk_some {bindings : Bindings} {operands : List Operand}
    {known : Constraint} :
    (State.mk bindings operands (some known)).Admits identifier ↔ known.Admits identifier :=
  admits_iff_of_some rfl

/-- The constraint of the state, if it has one, is about the hierarchy. -/
def Over (hierarchy : Shared Hierarchy) (state : State) : Prop :=
  ∀ known ∈ state.exception, known.hierarchy = hierarchy

instance (hierarchy : Shared Hierarchy) (state : State) : Decidable (state.Over hierarchy) :=
  inferInstanceAs (Decidable (∀ known ∈ state.exception, known.hierarchy = hierarchy))

/-- The second state has learnt that the exception satisfies the constraint, and
nothing else. -/
structure Learns (hierarchy : Shared Hierarchy) (state : State) (learnt : ClassId → Prop)
    (narrowed : State) : Prop where
  frame : narrowed = { state with exception := narrowed.exception }
  about : narrowed.Over hierarchy
  admits_iff : ∀ identifier, narrowed.Admits identifier ↔ state.Admits identifier ∧ learnt identifier
  possible : ∃ identifier, narrowed.Admits identifier

theorem learns_of_narrow? (stateOver : state.Over hierarchy) (about : learnt.hierarchy = hierarchy)
    (satisfiable : learnt.Satisfiable) (narrows : state.narrow? learnt = some narrowed) :
    Learns hierarchy state learnt.Admits narrowed := by
  unfold narrow? at narrows
  split at narrows
  · next unknown =>
      cases Option.some.inj narrows
      refine ⟨rfl, ?_, ?_, ?_⟩
      · intro known isKnown
        cases Option.some.inj isKnown
        exact about
      · intro identifier
        have stateAdmits : state.Admits identifier := admits_of_none unknown
        simp only [admits_mk_some, stateAdmits, true_and]
      · exact ⟨learnt.upper, admits_mk_some.mpr satisfiable⟩
  · next known isKnown =>
      have same : known.hierarchy = learnt.hierarchy := (stateOver known isKnown).trans about.symm
      obtain ⟨both, meets, isNarrowed⟩ := Option.map_eq_some_iff.mp narrows
      subst isNarrowed
      refine ⟨rfl, ?_, ?_, ?_⟩
      · intro kept isKept
        cases Option.some.inj isKept
        exact (Constraint.hierarchy_of_meet meets).trans (stateOver known isKnown)
      · intro identifier
        rw [admits_iff_of_some isKnown, admits_mk_some, Constraint.admits_of_meet same meets]
      · exact ⟨both.upper, admits_mk_some.mpr (Constraint.satisfiable_of_meet same meets)⟩

theorem narrow?_eq_none_iff (stateOver : state.Over hierarchy)
    (about : learnt.hierarchy = hierarchy) (satisfiable : learnt.Satisfiable) :
    state.narrow? learnt = none ↔
      ∀ identifier, ¬ (state.Admits identifier ∧ learnt.Admits identifier) := by
  cases isKnown : state.exception with
  | none =>
      have narrows : state.narrow? learnt = some { state with exception := some learnt } := by
        rw [narrow?, isKnown]
      simp only [narrows, reduceCtorEq, false_iff]
      intro nothing
      exact nothing learnt.upper ⟨admits_of_none isKnown, satisfiable⟩
  | some known =>
      have same : known.hierarchy = learnt.hierarchy := (stateOver known isKnown).trans about.symm
      simp only [narrow?, isKnown, Option.map_eq_none_iff, admits_iff_of_some isKnown]
      exact Constraint.meet_eq_none_iff_disjoint same

end State

/-! ## One arm -/

section Arms

variable {hierarchy : Shared Hierarchy} {state : State} {uncaught : Constraint} {arm : Arm}
  {arms : List Arm} {branch : Branch} {identifier : ClassId}

theorem Arm.learns_of_branch? (stateOver : state.Over hierarchy)
    (about : uncaught.hierarchy = hierarchy) (plain : arm.caught.PlainOver hierarchy)
    (branches : arm.branch? state uncaught = some branch) :
    branch.handler = arm.handler ∧
      State.Learns hierarchy state
        (fun identifier => uncaught.Admits identifier ∧ arm.caught.Admits identifier)
        branch.state := by
  have same : uncaught.hierarchy = arm.caught.hierarchy := about.trans plain.about.symm
  obtain ⟨matched, meets, goesOn⟩ := Option.bind_eq_some_iff.mp branches
  obtain ⟨narrowed, narrows, isBranch⟩ := Option.map_eq_some_iff.mp goesOn
  subst isBranch
  have learns := State.learns_of_narrow? stateOver ((Constraint.hierarchy_of_meet meets).trans about)
    (Constraint.satisfiable_of_meet same meets) narrows
  refine ⟨rfl, learns.frame, learns.about, ?_, learns.possible⟩
  intro identifier
  rw [learns.admits_iff, Constraint.admits_of_meet same meets]

theorem Arm.disjoint_of_branch?_eq_none (stateOver : state.Over hierarchy)
    (about : uncaught.hierarchy = hierarchy) (plain : arm.caught.PlainOver hierarchy)
    (nothing : arm.branch? state uncaught = none) :
    ¬ (state.Admits identifier ∧ uncaught.Admits identifier ∧ arm.caught.Admits identifier) := by
  have same : uncaught.hierarchy = arm.caught.hierarchy := about.trans plain.about.symm
  rintro ⟨stateAdmits, both⟩
  rw [← Constraint.leaves_meet same] at both
  obtain ⟨matched, meets, matchedAdmits⟩ := both
  have narrowsNot : state.narrow? matched = none := by
    rw [Arm.branch?, Option.mem_def.mp meets, Option.bind_some, Option.map_eq_none_iff] at nothing
    exact nothing
  rw [State.narrow?_eq_none_iff stateOver ((Constraint.hierarchy_of_meet meets).trans about)
    (Constraint.satisfiable_of_meet same meets)] at narrowsNot
  exact narrowsNot identifier ⟨stateAdmits, matchedAdmits⟩

/-- The branch of an arm, seen by one class. -/
theorem Arm.branch?_admitting (identifier : ClassId) (stateOver : state.Over hierarchy)
    (about : uncaught.hierarchy = hierarchy) (plain : arm.caught.PlainOver hierarchy) :
    ((arm.branch? state uncaught).toList.filter fun branch =>
        branch.state.Admits identifier).map Branch.handler =
      if state.Admits identifier ∧ uncaught.Admits identifier ∧ arm.caught.Admits identifier
      then [arm.handler] else [] := by
  cases branches : arm.branch? state uncaught with
  | none =>
      rw [if_neg (Arm.disjoint_of_branch?_eq_none stateOver about plain branches)]
      rfl
  | some branch =>
      obtain ⟨sameHandler, learns⟩ := Arm.learns_of_branch? stateOver about plain branches
      by_cases admitted : branch.state.Admits identifier
      · rw [if_pos ((learns.admits_iff identifier).mp admitted)]
        simp [admitted, sameHandler]
      · rw [if_neg (fun all => admitted ((learns.admits_iff identifier).mpr all))]
        simp [admitted]

/-! ## All arms -/

theorem forall_arms {clauses : List Clause} {holds : Constraint → Prop}
    (ofTypes : ∀ clause ∈ clauses, ∀ caught ∈ clause.types, holds caught) :
    ∀ arm ∈ clauses.flatMap Clause.arms, holds arm.caught := by
  intro arm member
  obtain ⟨clause, inClauses, inArms⟩ := List.mem_flatMap.mp member
  obtain ⟨caught, inTypes, isArm⟩ := List.mem_map.mp inArms
  subst isArm
  exact ofTypes clause inClauses caught inTypes

theorem sift_cons_of_none (excludes : uncaught.exclude arm.caught = none) :
    sift state uncaught (arm :: arms) =
      ⟨(arm.branch? state uncaught).toList, none⟩ := by
  rw [sift, excludes]

theorem sift_cons_of_some {remaining : Constraint}
    (excludes : uncaught.exclude arm.caught = some remaining) :
    sift state uncaught (arm :: arms) =
      ⟨(arm.branch? state uncaught).toList ++ (sift state remaining arms).branches,
        (sift state remaining arms).uncaught⟩ := by
  rw [sift, excludes]

/-- Every branch is that of an arm, for what was uncaught by then. -/
theorem exists_branch?_of_mem_sift :
    ∀ {arms : List Arm} {uncaught : Constraint}, branch ∈ (sift state uncaught arms).branches →
      ∃ arm ∈ arms, ∃ left, arm.branch? state left = some branch := by
  intro arms
  induction arms with
  | nil =>
      intro uncaught member
      simp [sift] at member
  | cons arm arms induction =>
      intro uncaught member
      cases excludes : uncaught.exclude arm.caught with
      | none =>
          rw [sift_cons_of_none excludes] at member
          exact ⟨arm, List.mem_cons_self, uncaught, Option.mem_toList.mp member⟩
      | some remaining =>
          rw [sift_cons_of_some excludes] at member
          rcases List.mem_append.mp member with here | later
          · exact ⟨arm, List.mem_cons_self, uncaught, Option.mem_toList.mp here⟩
          · obtain ⟨other, inArms, found⟩ := induction later
            exact ⟨other, List.mem_cons_of_mem arm inArms, found⟩

/-- What the exclusion of a plain arm leaves is again fit to be sifted. -/
theorem remaining_facts {remaining : Constraint} (about : uncaught.hierarchy = hierarchy)
    (satisfiable : uncaught.Satisfiable) (plain : arm.caught.PlainOver hierarchy)
    (excludes : uncaught.exclude arm.caught = some remaining) :
    remaining.hierarchy = hierarchy ∧ remaining.Satisfiable ∧
      ∀ identifier, remaining.Admits identifier ↔
        uncaught.Admits identifier ∧ ¬ arm.caught.Admits identifier := by
  refine ⟨(Constraint.hierarchy_of_exclude excludes).trans about,
    Constraint.satisfiable_of_exclude satisfiable excludes, ?_⟩
  intro identifier
  subst about
  rw [← Constraint.leaves_exclude_plain plain satisfiable, excludes, Constraint.leaves_some]

theorem caught_of_exclude_eq_none (about : uncaught.hierarchy = hierarchy)
    (satisfiable : uncaught.Satisfiable) (plain : arm.caught.PlainOver hierarchy)
    (excludes : uncaught.exclude arm.caught = none) (admitted : uncaught.Admits identifier) :
    arm.caught.Admits identifier := by
  subst about
  rw [plain.admits_iff]
  exact (Constraint.exclude_eq_none_iff plain.about.symm satisfiable).mp excludes identifier admitted

/-- Among the branches, a class shows up in the one of the first arm that
catches it and nowhere else. -/
theorem sift_admitting (identifier : ClassId) (stateOver : state.Over hierarchy) :
    ∀ {arms : List Arm} {uncaught : Constraint}, uncaught.hierarchy = hierarchy →
      uncaught.Satisfiable → (∀ arm ∈ arms, arm.caught.PlainOver hierarchy) →
      ((sift state uncaught arms).branches.filter fun branch =>
          branch.state.Admits identifier).map Branch.handler =
        if state.Admits identifier ∧ uncaught.Admits identifier
        then ((arms.find? fun arm => arm.caught.Admits identifier).map Arm.handler).toList
        else [] := by
  intro arms
  induction arms with
  | nil =>
      intro uncaught _ _ _
      simp [sift]
  | cons arm arms induction =>
      intro uncaught about satisfiable plain
      have armPlain := plain arm (by simp)
      have here := Arm.branch?_admitting identifier stateOver about armPlain
      cases excludes : uncaught.exclude arm.caught with
      | none =>
          have covered : uncaught.Admits identifier → arm.caught.Admits identifier :=
            caught_of_exclude_eq_none about satisfiable armPlain excludes
          rw [sift_cons_of_none excludes, here]
          by_cases both : state.Admits identifier ∧ uncaught.Admits identifier
          · simp [both, covered both.2]
          · rw [if_neg both, if_neg]
            exact fun all => both ⟨all.1, all.2.1⟩
      | some remaining =>
          obtain ⟨restOver, restSatisfiable, restAdmits⟩ :=
            remaining_facts about satisfiable armPlain excludes
          have later := induction restOver restSatisfiable fun other member =>
            plain other (by simp [member])
          rw [sift_cons_of_some excludes, List.filter_append, List.map_append, here, later]
          by_cases caught : arm.caught.Admits identifier
          · simp [caught, restAdmits]
          · simp [caught, restAdmits]

theorem learns_of_mem_sift (stateOver : state.Over hierarchy) :
    ∀ {arms : List Arm} {uncaught : Constraint}, uncaught.hierarchy = hierarchy →
      uncaught.Satisfiable → (∀ arm ∈ arms, arm.caught.PlainOver hierarchy) →
      branch ∈ (sift state uncaught arms).branches →
        ∃ learnt, State.Learns hierarchy state learnt branch.state := by
  intro arms
  induction arms with
  | nil =>
      intro uncaught _ _ _ member
      simp [sift] at member
  | cons arm arms induction =>
      intro uncaught about satisfiable plain member
      have armPlain := plain arm (by simp)
      cases excludes : uncaught.exclude arm.caught with
      | none =>
          rw [sift_cons_of_none excludes] at member
          exact ⟨_, (Arm.learns_of_branch? stateOver about armPlain (by simpa using member)).2⟩
      | some remaining =>
          rw [sift_cons_of_some excludes] at member
          rcases List.mem_append.mp member with here | later
          · exact ⟨_, (Arm.learns_of_branch? stateOver about armPlain (by simpa using here)).2⟩
          · obtain ⟨restOver, restSatisfiable, _⟩ :=
              remaining_facts about satisfiable armPlain excludes
            exact induction restOver restSatisfiable
              (fun other member => plain other (by simp [member])) later

/-- A class goes on exactly when no arm catches it. -/
theorem leaves_sift_uncaught :
    ∀ {arms : List Arm} {uncaught : Constraint}, uncaught.hierarchy = hierarchy →
      uncaught.Satisfiable → (∀ arm ∈ arms, arm.caught.PlainOver hierarchy) →
      (Constraint.Leaves (sift state uncaught arms).uncaught identifier ↔
        uncaught.Admits identifier ∧ ∀ arm ∈ arms, ¬ arm.caught.Admits identifier) := by
  intro arms
  induction arms with
  | nil =>
      intro uncaught _ _ _
      simp [sift]
  | cons arm arms induction =>
      intro uncaught about satisfiable plain
      have armPlain := plain arm (by simp)
      cases excludes : uncaught.exclude arm.caught with
      | none =>
          rw [sift_cons_of_none excludes]
          simp only [Constraint.leaves_none, false_iff, not_and]
          intro admitted notCaught
          exact notCaught arm (by simp)
            (caught_of_exclude_eq_none about satisfiable armPlain excludes admitted)
      | some remaining =>
          obtain ⟨restOver, restSatisfiable, restAdmits⟩ :=
            remaining_facts about satisfiable armPlain excludes
          rw [sift_cons_of_some excludes]
          simp only [induction restOver restSatisfiable fun other member =>
            plain other (by simp [member]), restAdmits, List.forall_mem_cons, and_assoc]

theorem sift_uncaught_facts :
    ∀ {arms : List Arm} {uncaught rest : Constraint}, uncaught.hierarchy = hierarchy →
      uncaught.Satisfiable → (∀ arm ∈ arms, arm.caught.PlainOver hierarchy) →
      (sift state uncaught arms).uncaught = some rest →
        rest.hierarchy = hierarchy ∧ rest.Satisfiable := by
  intro arms
  induction arms with
  | nil =>
      intro uncaught rest about satisfiable _ isRest
      cases Option.some.inj isRest
      exact ⟨about, satisfiable⟩
  | cons arm arms induction =>
      intro uncaught rest about satisfiable plain isRest
      have armPlain := plain arm (by simp)
      cases excludes : uncaught.exclude arm.caught with
      | none => simp [sift_cons_of_none excludes] at isRest
      | some remaining =>
          obtain ⟨restOver, restSatisfiable, _⟩ :=
            remaining_facts about satisfiable armPlain excludes
          rw [sift_cons_of_some excludes] at isRest
          exact induction restOver restSatisfiable
            (fun other member => plain other (by simp [member])) isRest

end Arms

/-! ## What becomes of the remainder -/

namespace Transfer

variable {state narrowed : State} {thrown uncaught : Constraint} {clauses : List Clause}
  {outer : TrapStack}

theorem throughClauses_of_caught
    (caught : (sift state thrown (clauses.flatMap Clause.arms)).uncaught = none) :
    throughClauses state thrown clauses outer =
      .finish ((sift state thrown (clauses.flatMap Clause.arms)).branches.map
        Branch.successor) := by
  simp [throughClauses, caught]

theorem throughClauses_of_infeasible
    (isUncaught : (sift state thrown (clauses.flatMap Clause.arms)).uncaught = some uncaught)
    (infeasible : state.narrow? uncaught = none) :
    throughClauses state thrown clauses outer =
      .finish ((sift state thrown (clauses.flatMap Clause.arms)).branches.map
        Branch.successor) := by
  simp [throughClauses, isUncaught, infeasible]

theorem throughClauses_of_narrow?
    (isUncaught : (sift state thrown (clauses.flatMap Clause.arms)).uncaught = some uncaught)
    (narrows : state.narrow? uncaught = some narrowed) :
    throughClauses state thrown clauses outer =
      .pass
        ((sift state thrown (clauses.flatMap Clause.arms)).branches.map Branch.successor)
        ⟨narrowed, .exception uncaught, outer⟩ := by
  simp [throughClauses, isUncaught, narrows]

/-! ## Steps of an exception -/

variable {trap : Shared Trap}

theorem step_of_catches (isRule : trap.value.rule = .catches clauses) :
    step ⟨state, .exception thrown, trap :: outer⟩ =
      throughClauses state thrown clauses outer := by
  simp only [step, through, isRule]

theorem step_of_catchAll {handler : Offset} (isRule : trap.value.rule = .catchAll handler) :
    step ⟨state, .exception thrown, trap :: outer⟩ = .finish [.instruction handler state] := by
  simp only [step, through, isRule]

theorem step_of_always {entry : FinallyEntry} (isRule : trap.value.rule = .enters entry)
    (isKind : entry.kind = .always) :
    step ⟨state, .exception thrown, trap :: outer⟩ =
      .finish [.instruction entry.jump
        { state with operands := .continuation ⟨.exception thrown, outer⟩ :: state.operands }] := by
  have runs : entry.RunsFor (.exception thrown) := .inl isKind
  simp only [step, through, isRule, runs, if_true, enterBody, State.push]

theorem step_of_resource {entry : FinallyEntry} (isRule : trap.value.rule = .enters entry)
    (isKind : entry.kind = .resource) :
    step ⟨state, .exception thrown, trap :: outer⟩ =
      .pass [] ⟨state, .exception thrown, outer⟩ := by
  have runsNot : ¬ entry.RunsFor (.exception thrown) := by
    simp [FinallyEntry.RunsFor, isKind, Target.isException]
  simp only [step, through, isRule, runsNot, if_false]

end Transfer

end Unwind
