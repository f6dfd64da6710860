import Unwind.Proofs.Narrowing
import Unwind.Proofs.Runs

/-!
# First match

An exception of one known class has one way out of a trap stack: the first clause
that catches its class, a handler for every exception, or a finally body that
runs first, whichever trap is innermost, and out of the analysed code if there is
none.  `landing` walks the stack for one class in that way and knows nothing of
constraints.

Dispatch follows all classes of a constraint at once.  `Resolves` compares the
two: each class is found in exactly one arrival, the one at its own landing, and
no arrival is there for nothing.  It is kept by every step and hence by runs.
-/

set_option autoImplicit false

namespace Unwind

def Clause.Catches (clause : Clause) (identifier : ClassId) : Prop :=
  ∃ caught ∈ clause.types, caught.Admits identifier

instance (clause : Clause) (identifier : ClassId) : Decidable (clause.Catches identifier) :=
  inferInstanceAs (Decidable (∃ caught ∈ clause.types, caught.Admits identifier))

namespace Trap

/-- Where the trap catches an exception of the class. -/
def handler? (trap : Trap) (identifier : ClassId) : Option Offset :=
  match trap.rule with
  | .catches clauses =>
      (clauses.find? fun clause => clause.Catches identifier).map Clause.handler
  | .catchAll handler => some handler
  | _ => none

/-- The finally body that an exception runs on its way through the trap. -/
def body? (trap : Trap) : Option FinallyEntry := trap.entry?.filter (·.kind = .always)

end Trap

/-- Where an exception of one class goes. -/
inductive Landing where
  | handler (offset : Offset)
  | body (entry : FinallyEntry) (outer : TrapStack)
  | outside
deriving DecidableEq

def TrapStack.landing (identifier : ClassId) : TrapStack → Landing
  | [] => .outside
  | trap :: outer =>
      match trap.value.handler? identifier, trap.value.body? with
      | some offset, _ => .handler offset
      | none, some entry => .body entry outer
      | none, none => TrapStack.landing identifier outer

/-- What is left of an exception on the way of one of its classes. -/
structure Constraint.Remains (thrown : Constraint) (identifier : ClassId)
    (uncaught : Constraint) : Prop where
  about : uncaught.hierarchy = thrown.hierarchy
  admits : uncaught.Admits identifier
  within : ∀ other, uncaught.Admits other → thrown.Admits other

theorem Constraint.remains_self {thrown : Constraint} {identifier : ClassId}
    (admitted : thrown.Admits identifier) : thrown.Remains identifier thrown :=
  ⟨rfl, admitted, fun _ => id⟩

namespace Landing

def entered? : Landing → Option FinallyEntry
  | .body entry _ => some entry
  | _ => none

/-- The successor is at the landing of the class.  Its state has kept everything
but the constraint, and what is saved or escapes is left of what was thrown. -/
def Fits (thrown : Constraint) (identifier : ClassId) (start : State) :
    Landing → Successor → Prop
  | .handler offset, .instruction actual reached =>
      actual = offset ∧ reached = { start with exception := reached.exception }
  | .body entry outer, .instruction actual reached =>
      actual = entry.jump ∧ ∃ uncaught, thrown.Remains identifier uncaught ∧
        reached =
          { start with
            operands := .continuation ⟨.exception uncaught, outer⟩ :: start.operands
            exception := reached.exception }
  | .outside, .escape uncaught reached =>
      thrown.Remains identifier uncaught ∧
        reached = { start with exception := reached.exception }
  | _, _ => False

end Landing

/-- Catch clauses with plain types of the hierarchy, a handler for every
exception, or the entry of a finally body. -/
def TrapRule.HandlesOver (hierarchy : Shared Hierarchy) : TrapRule → Prop
  | .catches clauses =>
      ∀ clause ∈ clauses, ∀ caught ∈ clause.types, caught.PlainOver hierarchy
  | .catchAll _ | .enters _ => True
  | .insideFinally | .insideInlined => False

instance (hierarchy : Shared Hierarchy) :
    (rule : TrapRule) → Decidable (rule.HandlesOver hierarchy)
  | .catches clauses =>
      inferInstanceAs
        (Decidable (∀ clause ∈ clauses, ∀ caught ∈ clause.types, caught.PlainOver hierarchy))
  | .catchAll _ | .enters _ => inferInstanceAs (Decidable True)
  | .insideFinally | .insideInlined => inferInstanceAs (Decidable False)

def TrapStack.HandlesOver (hierarchy : Shared Hierarchy) (traps : TrapStack) : Prop :=
  ∀ trap ∈ traps, trap.value.rule.HandlesOver hierarchy

instance (hierarchy : Shared Hierarchy) (traps : TrapStack) :
    Decidable (traps.HandlesOver hierarchy) :=
  inferInstanceAs (Decidable (∀ trap ∈ traps, trap.value.rule.HandlesOver hierarchy))

theorem TrapStack.HandlesOver.of_suffix {hierarchy : Shared Hierarchy} {traps outer : TrapStack}
    (handles : traps.HandlesOver hierarchy) (suffix : outer <:+ traps) :
    outer.HandlesOver hierarchy := fun trap member => handles trap (suffix.subset member)

/-- The thrown constraint and the state are about the same hierarchy and leave a
class in common. -/
structure Throws (hierarchy : Shared Hierarchy) (state : State) (thrown : Constraint) : Prop where
  about : thrown.hierarchy = hierarchy
  stateOver : state.Over hierarchy
  shared : ∃ identifier, state.Admits identifier ∧ thrown.Admits identifier

theorem Throws.satisfiable {hierarchy : Shared Hierarchy} {state : State} {thrown : Constraint}
    (throws : Throws hierarchy state thrown) : thrown.Satisfiable := by
  obtain ⟨identifier, _, admitted⟩ := throws.shared
  exact Constraint.satisfiable_of_admits admitted

structure Resolves (hierarchy : Shared Hierarchy) (state : State) (thrown : Constraint)
    (traps : TrapStack) (arrivals : List Arrival) : Prop where
  lands : ∀ identifier, state.Admits identifier → thrown.Admits identifier →
    ∃ arrival, (arrivals.filter fun other => other.successor.state.Admits identifier) = [arrival] ∧
      (traps.landing identifier).Fits thrown identifier state arrival.successor ∧
      arrival.entered? = (traps.landing identifier).entered?
  possible : ∀ arrival ∈ arrivals, ∃ identifier,
    state.Admits identifier ∧ thrown.Admits identifier ∧
      arrival.successor.state.Admits identifier
  narrows : ∀ arrival ∈ arrivals, ∀ identifier,
    arrival.successor.state.Admits identifier → state.Admits identifier
  about : ∀ arrival ∈ arrivals, arrival.successor.state.Over hierarchy

theorem mem_of_only {arrivals : List Arrival} {arrival : Arrival} {identifier : ClassId}
    (only : (arrivals.filter fun other => other.successor.state.Admits identifier) = [arrival]) :
    arrival ∈ arrivals ∧ arrival.successor.state.Admits identifier := by
  have inFilter : arrival ∈ arrivals.filter fun other =>
      other.successor.state.Admits identifier := by
    rw [only]
    exact List.mem_singleton_self arrival
  obtain ⟨member, reached⟩ := List.mem_filter.mp inFilter
  exact ⟨member, of_decide_eq_true reached⟩

/-! ## Landings of a stack -/

section Landings

variable {identifier : ClassId} {trap : Shared Trap} {outer : TrapStack}

theorem landing_of_handler {offset : Offset}
    (handles : trap.value.handler? identifier = some offset) :
    TrapStack.landing identifier (trap :: outer) = .handler offset := by
  rw [TrapStack.landing, handles]

theorem landing_of_body {entry : FinallyEntry}
    (passes : trap.value.handler? identifier = none) (runs : trap.value.body? = some entry) :
    TrapStack.landing identifier (trap :: outer) = .body entry outer := by
  rw [TrapStack.landing, passes, runs]

theorem landing_of_pass (passes : trap.value.handler? identifier = none)
    (runsNot : trap.value.body? = none) :
    TrapStack.landing identifier (trap :: outer) = TrapStack.landing identifier outer := by
  rw [TrapStack.landing, passes, runsNot]

end Landings

/-- Trying the arms one by one and trying the clauses one by one is the same. -/
theorem find?_arms (identifier : ClassId) (clauses : List Clause) :
    ((clauses.flatMap Clause.arms).find? fun arm => arm.caught.Admits identifier).map
        Arm.handler =
      (clauses.find? fun clause => clause.Catches identifier).map Clause.handler := by
  induction clauses with
  | nil => rfl
  | cons clause clauses induction =>
      rw [List.flatMap_cons, List.find?_append, List.find?_cons]
      by_cases catches : clause.Catches identifier
      · obtain ⟨caught, member, admitted⟩ := catches
        have found : (clause.arms.find? fun arm => arm.caught.Admits identifier).isSome := by
          rw [List.find?_isSome]
          exact ⟨⟨caught, clause.handler⟩, List.mem_map.mpr ⟨caught, member, rfl⟩,
            by simpa using admitted⟩
        obtain ⟨arm, isFirst⟩ := Option.isSome_iff_exists.mp found
        obtain ⟨_, _, isArm⟩ := List.mem_map.mp (List.mem_of_find?_eq_some isFirst)
        have catchesAgain : clause.Catches identifier := ⟨caught, member, admitted⟩
        simp [isFirst, catchesAgain, ← isArm]
      · have notFound : (clause.arms.find? fun arm => arm.caught.Admits identifier) = none := by
          rw [List.find?_eq_none]
          intro arm member admitted
          obtain ⟨caught, inTypes, isArm⟩ := List.mem_map.mp member
          subst isArm
          exact catches ⟨caught, inTypes, by simpa using admitted⟩
        rw [notFound, Option.none_or, induction]
        simp [catches]

/-! ## Single steps -/

section Steps

variable {hierarchy : Shared Hierarchy} {state : State} {thrown : Constraint}
  {trap : Shared Trap} {outer traps : TrapStack}

/-- A transfer that arrives at a single place, with the constraint it started
with. -/
theorem resolves_single {arrival : Arrival} (throws : Throws hierarchy state thrown)
    (kept : arrival.successor.state.exception = state.exception)
    (fits : ∀ identifier, thrown.Admits identifier →
      (traps.landing identifier).Fits thrown identifier state arrival.successor ∧
        arrival.entered? = (traps.landing identifier).entered?) :
    Resolves hierarchy state thrown traps [arrival] := by
  have sameAdmits : ∀ identifier,
      arrival.successor.state.Admits identifier ↔ state.Admits identifier := by
    intro identifier
    rw [State.Admits, kept, State.Admits]
  refine ⟨?_, ?_, ?_, ?_⟩
  · intro identifier stateAdmits admitted
    refine ⟨arrival, ?_, fits identifier admitted⟩
    simp [sameAdmits, stateAdmits]
  · intro other member
    obtain ⟨identifier, stateAdmits, admitted⟩ := throws.shared
    cases List.mem_singleton.mp member
    exact ⟨identifier, stateAdmits, admitted, (sameAdmits identifier).mpr stateAdmits⟩
  · intro other member identifier
    cases List.mem_singleton.mp member
    exact (sameAdmits identifier).mp
  · intro other member
    cases List.mem_singleton.mp member
    rw [State.Over, kept]
    exact throws.stateOver

theorem resolves_of_landing_eq {arrivals : List Arrival}
    (same : ∀ identifier, TrapStack.landing identifier (trap :: outer) =
      TrapStack.landing identifier outer)
    (resolves : Resolves hierarchy state thrown outer arrivals) :
    Resolves hierarchy state thrown (trap :: outer) arrivals := by
  refine ⟨?_, resolves.possible, resolves.narrows, resolves.about⟩
  intro identifier
  rw [same identifier]
  exact resolves.lands identifier

/-! ### Catch clauses -/

variable {clauses : List Clause}

theorem handler?_of_catches (isCatch : trap.value.rule = .catches clauses)
    (identifier : ClassId) :
    trap.value.handler? identifier =
      (clauses.find? fun clause => clause.Catches identifier).map Clause.handler := by
  rw [Trap.handler?, isCatch]

theorem landing_of_catches_none (isCatch : trap.value.rule = .catches clauses)
    {identifier : ClassId} (passes : trap.value.handler? identifier = none) :
    TrapStack.landing identifier (trap :: outer) = TrapStack.landing identifier outer := by
  apply landing_of_pass passes
  rw [Trap.body?, Trap.entry?, isCatch]
  rfl

theorem handler?_eq_none_iff (isCatch : trap.value.rule = .catches clauses)
    {identifier : ClassId} :
    trap.value.handler? identifier = none ↔
      ∀ arm ∈ clauses.flatMap Clause.arms, ¬ arm.caught.Admits identifier := by
  rw [handler?_of_catches isCatch, ← find?_arms, Option.map_eq_none_iff, List.find?_eq_none]
  simp only [decide_eq_true_eq]

/-- The branches that the clauses of a trap send to their handlers. -/
def caughtAt (trap : Trap) (state : State) (thrown : Constraint) (clauses : List Clause) :
    List Arrival :=
  (sift state thrown (clauses.flatMap Clause.arms)).branches.map fun branch =>
    ⟨some trap, branch.successor⟩

theorem learns_of_mem_caughtAt (throws : Throws hierarchy state thrown)
    (plain : ∀ arm ∈ clauses.flatMap Clause.arms, arm.caught.PlainOver hierarchy)
    {arrival : Arrival} (member : arrival ∈ caughtAt trap.value state thrown clauses) :
    ∃ learnt, State.Learns hierarchy state learnt arrival.successor.state := by
  obtain ⟨branch, inBranches, isArrival⟩ := List.mem_map.mp member
  subst isArrival
  exact learns_of_mem_sift throws.stateOver throws.about throws.satisfiable plain inBranches

/-- Seen by one class, the branches are the one at its handler or none. -/
theorem caughtAt_admitting (throws : Throws hierarchy state thrown)
    (isCatch : trap.value.rule = .catches clauses)
    (plain : ∀ arm ∈ clauses.flatMap Clause.arms, arm.caught.PlainOver hierarchy)
    (identifier : ClassId) :
    ∃ branches : List Branch,
      ((caughtAt trap.value state thrown clauses).filter fun arrival =>
          arrival.successor.state.Admits identifier) =
        branches.map (fun branch => ⟨some trap.value, branch.successor⟩) ∧
      branches.map Branch.handler =
        if state.Admits identifier ∧ thrown.Admits identifier
        then (trap.value.handler? identifier).toList else [] := by
  have sifted := sift_admitting identifier throws.stateOver throws.about throws.satisfiable plain
  rw [find?_arms, ← handler?_of_catches isCatch] at sifted
  refine ⟨_, ?_, sifted⟩
  rw [caughtAt, List.filter_map]
  rfl

theorem caughtAt_of_handler (throws : Throws hierarchy state thrown)
    (isCatch : trap.value.rule = .catches clauses)
    (plain : ∀ arm ∈ clauses.flatMap Clause.arms, arm.caught.PlainOver hierarchy)
    {identifier : ClassId} (stateAdmits : state.Admits identifier)
    (admitted : thrown.Admits identifier) {offset : Offset}
    (handles : trap.value.handler? identifier = some offset) :
    ∃ arrival, ((caughtAt trap.value state thrown clauses).filter fun other =>
        other.successor.state.Admits identifier) = [arrival] ∧
      (Landing.handler offset).Fits thrown identifier state arrival.successor ∧
      arrival.entered? = none := by
  obtain ⟨branches, isFilter, handlers⟩ := caughtAt_admitting throws isCatch plain identifier
  rw [if_pos ⟨stateAdmits, admitted⟩, handles, Option.toList_some,
    List.map_eq_singleton_iff] at handlers
  obtain ⟨branch, rfl, sameHandler⟩ := handlers
  rw [List.map_singleton] at isFilter
  obtain ⟨learnt, learns⟩ := learns_of_mem_caughtAt throws plain (mem_of_only isFilter).1
  refine ⟨_, isFilter, ⟨sameHandler, learns.frame⟩, ?_⟩
  show trap.value.entry? = none
  rw [Trap.entry?, isCatch]

theorem caughtAt_of_pass (throws : Throws hierarchy state thrown)
    (isCatch : trap.value.rule = .catches clauses)
    (plain : ∀ arm ∈ clauses.flatMap Clause.arms, arm.caught.PlainOver hierarchy)
    {identifier : ClassId} (passes : trap.value.handler? identifier = none) :
    ((caughtAt trap.value state thrown clauses).filter fun other =>
        other.successor.state.Admits identifier) = [] := by
  obtain ⟨branches, isFilter, handlers⟩ := caughtAt_admitting throws isCatch plain identifier
  rw [passes, Option.toList_none, ite_self, List.map_eq_nil_iff] at handlers
  rw [isFilter, handlers, List.map_nil]

theorem caughtAt_possible (throws : Throws hierarchy state thrown)
    (isCatch : trap.value.rule = .catches clauses)
    (plain : ∀ arm ∈ clauses.flatMap Clause.arms, arm.caught.PlainOver hierarchy)
    {arrival : Arrival} (member : arrival ∈ caughtAt trap.value state thrown clauses)
    {identifier : ClassId} (reached : arrival.successor.state.Admits identifier) :
    state.Admits identifier ∧ thrown.Admits identifier := by
  obtain ⟨branches, isFilter, handlers⟩ := caughtAt_admitting throws isCatch plain identifier
  apply Decidable.byContradiction
  intro notBoth
  rw [if_neg notBoth, List.map_eq_nil_iff] at handlers
  rw [handlers, List.map_nil, List.filter_eq_nil_iff] at isFilter
  exact isFilter arrival member (by simpa using reached)

/-- Every branch is there for a class, and has only narrowed the state. -/
theorem caughtAt_facts (throws : Throws hierarchy state thrown)
    (isCatch : trap.value.rule = .catches clauses)
    (plain : ∀ arm ∈ clauses.flatMap Clause.arms, arm.caught.PlainOver hierarchy)
    {arrival : Arrival} (member : arrival ∈ caughtAt trap.value state thrown clauses) :
    (∃ identifier, state.Admits identifier ∧ thrown.Admits identifier ∧
        arrival.successor.state.Admits identifier) ∧
      (∀ identifier, arrival.successor.state.Admits identifier → state.Admits identifier) ∧
      arrival.successor.state.Over hierarchy := by
  obtain ⟨learnt, learns⟩ := learns_of_mem_caughtAt throws plain member
  refine ⟨?_, ?_, learns.about⟩
  · obtain ⟨identifier, reached⟩ := learns.possible
    obtain ⟨stateAdmits, admitted⟩ := caughtAt_possible throws isCatch plain member reached
    exact ⟨identifier, stateAdmits, admitted, reached⟩
  · intro identifier reached
    exact ((learns.admits_iff identifier).mp reached).1

/-- Clauses either catch every class that is still possible, or pass on a transfer
of exactly the classes that they do not catch. -/
theorem throughClauses_cases (throws : Throws hierarchy state thrown)
    (isCatch : trap.value.rule = .catches clauses)
    (plain : ∀ arm ∈ clauses.flatMap Clause.arms, arm.caught.PlainOver hierarchy) :
    let branches :=
      (sift state thrown (clauses.flatMap Clause.arms)).branches.map Branch.successor
    (Transfer.throughClauses state thrown clauses outer = .finish branches ∧
        ∀ identifier, state.Admits identifier → thrown.Admits identifier →
          trap.value.handler? identifier ≠ none) ∨
      ∃ narrowed uncaught,
        Transfer.throughClauses state thrown clauses outer =
            .pass branches ⟨narrowed, .exception uncaught, outer⟩ ∧
          uncaught.hierarchy = hierarchy ∧
          State.Learns hierarchy state uncaught.Admits narrowed ∧
          ∀ identifier, uncaught.Admits identifier ↔
            thrown.Admits identifier ∧ trap.value.handler? identifier = none := by
  intro branches
  have leaves : ∀ identifier,
      Constraint.Leaves (sift state thrown (clauses.flatMap Clause.arms)).uncaught identifier ↔
        thrown.Admits identifier ∧ trap.value.handler? identifier = none := by
    intro identifier
    rw [handler?_eq_none_iff isCatch]
    exact leaves_sift_uncaught throws.about throws.satisfiable plain
  cases isUncaught : (sift state thrown (clauses.flatMap Clause.arms)).uncaught with
  | none =>
      refine .inl ⟨Transfer.throughClauses_of_caught isUncaught, ?_⟩
      intro identifier _ admitted passes
      have left := (leaves identifier).mpr ⟨admitted, passes⟩
      rw [isUncaught] at left
      exact Constraint.leaves_none left
  | some uncaught =>
      obtain ⟨about, satisfiable⟩ :=
        sift_uncaught_facts throws.about throws.satisfiable plain isUncaught
      simp only [isUncaught, Constraint.leaves_some] at leaves
      cases narrows : state.narrow? uncaught with
      | none =>
          refine .inl ⟨Transfer.throughClauses_of_infeasible isUncaught narrows, ?_⟩
          intro identifier stateAdmits admitted passes
          rw [State.narrow?_eq_none_iff throws.stateOver about satisfiable] at narrows
          exact narrows identifier ⟨stateAdmits, (leaves identifier).mpr ⟨admitted, passes⟩⟩
      | some narrowed =>
          exact .inr ⟨narrowed, uncaught,
            Transfer.throughClauses_of_narrow? isUncaught narrows, about,
            State.learns_of_narrow? throws.stateOver about satisfiable narrows, leaves⟩

theorem resolves_of_caught (throws : Throws hierarchy state thrown)
    (isCatch : trap.value.rule = .catches clauses)
    (plain : ∀ arm ∈ clauses.flatMap Clause.arms, arm.caught.PlainOver hierarchy)
    (allCaught : ∀ identifier, state.Admits identifier → thrown.Admits identifier →
      trap.value.handler? identifier ≠ none) :
    Resolves hierarchy state thrown (trap :: outer)
      (caughtAt trap.value state thrown clauses) := by
  refine ⟨?_, ?_, ?_, ?_⟩
  · intro identifier stateAdmits admitted
    obtain ⟨offset, handles⟩ :=
      Option.ne_none_iff_exists'.mp (allCaught identifier stateAdmits admitted)
    rw [landing_of_handler handles]
    exact caughtAt_of_handler throws isCatch plain stateAdmits admitted handles
  · intro arrival member
    exact (caughtAt_facts throws isCatch plain member).1
  · intro arrival member
    exact (caughtAt_facts throws isCatch plain member).2.1
  · intro arrival member
    exact (caughtAt_facts throws isCatch plain member).2.2

/-- A transfer that was passed on lands where the whole of it does. -/
theorem Landing.Fits.of_passed {landing : Landing} {identifier : ClassId} {narrowed : State}
    {uncaught : Constraint} {exception : Option Constraint} {successor : Successor}
    (frame : narrowed = { state with exception := exception })
    (left : thrown.Remains identifier uncaught)
    (fits : landing.Fits uncaught identifier narrowed successor) :
    landing.Fits thrown identifier state successor := by
  subst frame
  have remains : ∀ {later}, uncaught.Remains identifier later →
      thrown.Remains identifier later := by
    intro later remains
    exact ⟨remains.about.trans left.about, remains.admits,
      fun other admitted => left.within other (remains.within other admitted)⟩
  cases landing with
  | handler offset => cases successor <;> exact fits
  | body entry outer =>
      cases successor with
      | instruction actual reached =>
          obtain ⟨sameOffset, saved, isLeft, pushed⟩ := fits
          exact ⟨sameOffset, saved, remains isLeft, pushed⟩
      | escape exception reached => exact fits.elim
      | ret reached => exact fits.elim
  | outside =>
      cases successor with
      | escape exception reached => exact ⟨remains fits.1, fits.2⟩
      | instruction actual reached => exact fits.elim
      | ret reached => exact fits.elim

/-- What the clauses have caught stands before what becomes of the rest. -/
theorem resolves_of_passed (throws : Throws hierarchy state thrown)
    (isCatch : trap.value.rule = .catches clauses)
    (plain : ∀ arm ∈ clauses.flatMap Clause.arms, arm.caught.PlainOver hierarchy)
    {narrowed : State} {uncaught : Constraint} (about : uncaught.hierarchy = hierarchy)
    (learns : State.Learns hierarchy state uncaught.Admits narrowed)
    (uncaughtAdmits : ∀ identifier, uncaught.Admits identifier ↔
      thrown.Admits identifier ∧ trap.value.handler? identifier = none)
    {later : List Arrival} (resolves : Resolves hierarchy narrowed uncaught outer later) :
    Resolves hierarchy state thrown (trap :: outer)
      (caughtAt trap.value state thrown clauses ++ later) := by
  refine ⟨?_, ?_, ?_, ?_⟩
  · intro identifier stateAdmits admitted
    rw [List.filter_append]
    cases handles : trap.value.handler? identifier with
    | some offset =>
        -- the class is gone from the state that the rest starts from
        have laterNone : (later.filter fun other =>
            other.successor.state.Admits identifier) = [] := by
          rw [List.filter_eq_nil_iff]
          intro arrival member reached
          have inNarrowed := resolves.narrows arrival member identifier (by simpa using reached)
          have inUncaught := ((learns.admits_iff identifier).mp inNarrowed).2
          have passes := ((uncaughtAdmits identifier).mp inUncaught).2
          rw [handles] at passes
          contradiction
        rw [landing_of_handler handles, laterNone, List.append_nil]
        exact caughtAt_of_handler throws isCatch plain stateAdmits admitted handles
    | none =>
        have inUncaught := (uncaughtAdmits identifier).mpr ⟨admitted, handles⟩
        have inNarrowed := (learns.admits_iff identifier).mpr ⟨stateAdmits, inUncaught⟩
        obtain ⟨arrival, isFilter, fits, entered⟩ :=
          resolves.lands identifier inNarrowed inUncaught
        rw [landing_of_catches_none isCatch handles,
          caughtAt_of_pass throws isCatch plain handles, List.nil_append]
        have left : thrown.Remains identifier uncaught :=
          ⟨about.trans throws.about.symm, inUncaught,
            fun other admittedOther => ((uncaughtAdmits other).mp admittedOther).1⟩
        exact ⟨arrival, isFilter, fits.of_passed learns.frame left, entered⟩
  · intro arrival member
    rcases List.mem_append.mp member with here | after
    · exact (caughtAt_facts throws isCatch plain here).1
    · obtain ⟨identifier, inNarrowed, inUncaught, reached⟩ := resolves.possible arrival after
      exact ⟨identifier, ((learns.admits_iff identifier).mp inNarrowed).1,
        ((uncaughtAdmits identifier).mp inUncaught).1, reached⟩
  · intro arrival member identifier reached
    rcases List.mem_append.mp member with here | after
    · exact (caughtAt_facts throws isCatch plain here).2.1 identifier reached
    · have inNarrowed := resolves.narrows arrival after identifier reached
      exact ((learns.admits_iff identifier).mp inNarrowed).1
  · intro arrival member
    rcases List.mem_append.mp member with here | after
    · exact (caughtAt_facts throws isCatch plain here).2.2
    · exact resolves.about arrival after

/-! ### All traps -/

theorem step_resolves (throws : Throws hierarchy state thrown)
    (handles : trap.value.rule.HandlesOver hierarchy) :
    let transfer : Transfer := ⟨state, .exception thrown, trap :: outer⟩
    (∃ successors, transfer.step = .finish successors ∧
        Resolves hierarchy state thrown (trap :: outer) (transfer.sends successors)) ∨
      ∃ branches narrowed uncaught,
        transfer.step = .pass branches ⟨narrowed, .exception uncaught, outer⟩ ∧
          Throws hierarchy narrowed uncaught ∧
          ∀ later, Resolves hierarchy narrowed uncaught outer later →
            Resolves hierarchy state thrown (trap :: outer) (transfer.sends branches ++ later) := by
  intro transfer
  cases isRule : trap.value.rule with
  | catches clauses =>
      rw [isRule] at handles
      have plain := forall_arms handles
      have sends : transfer.sends
          ((sift state thrown (clauses.flatMap Clause.arms)).branches.map Branch.successor) =
            caughtAt trap.value state thrown clauses := by
        rw [Transfer.sends, List.map_map]
        rfl
      have steps : transfer.step = Transfer.throughClauses state thrown clauses outer :=
        Transfer.step_of_catches isRule
      rcases throughClauses_cases throws isRule plain with
        ⟨finishes, allCaught⟩ | ⟨narrowed, uncaught, passes, about, learns, uncaughtAdmits⟩
      · refine .inl ⟨_, steps.trans finishes, ?_⟩
        rw [sends]
        exact resolves_of_caught throws isRule plain allCaught
      · obtain ⟨identifier, inNarrowed⟩ := learns.possible
        have shared : ∃ identifier, narrowed.Admits identifier ∧ uncaught.Admits identifier :=
          ⟨identifier, inNarrowed, ((learns.admits_iff identifier).mp inNarrowed).2⟩
        refine .inr ⟨_, narrowed, uncaught, steps.trans passes, ⟨about, learns.about, shared⟩, ?_⟩
        intro later resolves
        rw [sends]
        exact resolves_of_passed throws isRule plain about learns uncaughtAdmits resolves
  | catchAll handler =>
      refine .inl ⟨_, Transfer.step_of_catchAll isRule, ?_⟩
      apply resolves_single throws rfl
      intro identifier _
      have handlesAll : trap.value.handler? identifier = some handler := by
        rw [Trap.handler?, isRule]
      rw [landing_of_handler handlesAll]
      refine ⟨⟨rfl, rfl⟩, ?_⟩
      show trap.value.entry? = none
      rw [Trap.entry?, isRule]
  | enters entry =>
      have passesAll : ∀ identifier, trap.value.handler? identifier = none := by
        intro identifier
        rw [Trap.handler?, isRule]
      have isEntry : trap.value.entry? = some entry := by
        rw [Trap.entry?, isRule]
      cases isKind : entry.kind with
      | always =>
          have runs : trap.value.body? = some entry := by
            rw [Trap.body?, isEntry]
            simp [isKind]
          refine .inl ⟨_, Transfer.step_of_always isRule isKind, ?_⟩
          apply resolves_single throws rfl
          intro identifier admitted
          rw [landing_of_body (passesAll identifier) runs]
          exact ⟨⟨rfl, thrown, Constraint.remains_self admitted, rfl⟩, isEntry⟩
      | resource =>
          have runsNot : trap.value.body? = none := by
            rw [Trap.body?, isEntry]
            simp [isKind]
          refine .inr ⟨[], state, thrown, Transfer.step_of_resource isRule isKind, throws, ?_⟩
          intro later resolves
          exact resolves_of_landing_eq
            (fun identifier => landing_of_pass (passesAll identifier) runsNot) resolves
  | insideFinally => simp [isRule, TrapRule.HandlesOver] at handles
  | insideInlined => simp [isRule, TrapRule.HandlesOver] at handles

end Steps

/-! ## Runs -/

section Runs

variable {hierarchy : Shared Hierarchy}

theorem arrivals_resolve :
    ∀ {traps : TrapStack} {steps : Nat} {state : State} {thrown : Constraint},
      Throws hierarchy state thrown → traps.HandlesOver hierarchy → traps.length < steps →
        ∃ arrivals, Transfer.arrivals steps ⟨state, .exception thrown, traps⟩ =
            some (.ok arrivals) ∧
          Resolves hierarchy state thrown traps arrivals := by
  intro traps
  induction traps with
  | nil =>
      intro steps state thrown throws _ enough
      rw [List.length_nil] at enough
      obtain ⟨steps, rfl⟩ : ∃ fewer, steps = fewer + 1 := ⟨steps - 1, by omega⟩
      refine ⟨_, Transfer.arrivals_of_finish rfl, ?_⟩
      apply resolves_single throws rfl
      intro identifier admitted
      exact ⟨⟨Constraint.remains_self admitted, rfl⟩, rfl⟩
  | cons trap outer induction =>
      intro steps state thrown throws handles enough
      rw [List.length_cons] at enough
      obtain ⟨steps, rfl⟩ : ∃ fewer, steps = fewer + 1 := ⟨steps - 1, by omega⟩
      have enoughLeft : outer.length < steps := by omega
      have outerHandles := handles.of_suffix (List.suffix_cons trap outer)
      rcases step_resolves throws (handles trap (by simp)) with
        ⟨successors, finishes, resolves⟩ | ⟨branches, narrowed, uncaught, passes, restThrows, extend⟩
      · exact ⟨_, Transfer.arrivals_of_finish finishes, resolves⟩
      · obtain ⟨later, arrives, resolves⟩ := induction restThrows outerHandles enoughLeft
        exact ⟨_, Transfer.arrivals_of_pass passes arrives, extend later resolves⟩

theorem throws_of_formed {state : State} {thrown : Constraint} (formed : thrown.Formed)
    (about : thrown.hierarchy = hierarchy)
    (compatible : ∀ known ∈ state.exception, known.hierarchy = hierarchy ∧
      ∃ identifier, known.Admits identifier ∧ thrown.Admits identifier) :
    Throws hierarchy state thrown := by
  refine ⟨about, fun known isKnown => (compatible known isKnown).1, ?_⟩
  cases isKnown : state.exception with
  | none => exact ⟨thrown.upper, State.admits_of_none isKnown, formed.satisfiable⟩
  | some known =>
      obtain ⟨identifier, knownAdmits, admitted⟩ := (compatible known isKnown).2
      exact ⟨identifier, (State.admits_iff_of_some isKnown).mpr knownAdmits, admitted⟩

/-- Dispatch of an exception agrees with the way of each of its classes: whatever
class is thrown, exactly one successor has a state that admits it, and that one
is at the first match of the class.  Every successor is the one of some class. -/
theorem dispatch_lands_each_class {limits : Limits} {state : State} {thrown : Constraint}
    {traps : TrapStack} (formed : thrown.Formed) (about : thrown.hierarchy = hierarchy)
    (handles : traps.HandlesOver hierarchy)
    (compatible : ∀ known ∈ state.exception, known.hierarchy = hierarchy ∧
      ∃ identifier, known.Admits identifier ∧ thrown.Admits identifier)
    (deep : traps.length < limits.maxDepth) (unlimited : limits.maxSuccessors = 0) :
    ∃ successors,
      Transfer.dispatch limits ⟨state, .exception thrown, traps⟩ = .ok successors ∧
      (∀ identifier, thrown.Admits identifier → state.Admits identifier →
        ∃ successor,
          (successors.filter fun other => other.state.Admits identifier) = [successor] ∧
          (traps.landing identifier).Fits thrown identifier state successor) ∧
      ∀ successor ∈ successors,
        (∃ identifier, thrown.Admits identifier ∧ state.Admits identifier ∧
          successor.state.Admits identifier) ∧
        ∀ identifier, successor.state.Admits identifier → state.Admits identifier := by
  obtain ⟨arrivals, arrives, resolves⟩ :=
    arrivals_resolve (throws_of_formed formed about compatible) handles deep
  refine ⟨arrivals.map Arrival.successor, ?_, ?_, ?_⟩
  · exact (Transfer.round_of_arrives
      (Transfer.dispatchArrivals_of_arrivals arrives unlimited)).dispatches
  · intro identifier admitted stateAdmits
    obtain ⟨arrival, isFilter, fits, _⟩ := resolves.lands identifier stateAdmits admitted
    refine ⟨arrival.successor, ?_, fits⟩
    rw [List.filter_map]
    exact congrArg (List.map Arrival.successor) isFilter
  · intro successor member
    obtain ⟨arrival, inArrivals, isSuccessor⟩ := List.mem_map.mp member
    subst isSuccessor
    obtain ⟨identifier, stateAdmits, admitted, reached⟩ := resolves.possible arrival inArrivals
    exact ⟨⟨identifier, admitted, stateAdmits, reached⟩, resolves.narrows arrival inArrivals⟩

/-- Catch clauses inside a block with a finally body inside catch clauses. -/
def TrapStack.nested : TrapStack :=
  [⟨0, ⟨0⟩, .catches [⟨[.instanceOf Hierarchy.throwables ⟨2⟩], ⟨10⟩⟩]⟩,
    ⟨1, ⟨1⟩, .enters ⟨⟨0⟩, .always, ⟨50⟩⟩⟩,
    ⟨2, ⟨2⟩, .catches [⟨[.instanceOf Hierarchy.throwables ⟨3⟩], ⟨20⟩⟩]⟩]

theorem dispatch_lands_nested :
    let state : State :=
      { State.initial with exception := some (.instanceOf Hierarchy.throwables ⟨1⟩) }
    let thrown := Constraint.instanceOf Hierarchy.throwables ⟨0⟩
    ∃ successors,
      Transfer.dispatch .standard ⟨state, .exception thrown, .nested⟩ = .ok successors ∧
      (∃ successor, (successors.filter fun other => other.state.Admits ⟨2⟩) = [successor] ∧
        (Landing.handler ⟨10⟩).Fits thrown ⟨2⟩ state successor) ∧
      ∃ successor, (successors.filter fun other => other.state.Admits ⟨3⟩) = [successor] ∧
        (TrapStack.landing ⟨3⟩ .nested).Fits thrown ⟨3⟩ state successor := by
  intro state thrown
  have compatible : ∀ known ∈ state.exception, known.hierarchy = Hierarchy.throwables ∧
      ∃ identifier, known.Admits identifier ∧ thrown.Admits identifier := by
    intro known isKnown
    cases Option.some.inj isKnown
    exact ⟨rfl, ⟨1⟩, by decide, by decide⟩
  have handles : TrapStack.nested.HandlesOver Hierarchy.throwables := by decide
  have deep : TrapStack.nested.length < Limits.standard.maxDepth := by decide
  obtain ⟨successors, dispatches, lands, _⟩ :=
    dispatch_lands_each_class (.instanceOf _ _) rfl handles compatible deep rfl
  exact ⟨successors, dispatches, lands ⟨2⟩ (by decide) (by decide),
    lands ⟨3⟩ (by decide) (by decide)⟩

end Runs

end Unwind
