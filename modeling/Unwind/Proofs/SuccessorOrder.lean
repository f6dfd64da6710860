import Unwind.Proofs.Effects

/-!
# The order of successors

The successors of a dispatch are the branches to handlers, followed by at most one
successor of any other kind: where the transfer ends that no clause has caught.  A
branch belongs to an arm, that is to one caught type of a clause, and the branches
come in the order of the arms on the way, from trap to trap and clause to clause.

The way is the list of traps that the run meets.  The end of a finally body takes
up saved traps, but outside bodies the way is the trap stack itself, up to where the
run ends.
-/

set_option autoImplicit false

namespace Unwind

/-- The caught types of the trap in their order, with the handlers of their clauses. -/
def Trap.arms (trap : Trap) : List Arm :=
  match trap.rule with
  | .catches clauses => clauses.flatMap Clause.arms
  | _ => []

def TrapStack.arms (traps : TrapStack) : List Arm := traps.flatMap fun trap => trap.value.arms

theorem TrapStack.arms_append (inner outer : TrapStack) :
    arms (inner ++ outer) = arms inner ++ arms outer :=
  List.flatMap_append

namespace Arrival

/-- The arrival is at the handler of a catch clause. -/
inductive ByClause : Arrival → Prop
  | handles {trap : Trap} {clauses : List Clause} {clause : Clause} {state : State} :
      trap.rule = .catches clauses → clause ∈ clauses →
        ByClause ⟨some trap, .instruction clause.handler state⟩

/-- The arrival is where a transfer ends that no clause has caught. -/
inductive Last : Arrival → Prop
  | escapes {exception : Constraint} {state : State} : Last ⟨none, .escape exception state⟩
  | returns {state : State} : Last ⟨none, .ret state⟩
  | jumps {offset : Offset} {state : State} : Last ⟨none, .instruction offset state⟩
  | redirected {trap : Trap} {handler : Offset} {state : State} :
      trap.rule = .catchAll handler → Last ⟨some trap, .instruction handler state⟩
  | enters {trap : Trap} {entry : FinallyEntry} {state : State} :
      trap.rule = .enters entry → Last ⟨some trap, .instruction entry.jump state⟩

theorem ByClause.sender {arrival : Arrival} (byClause : arrival.ByClause) :
    ∃ trap clauses, arrival.sender = some trap ∧ trap.rule = .catches clauses := by
  cases byClause with
  | handles isRule _ => exact ⟨_, _, rfl, isRule⟩

theorem Last.not_byClause {arrival : Arrival} (isLast : arrival.Last) : ¬ arrival.ByClause := by
  intro byClause
  obtain ⟨trap, clauses, isSender, isRule⟩ := byClause.sender
  cases isLast with
  | escapes | returns | jumps => contradiction
  | redirected isOther | enters isOther =>
      cases isSender
      simp [isRule] at isOther

end Arrival

/-- Branches in the order of the arms on the way, and at most one arrival after them. -/
structure InOrder (way : TrapStack) (branches last : List Arrival) : Prop where
  byClause : ∀ arrival ∈ branches, arrival.ByClause
  isLast : ∀ arrival ∈ last, arrival.Last
  single : last.length ≤ 1
  order : List.Sublist (branches.map (·.successor.offset?)) (way.arms.map (some ·.handler))

namespace InOrder

variable {way later : TrapStack} {branches more last : List Arrival} {arrival : Arrival}

theorem nil (way : TrapStack) : InOrder way [] [] :=
  ⟨nofun, nofun, Nat.zero_le 1, List.nil_sublist _⟩

theorem of_last (isLast : arrival.Last) : InOrder way [] [arrival] :=
  ⟨nofun, by simpa using isLast, Nat.le_refl 1, List.nil_sublist _⟩

theorem append (first : InOrder way branches []) (second : InOrder later more last) :
    InOrder (way ++ later) (branches ++ more) last := by
  refine ⟨?_, second.isLast, second.single, ?_⟩
  · intro arrival member
    rcases List.mem_append.mp member with here | there
    · exact first.byClause arrival here
    · exact second.byClause arrival there
  · rw [TrapStack.arms_append, List.map_append, List.map_append]
    exact first.order.append second.order

/-- A way that goes further allows more branches. -/
theorem of_isPrefix (ordered : InOrder way branches last) (isPrefix : way <+: later) :
    InOrder later branches last := by
  obtain ⟨rest, rfl⟩ := isPrefix
  refine ⟨ordered.byClause, ordered.isLast, ordered.single, ordered.order.trans ?_⟩
  rw [TrapStack.arms_append, List.map_append]
  exact List.sublist_append_left _ _

theorem length_le (ordered : InOrder way branches last) :
    (branches ++ last).length ≤ 1 + way.arms.length := by
  have atMost := ordered.order.length_le
  have single := ordered.single
  rw [List.length_map, List.length_map] at atMost
  rw [List.length_append]
  omega

end InOrder

/-! ## One step -/

/-- Some arms have no branch, and those after an arm that leaves nothing uncaught are
not tried. -/
theorem handlers_sift_sublist (state : State) :
    ∀ (arms : List Arm) (uncaught : Constraint),
      List.Sublist ((sift state uncaught arms).branches.map Branch.handler)
        (arms.map Arm.handler) := by
  intro arms
  induction arms with
  | nil =>
      intro uncaught
      exact List.nil_sublist _
  | cons arm arms induction =>
      intro uncaught
      have here : List.Sublist ((arm.branch? state uncaught).toList.map Branch.handler)
          [arm.handler] := by
        cases branches : arm.branch? state uncaught with
        | none => exact List.nil_sublist _
        | some branch =>
            obtain ⟨matched, _, goesOn⟩ := Option.bind_eq_some_iff.mp branches
            obtain ⟨narrowed, _, rfl⟩ := Option.map_eq_some_iff.mp goesOn
            exact List.Sublist.refl _
      cases excludes : uncaught.exclude arm.caught with
      | none =>
          rw [sift_cons_of_none excludes]
          exact here.trans (List.singleton_sublist.mpr List.mem_cons_self)
      | some remaining =>
          rw [sift_cons_of_some excludes, List.map_append]
          exact here.append (induction remaining)

namespace Transfer

variable {limits : Limits} {transfer rest : Transfer} {state : State} {target : Target}
  {trap : Shared Trap} {outer : TrapStack} {successors branches : List Successor} {steps : Nat}

theorem inOrder_sift {thrown : Constraint} {clauses : List Clause}
    (isRule : trap.value.rule = .catches clauses) :
    InOrder [trap]
      (sends ⟨state, .exception thrown, trap :: outer⟩
        ((sift state thrown (clauses.flatMap Clause.arms)).branches.map Branch.successor)) [] := by
  have sublist := handlers_sift_sublist state (clauses.flatMap Clause.arms) thrown
  refine ⟨?_, nofun, Nat.zero_le 1, ?_⟩
  · intro arrival member
    obtain ⟨successor, inSuccessors, rfl⟩ := List.mem_map.mp member
    obtain ⟨branch, inBranches, rfl⟩ := List.mem_map.mp inSuccessors
    have inHandlers := sublist.subset (List.mem_map_of_mem inBranches)
    obtain ⟨arm, inArms, isHandler⟩ := List.mem_map.mp inHandlers
    obtain ⟨clause, inClauses, inClause⟩ := List.mem_flatMap.mp inArms
    obtain ⟨caught, _, rfl⟩ := List.mem_map.mp inClause
    simp only [Branch.successor, ← isHandler]
    exact .handles isRule inClauses
  · simpa [sends, TrapStack.arms, Trap.arms, isRule, Function.comp_def, Branch.successor,
      Successor.offset?] using sublist.map some

theorem inOrder_of_pass (passes : Passes transfer branches rest) :
    InOrder (transfer.traps.take 1) (transfer.sends branches) [] := by
  cases passes with
  | uncaught isRule _ _ => exact inOrder_sift isRule
  | ignored _ | resumed _ _ | dropped _ _ _ => exact .nil _

theorem eq_yields_of_finish (finishes : transfer.step = .finish successors) :
    successors = transfer.yields := by
  rw [yields, finishes]

theorem last_of_arrive (finishes : arrive state target = .finish successors) :
    ∃ last, sends ⟨state, target, []⟩ successors = [last] ∧ last.Last := by
  cases target with
  | exception thrown =>
      cases finishes
      exact ⟨_, rfl, .escapes⟩
  | ret =>
      cases finishes
      exact ⟨_, rfl, .returns⟩
  | jump offset flush =>
      cases finishes
      exact ⟨_, rfl, .jumps⟩
  | exitFinally entry => contradiction

theorem inOrder_of_finish (finishes : transfer.step = .finish successors) :
    ∃ branches last, transfer.sends successors = branches ++ last ∧
      InOrder (transfer.traps.take 1) branches last := by
  obtain ⟨state, target, traps⟩ := transfer
  cases traps with
  | nil =>
      obtain ⟨last, isLast, ends⟩ := last_of_arrive finishes
      exact ⟨[], [last], isLast, .of_last ends⟩
  | cons trap outer =>
      by_cases pops : trap.value.Pops
      · rw [eq_yields_of_finish finishes, yields_of_pops pops]
        exact ⟨[], [], rfl, .nil _⟩
      cases isRule : trap.value.rule with
      | catches clauses =>
          cases target with
          | exception thrown =>
              rw [eq_yields_of_finish finishes, yields_of_catches isRule]
              exact ⟨_, [], (List.append_nil _).symm, inOrder_sift isRule⟩
          | _ => simp [step, through, isRule] at finishes
      | catchAll handler =>
          cases target with
          | exception thrown =>
              cases (step_of_catchAll isRule).symm.trans finishes
              exact ⟨[], _, rfl, .of_last (.redirected isRule)⟩
          | _ => simp [step, through, isRule] at finishes
      | enters entry =>
          by_cases runs : entry.RunsFor target
          · cases (step_of_enters isRule runs).symm.trans finishes
            exact ⟨[], _, rfl, .of_last (.enters isRule)⟩
          · simp [step, through, isRule, runs] at finishes
      | insideFinally => exact absurd (.inl isRule) pops
      | insideInlined => exact absurd (.inr isRule) pops

/-! ## The way -/

/-- The traps that a run meets, in their order. -/
def way : Nat → Transfer → TrapStack
  | 0, _ => []
  | steps + 1, transfer =>
      transfer.traps.take 1 ++
        match transfer.step with
        | .finish _ | .fail _ => []
        | .pass _ rest => rest.way steps

theorem way_of_finish (finishes : transfer.step = .finish successors) :
    transfer.way (steps + 1) = transfer.traps.take 1 := by
  simp only [way, finishes, List.append_nil]

theorem way_of_pass (passes : transfer.step = .pass branches rest) :
    transfer.way (steps + 1) = transfer.traps.take 1 ++ rest.way steps := by
  simp only [way, passes]

/-- Without the end of a finally body, only the innermost trap is gone. -/
theorem Passes.traps_eq (passes : Passes transfer branches rest)
    (outside : transfer.traps.OutsideBodies) : ∃ trap, transfer.traps = trap :: rest.traps := by
  cases passes with
  | uncaught _ _ _ | ignored _ | dropped _ _ _ => exact ⟨_, rfl⟩
  | resumed isRule _ => exact absurd isRule (outside _ List.mem_cons_self)

theorem way_isPrefix :
    ∀ {steps : Nat} {transfer : Transfer}, transfer.traps.OutsideBodies →
      transfer.way steps <+: transfer.traps := by
  intro steps
  induction steps with
  | zero =>
      intro transfer _
      exact List.nil_prefix
  | succ steps induction =>
      intro transfer outside
      cases isStep : transfer.step with
      | finish successors =>
          rw [way_of_finish isStep]
          exact List.take_prefix 1 _
      | fail violation =>
          simp only [way, isStep, List.append_nil]
          exact List.take_prefix 1 _
      | pass branches rest =>
          obtain ⟨trap, isTraps⟩ := (passes_of_step isStep).traps_eq outside
          have further : rest.way steps <+: rest.traps :=
            induction (outside.of_suffix (isTraps ▸ List.suffix_cons trap rest.traps))
          rw [way_of_pass isStep, isTraps]
          exact List.prefix_append_right_inj [trap] |>.mpr further

theorem inOrder_of_arrivals :
    ∀ {steps : Nat} {transfer : Transfer} {arrivals : List Arrival},
      transfer.arrivals steps = some (.ok arrivals) →
        ∃ branches last, arrivals = branches ++ last ∧
          InOrder (transfer.way steps) branches last := by
  intro steps
  induction steps with
  | zero =>
      intro transfer arrivals arrives
      simp [Transfer.arrivals] at arrives
  | succ steps induction =>
      intro transfer arrivals arrives
      rcases arrivals_eq_ok_cases arrives with
        ⟨successors, finishes, rfl⟩ | ⟨left, rest, later, passes, restArrives, rfl⟩
      · rw [way_of_finish finishes]
        exact inOrder_of_finish finishes
      · obtain ⟨branches, last, rfl, ordered⟩ := induction restArrives
        refine ⟨transfer.sends left ++ branches, last, (List.append_assoc _ _ _).symm, ?_⟩
        rw [way_of_pass passes]
        exact (inOrder_of_pass (passes_of_step passes)).append ordered

/-! ## Whole dispatches -/

/-- The successors of a dispatch are branches to handlers and at most one more, which
is where the transfer ends that no clause has caught.  The branches come in the order
of the arms on the way.  Outside finally bodies these are the arms of the trap stack,
so there is one successor more than caught types at most. -/
theorem dispatch_orders_successors (dispatches : transfer.dispatch limits = .ok successors) :
    ∃ branches last, transfer.dispatchArrivals limits = .ok (branches ++ last) ∧
      successors = (branches ++ last).map Arrival.successor ∧
      InOrder (transfer.way limits.maxDepth) branches last ∧
      (∀ arrival ∈ branches ++ last, arrival.Last → last = [arrival]) ∧
      (transfer.traps.OutsideBodies →
        List.Sublist (branches.map (·.successor.offset?))
            (transfer.traps.arms.map (some ·.handler)) ∧
          successors.length ≤ 1 + transfer.traps.arms.length) := by
  obtain ⟨arrivals, arrives, rfl⟩ := exists_dispatchArrivals_of_dispatch_eq_ok dispatches
  obtain ⟨branches, last, rfl, ordered⟩ :=
    inOrder_of_arrivals (arrivals_of_dispatchArrivals_eq_ok arrives)
  refine ⟨branches, last, arrives, rfl, ordered, ?_, ?_⟩
  · intro arrival member isLast
    have inLast : arrival ∈ last := (List.mem_append.mp member).resolve_left fun inBranches =>
      isLast.not_byClause (ordered.byClause arrival inBranches)
    obtain ⟨only, rfl⟩ : ∃ only, last = [only] :=
      List.length_eq_one_iff.mp (Nat.le_antisymm ordered.single (List.length_pos_of_mem inLast))
    rw [List.mem_singleton.mp inLast]
  · intro outside
    have alongStack := ordered.of_isPrefix (way_isPrefix outside)
    refine ⟨alongStack.order, ?_⟩
    rw [List.length_map]
    exact alongStack.length_le

/-- Two types share a handler, and the next clause of the stack does not match.  What
is left goes to the handler of every exception. -/
theorem dispatch_orders_shared_handler :
    let exception := Constraint.instanceOf Hierarchy.throwables ⟨1⟩
    let io := Constraint.instanceOf Hierarchy.throwables ⟨2⟩
    let sql := Constraint.instanceOf Hierarchy.throwables ⟨3⟩
    let neither : Constraint := ⟨Hierarchy.throwables, ⟨1⟩, [⟨2⟩, ⟨3⟩]⟩
    let traps : TrapStack :=
      [⟨0, ⟨0⟩, .catches [⟨[sql, io], ⟨10⟩⟩]⟩, ⟨1, ⟨1⟩, .catches [⟨[io], ⟨20⟩⟩]⟩,
        ⟨2, ⟨2⟩, .catchAll ⟨99⟩⟩]
    let start : Transfer := ⟨.initial, .exception exception, traps⟩
    let successors : List Successor :=
      [.instruction ⟨10⟩ ⟨.empty, [], some sql⟩, .instruction ⟨10⟩ ⟨.empty, [], some io⟩,
        .instruction ⟨99⟩ ⟨.empty, [], some neither⟩]
    start.dispatch .strict = .ok successors ∧
      ∃ branches last, start.dispatchArrivals .strict = .ok (branches ++ last) ∧
        successors = (branches ++ last).map Arrival.successor ∧
        InOrder (start.way Limits.strict.maxDepth) branches last ∧
        List.Sublist (branches.map (·.successor.offset?)) [some ⟨10⟩, some ⟨10⟩, some ⟨20⟩] ∧
        successors.length ≤ 4 := by
  intro exception io sql neither traps start successors
  have dispatches : start.dispatch .strict = .ok successors := by decide +kernel
  have outside : traps.OutsideBodies := by decide
  obtain ⟨branches, last, arrives, isSuccessors, ordered, _, bounds⟩ :=
    dispatch_orders_successors dispatches
  exact ⟨dispatches, branches, last, arrives, isSuccessors, ordered, bounds outside⟩

end Transfer

end Unwind
