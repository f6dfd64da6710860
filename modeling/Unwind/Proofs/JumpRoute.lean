import Unwind.Proofs.FinallyRoute
import Unwind.Proofs.Resume

/-!
# Jumps and returns on their way through finally bodies

A jump or a return passes catch clauses by, drops what inlined calls have saved,
and stops at every finally body around it.  Where an exception may branch, it
never does: a `Course` is a run on which each dispatch has exactly one successor,
taken up at the end of every body that it enters.  The bodies on the course are
those of the stack, in its order, and the course ends at the destination with the
state it started from, less the saved returns and the variables that the jump
forgets.
-/

set_option autoImplicit false

namespace Unwind

/-- A dispatch with one successor after the other, through the bodies entered on
the way.  A course is a run of dispatch in which no round has a second successor. -/
inductive Course (limits : Limits) (completion : Completion) : Transfer → List Successor → Prop
  | ends {transfer : Transfer} {arrival : Arrival} :
      transfer.Round limits [arrival] → arrival.entered? = none →
        Course limits completion transfer [arrival.successor]
  | enters {transfer : Transfer} {arrival : Arrival} {entry : FinallyEntry}
      {later : List Successor} :
      transfer.Round limits [arrival] → arrival.entered? = some entry →
        Course limits completion (completion.leave entry arrival.successor.state) later →
          Course limits completion transfer (arrival.successor :: later)

namespace TrapStack

/-- The entries of finally bodies on the stack, innermost first. -/
def entries (traps : TrapStack) : List FinallyEntry :=
  traps.filterMap fun trap => trap.value.entry?

/-- How many inlined calls are left on the way out. -/
def inlinedCalls (traps : TrapStack) : Nat :=
  traps.countP fun trap => trap.value.rule = .insideInlined

variable {trap : Shared Trap} {outer : TrapStack}

theorem entries_cons_of_none (noEntry : trap.value.entry? = none) :
    entries (trap :: outer) = entries outer :=
  List.filterMap_cons_none noEntry

theorem entries_cons_of_some {entry : FinallyEntry} (isEntry : trap.value.entry? = some entry) :
    entries (trap :: outer) = entry :: entries outer :=
  List.filterMap_cons_some isEntry

theorem inlinedCalls_cons_of_ne (notInlined : trap.value.rule ≠ .insideInlined) :
    inlinedCalls (trap :: outer) = inlinedCalls outer :=
  List.countP_cons_of_neg (by simpa using notInlined)

theorem inlinedCalls_cons_of_eq (isInlined : trap.value.rule = .insideInlined) :
    inlinedCalls (trap :: outer) = inlinedCalls outer + 1 :=
  List.countP_cons_of_pos (by simpa using isInlined)

end TrapStack

/-! ## Forgotten variables -/

/-- The bindings of all other variables. -/
def Bindings.without (bindings : Bindings) (names : List String) : Bindings :=
  ⟨bindings.entries.filter fun binding => binding.1 ∉ names⟩

@[simp] theorem Bindings.without_nil (bindings : Bindings) : bindings.without [] = bindings := by
  rw [without, List.filter_eq_self.mpr (by simp)]

theorem State.flushAll_eq_without {names : List String} :
    ∀ {state : State}, state.flushAll names =
      { state with bindings := state.bindings.without names } := by
  induction names with
  | nil =>
      intro state
      rw [Bindings.without_nil]
      rfl
  | cons name names induction =>
      intro state
      have both : (state.bindings.erase name).without names =
          state.bindings.without (name :: names) := by
        simp only [Bindings.erase, Bindings.without, List.filter_filter, List.mem_cons, not_or,
          Bool.decide_and, Bool.and_comm]
      calc state.flushAll (name :: names) = (state.flush name).flushAll names := rfl
        _ = { state with bindings := (state.bindings.erase name).without names } := induction
        _ = { state with bindings := state.bindings.without (name :: names) } := by rw [both]

theorem Bindings.get?_without (bindings : Bindings) (names : List String) (wanted : String) :
    (bindings.without names).get? wanted =
      if wanted ∈ names then none else bindings.get? wanted := by
  obtain ⟨entries⟩ := bindings
  simp only [get?, without]
  induction entries with
  | nil => simp
  | cons entry rest induction =>
      obtain ⟨other, known⟩ := entry
      by_cases removed : other ∈ names
      · by_cases same : other = wanted
        · simpa [same ▸ removed, removed] using induction
        · simpa [removed, same] using induction
      · by_cases same : other = wanted
        · simp [same ▸ removed, same]
        · simpa [removed, same] using induction

theorem Bindings.without_eraseDups {bindings : Bindings} {names : List String} :
    bindings.without names.eraseDups = bindings.without names := by
  simp [without, List.mem_eraseDups]

/-! ## Rounds -/

/-- The transfer arrives where the target does from the state and the traps, and
has steps enough for it. -/
structure Pursues (limits : Limits) (state : State) (target : Target) (traps : TrapStack)
    (transfer : Transfer) : Prop where
  arrives : ∃ steps, traps.length < steps ∧ steps ≤ limits.maxDepth ∧
    transfer.arrivals limits.maxDepth = Transfer.arrivals steps ⟨state, target, traps⟩

namespace Pursues

variable {limits : Limits} {state next : State} {target : Target} {trap : Shared Trap}
  {traps outer : TrapStack} {transfer : Transfer}

theorem self (deep : traps.length < limits.maxDepth) :
    Pursues limits state target traps ⟨state, target, traps⟩ :=
  ⟨limits.maxDepth, deep, Nat.le_refl _, rfl⟩

theorem of_pass (pursues : Pursues limits state target (trap :: outer) transfer)
    (passes : Transfer.step ⟨state, target, trap :: outer⟩ = .pass [] ⟨next, target, outer⟩) :
    Pursues limits next target outer transfer := by
  obtain ⟨steps, enough, within, same⟩ := pursues.arrives
  rw [List.length_cons] at enough
  obtain ⟨fewer, rfl⟩ : ∃ fewer, steps = fewer + 1 := ⟨steps - 1, by omega⟩
  refine ⟨fewer, by omega, by omega, ?_⟩
  rw [same, Transfer.arrivals_of_pass_nil passes]

theorem of_finish {successor : Successor} (pursues : Pursues limits state target traps transfer)
    (finishes : Transfer.step ⟨state, target, traps⟩ = .finish [successor]) :
    transfer.Round limits [⟨traps.head?.map Shared.value, successor⟩] := by
  obtain ⟨steps, enough, within, same⟩ := pursues.arrives
  obtain ⟨fewer, rfl⟩ : ∃ fewer, steps = fewer + 1 := ⟨steps - 1, by omega⟩
  apply Transfer.round_of_arrives
  apply Transfer.dispatchArrivals_of_single
  rw [same, Transfer.arrivals_of_finish finishes]
  rfl

/-- The mark of the body takes one step, and the entry of the body is not met
again. -/
theorem of_leave {completion : Completion} {entry : FinallyEntry}
    (pursues : Pursues limits state target (trap :: outer) transfer) :
    Pursues limits state target outer (completion.leave entry
      { state with operands := .continuation ⟨target, outer⟩ :: state.operands }) := by
  obtain ⟨steps, enough, within, _⟩ := pursues.arrives
  rw [List.length_cons] at enough
  obtain ⟨fewer, isDepth⟩ : ∃ fewer, limits.maxDepth = fewer + 1 :=
    ⟨limits.maxDepth - 1, by omega⟩
  refine ⟨fewer, by omega, by omega, ?_⟩
  let entered : State :=
    { state with operands := .continuation ⟨target, outer⟩ :: state.operands }
  obtain ⟨mark, around, isAround, isInside⟩ := completion.inside entry entered
  have top : entered.operands = .continuation ⟨target, outer⟩ :: state.operands := rfl
  have resumes : (completion.leave entry entered).step = .pass [] ⟨state, target, outer⟩ := by
    rw [Completion.leave, isAround]
    exact Transfer.step_of_inside isInside top
  rw [isDepth, Transfer.arrivals_of_pass_nil resumes]

end Pursues

/-! ## Whole courses -/

section Courses

variable {limits : Limits} {completion : Completion} {target : Target} {bindings : Bindings}
  {below : List Operand} {exception : Option Constraint}

/-- A target that is no exception runs the bodies of the stack in their order and
arrives with what lies below the saved returns. -/
theorem exists_course {last : State → Successor} (ordinary : target.isException = false)
    (arrives : ∀ state, Transfer.arrive state target = .finish [last state]) :
    ∀ {traps : TrapStack} {returns : List Continuation} {transfer : Transfer},
      traps.OutsideBodies → returns.length = traps.inlinedCalls →
      (∀ saved ∈ returns, saved.target = .ret) →
      Pursues limits ⟨bindings, returns.map .continuation ++ below, exception⟩ target traps
        transfer →
        ∃ starts, Course limits completion transfer
            (starts ++ [last ⟨bindings, below, exception⟩]) ∧
          starts.map Successor.offset? = traps.entries.map fun entry => some entry.jump := by
  intro traps
  -- the transfer stays the same past a trap, and is the one at the end of the body past an entry
  induction traps with
  | nil =>
      intro returns transfer _ count _ pursues
      obtain rfl : returns = [] := List.eq_nil_of_length_eq_zero count
      exact ⟨[], .ends (pursues.of_finish (arrives _)) rfl, rfl⟩
  | cons trap outer induction =>
      intro returns transfer outside count areReturns pursues
      have outerOutside := outside.of_suffix (List.suffix_cons trap outer)
      cases isRule : trap.value.rule with
      | catches _ | catchAll _ =>
          have passes := pursues.of_pass (Transfer.step_of_ordinary ordinary (by simp [isRule]))
          rw [TrapStack.inlinedCalls_cons_of_ne (by simp [isRule])] at count
          rw [TrapStack.entries_cons_of_none (by rw [Trap.entry?, isRule])]
          exact induction outerOutside count areReturns passes
      | insideFinally => exact absurd isRule (outside trap List.mem_cons_self)
      | insideInlined =>
          rw [TrapStack.inlinedCalls_cons_of_eq isRule] at count
          cases returns with
          | nil => contradiction
          | cons saved returns =>
              have isReturn := areReturns saved List.mem_cons_self
              have passes := pursues.of_pass (Transfer.step_of_inlined isRule rfl isReturn)
              rw [TrapStack.entries_cons_of_none (by rw [Trap.entry?, isRule])]
              exact induction outerOutside (Nat.succ.inj count)
                (fun other member => areReturns other (List.mem_cons_of_mem saved member)) passes
      | enters entry =>
          have enters := pursues.of_finish (Transfer.step_of_enters isRule (.inr ordinary))
          have isEntry : trap.value.entry? = some entry := by
            rw [Trap.entry?, isRule]
          rw [TrapStack.inlinedCalls_cons_of_ne (by simp [isRule])] at count
          obtain ⟨starts, course, offsets⟩ :=
            induction outerOutside count areReturns pursues.of_leave
          refine ⟨_ :: starts, .enters enters isEntry course, ?_⟩
          rw [TrapStack.entries_cons_of_some isEntry, List.map_cons, List.map_cons, offsets]
          rfl

/-- A return, and a jump that forgets variables, runs every finally body around it
once, from the innermost on, and each dispatch on the way has one successor.  At
the end it is where it was going, the returns that inlined calls have saved are
gone from the stack, and nothing else has changed but the bindings that the jump
forgets. -/
theorem jump_or_return_runs_each_body (completion : Completion) {traps : TrapStack}
    {returns : List Continuation} (outside : traps.OutsideBodies)
    (count : returns.length = traps.inlinedCalls)
    (areReturns : ∀ saved ∈ returns, saved.target = .ret)
    (deep : traps.length < limits.maxDepth) :
    let start : State := ⟨bindings, returns.map .continuation ++ below, exception⟩
    (∃ starts, Course limits completion ⟨start, .ret, traps⟩
          (starts ++ [.ret ⟨bindings, below, exception⟩]) ∧
        starts.map Successor.offset? = traps.entries.map fun entry => some entry.jump) ∧
      ∀ offset names, ∃ starts,
        Course limits completion ⟨start, .jumpFlushing offset names, traps⟩
          (starts ++ [.instruction offset ⟨bindings.without names, below, exception⟩]) ∧
        starts.map Successor.offset? = traps.entries.map fun entry => some entry.jump := by
  intro start
  refine ⟨?_, ?_⟩
  · exact exists_course rfl (fun _ => rfl) outside count areReturns (.self deep)
  · intro offset names
    have arrives : ∀ state, Transfer.arrive state (.jumpFlushing offset names) =
        .finish [.instruction offset { state with bindings := state.bindings.without names }] := by
      intro state
      rw [Target.jumpFlushing, Transfer.arrive, State.flushAll_eq_without,
        Bindings.without_eraseDups]
    exact exists_course rfl arrives outside count areReturns (.self deep)

/-- A resource body in an inlined call, inside a block with a finally body. -/
theorem jump_runs_inlined_bodies :
    let traps : TrapStack :=
      [⟨0, ⟨0⟩, .enters ⟨⟨0⟩, .resource, ⟨50⟩⟩⟩, ⟨1, ⟨1⟩, .insideInlined⟩,
        ⟨2, ⟨2⟩, .catchAll ⟨9⟩⟩, ⟨3, ⟨3⟩, .enters ⟨⟨1⟩, .always, ⟨60⟩⟩⟩]
    let start : State :=
      ⟨⟨[("x", 1), ("y", 2)]⟩, [.continuation ⟨.ret, []⟩, .constant 7], none⟩
    ∃ starts,
      Course .standard .bare ⟨start, .jumpFlushing ⟨90⟩ ["x", "x"], traps⟩
        (starts ++ [.instruction ⟨90⟩ ⟨⟨[("y", 2)]⟩, [.constant 7], none⟩]) ∧
      starts.map Successor.offset? = [some ⟨50⟩, some ⟨60⟩] := by
  intro traps start
  have outside : traps.OutsideBodies := by decide
  have count : [Continuation.mk .ret []].length = traps.inlinedCalls := by decide
  have areReturns : ∀ saved ∈ [Continuation.mk .ret []], saved.target = .ret := by decide
  have deep : traps.length < Limits.standard.maxDepth := by decide
  exact (jump_or_return_runs_each_body .bare outside count areReturns deep).2 ⟨90⟩ ["x", "x"]

end Courses

end Unwind
