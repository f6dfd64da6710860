import Unwind.Proofs.Depth
import Unwind.Proofs.JumpRoute
import Unwind.Proofs.Precision

/-!
# What a dispatch changes

A successor of a dispatch has the state that the dispatch started from, but for
what the traps on the way have done to it.  `resolutions` keeps with every
successor the traps that were met before it and the transfer that was in flight
at the end, and `Since` says what the way up to there may have changed: marks of
finally bodies and of inlined code have each taken a continuation off the operand
stack, and catch clauses have narrowed the constraint on the exception.  The last
step may save one continuation, at the entry of a finally body, or forget the
variables of a jump that arrives.

Branches to handlers share the state with the transfer that goes on, so each of
them shows what had been done by then and nothing of what is done later.
-/

set_option autoImplicit false

namespace Unwind

/-- The trap takes a continuation off the state. -/
def Trap.Pops (trap : Trap) : Prop := trap.rule = .insideFinally ∨ trap.rule = .insideInlined

instance (trap : Trap) : Decidable trap.Pops :=
  inferInstanceAs (Decidable (_ ∨ _))

def TrapStack.pops (traps : TrapStack) : Nat := traps.countP fun trap => trap.value.Pops

theorem Trap.Ignores.not_pops {trap : Trap} {target : Target} (ignores : trap.Ignores target) :
    ¬ trap.Pops := by
  rintro (isRule | isRule) <;> simp [Ignores, isRule] at ignores

namespace Transfer

/-- What the next step leaves behind, be it the last one or not. -/
def yields (transfer : Transfer) : List Successor :=
  match transfer.step with
  | .finish successors => successors
  | .fail _ => []
  | .pass branches _ => branches

/-- The variables of a jump that arrives.  Before that it forgets none. -/
def forgets (transfer : Transfer) : List String :=
  match transfer.traps with
  | [] => transfer.target.flushed
  | _ :: _ => []

/-- What the entry of a finally body saves, if the innermost trap is one. -/
def saves? (transfer : Transfer) : Option Continuation :=
  match transfer.traps with
  | [] => none
  | trap :: outer => Option.map (fun _ => ⟨transfer.target, outer⟩) trap.value.entry?

end Transfer

/-- A successor, the traps met on the way to it, and the transfer that was in
flight when the last of them was met or when none was left. -/
structure Resolution where
  walked : TrapStack
  stage : Transfer
  successor : Successor
deriving DecidableEq

namespace Transfer

/-- The successors of a dispatch in their order, after some traps that have been
met already. -/
def resolutions (walked : TrapStack) : Nat → Transfer → List Resolution
  | 0, _ => []
  | steps + 1, transfer =>
      let met := walked ++ transfer.traps.take 1
      transfer.yields.map (Resolution.mk met transfer) ++
        match transfer.step with
        | .finish _ | .fail _ => []
        | .pass _ rest => rest.resolutions met steps

variable {limits : Limits} {transfer rest : Transfer} {steps : Nat} {walked : TrapStack}
  {successors branches : List Successor} {successor : Successor}

theorem resolutions_of_finish (finishes : transfer.step = .finish successors) :
    transfer.resolutions walked (steps + 1) =
      successors.map (Resolution.mk (walked ++ transfer.traps.take 1) transfer) := by
  simp [resolutions, yields, finishes]

theorem resolutions_of_pass (passes : transfer.step = .pass branches rest) :
    transfer.resolutions walked (steps + 1) =
      branches.map (Resolution.mk (walked ++ transfer.traps.take 1) transfer) ++
        rest.resolutions (walked ++ transfer.traps.take 1) steps := by
  simp [resolutions, yields, passes]

theorem successors_of_run :
    ∀ {steps : Nat} {transfer : Transfer} {walked : TrapStack} {successors : List Successor},
      transfer.run steps = some (.ok successors) →
        successors = (transfer.resolutions walked steps).map Resolution.successor := by
  intro steps
  induction steps with
  | zero =>
      intro transfer walked successors runs
      simp [run] at runs
  | succ steps induction =>
      intro transfer walked successors runs
      rcases run_eq_ok_cases runs with finishes | ⟨branches, rest, later, passes, restRuns, rfl⟩
      · rw [resolutions_of_finish finishes, List.map_map]
        exact (List.map_id successors).symm
      · rw [resolutions_of_pass passes, List.map_append, ← induction restRuns, List.map_map]
        exact congrArg (· ++ later) (List.map_id branches).symm

end Transfer

/-! ## One step -/

/-- The second state may know more about the exception, and nothing else has
changed. -/
structure State.Narrowed (state narrowed : State) : Prop where
  bindings : narrowed.bindings = state.bindings
  operands : narrowed.operands = state.operands
  exception : ∀ known ∈ state.exception, ∃ kept ∈ narrowed.exception, kept.Within known

theorem State.Narrowed.refl (state : State) : state.Narrowed state :=
  ⟨rfl, rfl, fun known isKnown => ⟨known, isKnown, .refl known⟩⟩

theorem State.narrowed_of_narrow? {state narrowed : State} {learnt : Constraint}
    (narrows : state.narrow? learnt = some narrowed) : state.Narrowed narrowed := by
  unfold narrow? at narrows
  split at narrows
  · next unknown =>
      cases Option.some.inj narrows
      exact ⟨rfl, rfl, by simp [unknown]⟩
  · next known isKnown =>
      obtain ⟨both, meets, rfl⟩ := Option.map_eq_some_iff.mp narrows
      refine ⟨rfl, rfl, ?_⟩
      intro other isOther
      cases Option.some.inj (isKnown.symm.trans isOther)
      exact ⟨both, rfl, Constraint.within_of_meet meets⟩

namespace Transfer

variable {transfer rest start : Transfer} {walked : TrapStack} {removed : List Continuation}
  {branches : List Successor} {successor : Successor} {state : State} {target : Target}
  {trap : Shared Trap} {outer : TrapStack}

theorem yields_of_catches {thrown : Constraint} {clauses : List Clause}
    (isRule : trap.value.rule = .catches clauses) :
    yields ⟨state, .exception thrown, trap :: outer⟩ =
      (sift state thrown (clauses.flatMap Clause.arms)).caught := by
  rw [yields, step_of_catches isRule]
  rcases throughClauses_finishes_or_passes state thrown clauses outer with
    finishes | ⟨_, _, passes⟩
  · rw [finishes]
  · rw [passes]

theorem narrowed_of_mem_caught {thrown : Constraint} {arms : List Arm}
    (member : successor ∈ (sift state thrown arms).caught) : state.Narrowed successor.state := by
  obtain ⟨branch, inBranches, rfl⟩ := List.mem_map.mp member
  obtain ⟨arm, _, left, branches⟩ := exists_branch?_of_mem_sift inBranches
  obtain ⟨matched, _, goesOn⟩ := Option.bind_eq_some_iff.mp branches
  obtain ⟨narrowed, narrows, rfl⟩ := Option.map_eq_some_iff.mp goesOn
  exact State.narrowed_of_narrow? narrows

theorem yields_of_pops (pops : trap.value.Pops) : yields ⟨state, target, trap :: outer⟩ = [] := by
  rcases pops with isRule | isRule
  · simp only [yields, step, through, isRule, resumeSaved]
    cases state.popContinuation? <;> rfl
  · simp only [yields, step, through, isRule, leaveInlined]
    cases state.popContinuation? with
    | none => rfl
    | some popped =>
        by_cases isReturn : popped.1.target = .ret
        · simp only [if_pos isReturn]
        · simp only [if_neg isReturn]

/-- A step leaves behind its own state, narrowed by a handler, with one entry more
for a finally body, or without the variables of a jump.  A trap that takes a
continuation off the state leaves nothing behind. -/
structure LeavesBehind (transfer : Transfer) (successor : Successor) : Prop where
  bindings : successor.state.bindings = transfer.state.bindings.without transfer.forgets
  operands : successor.state.operands =
    transfer.saves?.toList.map .continuation ++ transfer.state.operands
  exception : ∀ known ∈ transfer.state.exception,
    ∃ kept ∈ successor.state.exception, kept.Within known
  unpopped : TrapStack.pops (transfer.traps.take 1) = 0

/-- Only the entry of a finally body saves something. -/
theorem isSome_saves?_iff :
    transfer.saves?.isSome ↔ ∃ trap ∈ transfer.traps.head?, ∃ entry,
      trap.value.rule = .enters entry := by
  obtain ⟨state, target, traps⟩ := transfer
  cases traps with
  | nil => simp [saves?]
  | cons trap outer => cases isRule : trap.value.rule <;> simp [saves?, Trap.entry?, isRule]

theorem saves?_eq_none (noEntry : ∀ entry, trap.value.rule ≠ .enters entry) :
    saves? ⟨state, target, trap :: outer⟩ = none := by
  rw [← Option.not_isSome_iff_eq_none, isSome_saves?_iff]
  simpa using noEntry

theorem leavesBehind_of_narrowed (narrowed : transfer.state.Narrowed successor.state)
    (forgetsNone : transfer.forgets = []) (savesNone : transfer.saves? = none)
    (unpopped : TrapStack.pops (transfer.traps.take 1) = 0) : transfer.LeavesBehind successor := by
  refine ⟨?_, ?_, narrowed.exception, unpopped⟩
  · rw [narrowed.bindings, forgetsNone, Bindings.without_nil]
  · rw [narrowed.operands, savesNone]
    rfl

theorem leavesBehind_of_arrive (member : successor ∈ yields ⟨state, target, []⟩) :
    LeavesBehind ⟨state, target, []⟩ successor := by
  cases target with
  | exception thrown =>
      cases List.mem_singleton.mp member
      exact leavesBehind_of_narrowed (.refl state) rfl rfl rfl
  | ret =>
      cases List.mem_singleton.mp member
      exact leavesBehind_of_narrowed (.refl state) rfl rfl rfl
  | jump offset flush =>
      cases List.mem_singleton.mp member
      refine ⟨?_, ?_, ?_, rfl⟩
      · simp only [Successor.state, State.flushAll_eq_without, forgets, Target.flushed]
      · simp only [Successor.state, State.flushAll_eq_without]
        rfl
      · simp only [Successor.state, State.flushAll_eq_without]
        exact (State.Narrowed.refl state).exception
  | exitFinally entry => contradiction

theorem leavesBehind_of_mem_yields (member : successor ∈ transfer.yields) :
    transfer.LeavesBehind successor := by
  obtain ⟨state, target, traps⟩ := transfer
  cases traps with
  | nil => exact leavesBehind_of_arrive member
  | cons trap outer =>
      by_cases pops : trap.value.Pops
      · rw [yields_of_pops pops] at member
        contradiction
      have unpopped : TrapStack.pops [trap] = 0 := List.countP_eq_zero.mpr (by simpa using pops)
      cases isRule : trap.value.rule with
      | catches clauses =>
          cases target with
          | exception thrown =>
              rw [yields_of_catches isRule] at member
              exact leavesBehind_of_narrowed (narrowed_of_mem_caught member) rfl
                (saves?_eq_none (by simp [isRule])) unpopped
          | _ => simp [yields, step, through, isRule] at member
      | catchAll handler =>
          cases target with
          | exception thrown =>
              simp only [yields, step, through, isRule, List.mem_singleton] at member
              subst member
              exact leavesBehind_of_narrowed (.refl state) rfl
                (saves?_eq_none (by simp [isRule])) unpopped
          | _ => simp [yields, step, through, isRule] at member
      | enters entry =>
          by_cases runs : entry.RunsFor target
          · rw [yields, step_of_enters isRule runs, List.mem_singleton] at member
            subst member
            refine ⟨(Bindings.without_nil _).symm, ?_, (State.Narrowed.refl state).exception, unpopped⟩
            simp only [saves?, Trap.entry?, isRule]
            rfl
          · simp [yields, step, through, isRule, runs] at member
      | insideFinally => exact absurd (.inl isRule) pops
      | insideInlined => exact absurd (.inr isRule) pops

/-! ## The way to a successor -/

/-- What has changed on the way from the start of a dispatch. -/
structure Since (start : Transfer) (walked : TrapStack) (removed : List Continuation)
    (current : Transfer) : Prop where
  bindings : current.state.bindings = start.state.bindings
  operands : start.state.operands = removed.map .continuation ++ current.state.operands
  count : removed.length = walked.pops
  traps : current.traps.SuffixOf start.traps ∨
    ∃ former ∈ removed, current.traps.SuffixOf former.traps
  exception : ∀ known ∈ start.state.exception,
    ∃ kept ∈ current.state.exception, kept.Within known

theorem since_self (start : Transfer) : start.Since [] [] start :=
  ⟨rfl, rfl, rfl, .inl (List.suffix_refl _), (State.Narrowed.refl start.state).exception⟩

theorem Since.suffix {current : Transfer} {part : TrapStack}
    (since : start.Since walked removed current) (suffix : part <:+ current.traps) :
    part.SuffixOf start.traps ∨ ∃ former ∈ removed, part.SuffixOf former.traps := by
  rcases since.traps with within | ⟨former, isRemoved, within⟩
  · exact .inl (suffix.trans within)
  · exact .inr ⟨former, isRemoved, suffix.trans within⟩

/-- A trap that takes nothing off the state hands on a narrowed state at most. -/
theorem Since.through {narrowed : State} {next : Target}
    (since : start.Since walked removed ⟨state, target, trap :: outer⟩)
    (narrows : state.Narrowed narrowed) (stays : ¬ trap.value.Pops) :
    start.Since (walked ++ [trap]) removed ⟨narrowed, next, outer⟩ := by
  refine ⟨narrows.bindings.trans since.bindings, ?_, ?_, ?_, ?_⟩
  · rw [since.operands, ← narrows.operands]
  · rw [since.count, TrapStack.pops, TrapStack.pops, List.countP_append,
      List.countP_cons_of_neg (by simpa using stays), List.countP_nil, Nat.add_zero]
  · exact since.suffix (List.suffix_cons trap outer)
  · intro known isKnown
    obtain ⟨kept, isKept, within⟩ := since.exception known isKnown
    obtain ⟨later, isLater, laterWithin⟩ := narrows.exception kept isKept
    exact ⟨later, isLater, laterWithin.trans within⟩

/-- A trap that takes a continuation off the state may go on with its traps. -/
theorem Since.pop {saved : Continuation} {below : List Operand} {next : Target} {traps : TrapStack}
    (since : start.Since walked removed ⟨state, target, trap :: outer⟩)
    (pops : trap.value.Pops) (isTop : state.operands = .continuation saved :: below)
    (onward : traps = outer ∨ traps = saved.traps) :
    start.Since (walked ++ [trap]) (removed ++ [saved])
      ⟨{ state with operands := below }, next, traps⟩ := by
  refine ⟨since.bindings, ?_, ?_, ?_, since.exception⟩
  · rw [since.operands, isTop, List.map_append, List.append_assoc]
    rfl
  · rw [List.length_append, since.count, TrapStack.pops, TrapStack.pops, List.countP_append,
      List.countP_cons_of_pos (by simpa using pops)]
    rfl
  · rcases onward with rfl | rfl
    · rcases since.suffix (List.suffix_cons trap traps) with within | ⟨former, isRemoved, within⟩
      · exact .inl within
      · exact .inr ⟨former, List.mem_append_left _ isRemoved, within⟩
    · exact .inr ⟨saved, List.mem_append_right _ (List.mem_singleton_self saved),
        List.suffix_refl _⟩

theorem Since.pass {current : Transfer} (since : start.Since walked removed current)
    (passes : Passes current branches rest) :
    ∃ removed, start.Since (walked ++ current.traps.take 1) removed rest := by
  cases passes with
  | uncaught isRule _ narrows =>
      exact ⟨removed, since.through (State.narrowed_of_narrow? narrows) (by simp [Trap.Pops, isRule])⟩
  | ignored ignores => exact ⟨removed, since.through (.refl _) ignores.not_pops⟩
  | resumed isRule isTop => exact ⟨_, since.pop (.inl isRule) isTop (.inr rfl)⟩
  | dropped isRule isTop _ => exact ⟨_, since.pop (.inr isRule) isTop (.inl rfl)⟩

end Transfer

/-! ## Whole dispatches -/

/-- The changes that a dispatch may make on the way to a successor. -/
structure Resolution.Allowed (start : Transfer) (resolution : Resolution) : Prop where
  bindings : resolution.successor.state.bindings =
    start.state.bindings.without resolution.stage.forgets
  unbound : ∀ name, resolution.successor.state.bindings.get? name =
    if name ∈ resolution.stage.forgets then none else start.state.bindings.get? name
  operands : ∃ (removed : List Continuation) (kept : List Operand) (saved : Option Continuation),
    start.state.operands = removed.map .continuation ++ kept ∧
      removed.length = resolution.walked.pops ∧
      resolution.successor.state.operands = saved.toList.map .continuation ++ kept ∧
      (saved.isSome ↔ ∃ trap ∈ resolution.stage.traps.head?, ∃ entry,
        trap.value.rule = .enters entry) ∧
      ∀ continuation ∈ saved, continuation.traps.SuffixOf start.traps ∨
        ∃ former ∈ removed, continuation.traps.SuffixOf former.traps
  exception : ∀ known ∈ start.state.exception,
    ∃ kept ∈ resolution.successor.state.exception, kept.Within known

namespace Transfer

variable {limits : Limits} {start transfer : Transfer} {walked : TrapStack}
  {removed : List Continuation} {successors : List Successor} {successor : Successor}

theorem suffix_of_mem_saves? {continuation : Continuation}
    (saves : continuation ∈ transfer.saves?) : continuation.traps <:+ transfer.traps := by
  obtain ⟨state, target, traps⟩ := transfer
  cases traps with
  | nil => contradiction
  | cons trap outer =>
      obtain ⟨_, _, rfl⟩ := Option.map_eq_some_iff.mp saves
      exact List.suffix_cons trap outer

theorem Since.allowed (since : start.Since walked removed transfer)
    (leaves : transfer.LeavesBehind successor) :
    Resolution.Allowed start ⟨walked ++ transfer.traps.take 1, transfer, successor⟩ := by
  have bindings : successor.state.bindings = start.state.bindings.without transfer.forgets := by
    rw [leaves.bindings, since.bindings]
  refine ⟨bindings, ?_, ?_, ?_⟩
  · intro name
    rw [bindings, Bindings.get?_without]
  · refine ⟨removed, transfer.state.operands, transfer.saves?, since.operands, ?_, leaves.operands,
      isSome_saves?_iff, ?_⟩
    · rw [since.count, TrapStack.pops, TrapStack.pops, List.countP_append, ← TrapStack.pops,
        ← TrapStack.pops, leaves.unpopped, Nat.add_zero]
    · intro continuation saves
      exact since.suffix (suffix_of_mem_saves? saves)
  · intro known isKnown
    obtain ⟨kept, isKept, within⟩ := since.exception known isKnown
    obtain ⟨last, isLast, lastWithin⟩ := leaves.exception kept isKept
    exact ⟨last, isLast, lastWithin.trans within⟩

theorem allowed_of_mem_resolutions :
    ∀ {steps : Nat} {transfer : Transfer} {walked : TrapStack} {removed : List Continuation},
      start.Since walked removed transfer →
        ∀ resolution ∈ transfer.resolutions walked steps, resolution.Allowed start := by
  intro steps
  induction steps with
  | zero =>
      intro transfer walked removed _ resolution member
      contradiction
  | succ steps induction =>
      intro transfer walked removed since resolution member
      rcases List.mem_append.mp member with here | later
      · obtain ⟨successor, inYields, rfl⟩ := List.mem_map.mp here
        exact since.allowed (leavesBehind_of_mem_yields inYields)
      · cases isStep : transfer.step with
        | finish successors => simp [isStep] at later
        | fail violation => simp [isStep] at later
        | pass branches rest =>
            obtain ⟨removed, restSince⟩ := since.pass (passes_of_step isStep)
            simp only [isStep] at later
            exact induction restSince resolution later

/-- A dispatch changes the state on the way to a successor only as its traps may:
variables are forgotten by a jump that arrives, continuations are taken off the
top by the marks that were met, one is put there by the entry of a finally body,
and what is known about the exception is kept. -/
theorem dispatch_changes_only_allowed (dispatches : transfer.dispatch limits = .ok successors) :
    successors = (transfer.resolutions [] limits.maxDepth).map Resolution.successor ∧
      ∀ resolution ∈ transfer.resolutions [] limits.maxDepth, resolution.Allowed transfer :=
  ⟨successors_of_run (run_of_dispatch_eq_ok dispatches),
    allowed_of_mem_resolutions (since_self transfer)⟩

/-- An exception leaves inlined code, may be caught, and meets a finally body.  The
branch to the handler shows nothing of what is saved afterwards. -/
theorem dispatch_changes_inlined :
    let exception := Constraint.instanceOf Hierarchy.throwables ⟨1⟩
    let io := Constraint.instanceOf Hierarchy.throwables ⟨2⟩
    let notIo : Constraint := ⟨Hierarchy.throwables, ⟨1⟩, [⟨2⟩]⟩
    let traps : TrapStack :=
      [⟨0, ⟨0⟩, .insideInlined⟩, ⟨1, ⟨1⟩, .catches [⟨[io], ⟨10⟩⟩]⟩,
        ⟨2, ⟨2⟩, .enters ⟨⟨0⟩, .always, ⟨50⟩⟩⟩]
    let start : Transfer :=
      ⟨⟨⟨[("x", 1)]⟩, [.continuation ⟨.ret, []⟩, .constant 7], some exception⟩,
        .exception exception, traps⟩
    let handled : Successor := .instruction ⟨10⟩ ⟨⟨[("x", 1)]⟩, [.constant 7], some io⟩
    let entered : Successor := .instruction ⟨50⟩
      ⟨⟨[("x", 1)]⟩, [.continuation ⟨.exception notIo, []⟩, .constant 7], some notIo⟩
    start.dispatch .strict = .ok [handled, entered] ∧
      [handled, entered] = (start.resolutions [] Limits.strict.maxDepth).map Resolution.successor ∧
      ∀ resolution ∈ start.resolutions [] Limits.strict.maxDepth, resolution.Allowed start := by
  intro exception io notIo traps start handled entered
  have dispatches : start.dispatch .strict = .ok [handled, entered] := by decide +kernel
  exact ⟨dispatches, dispatch_changes_only_allowed dispatches⟩

end Transfer

end Unwind
