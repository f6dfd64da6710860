import Unwind.Proofs.Effects

/-!
# What a dispatch does not look at

A dispatch reads the traps, the target, the constraint on the exception and the
continuations that it takes off the operand stack.  It reads no variable, and
nothing that lies below those continuations.  `framed` puts other entries beneath
an operand stack and other bindings in place of those of a state; a dispatch that
ends well ends in the same way from the framed state, each successor framed
likewise.  Only a jump that arrives still takes its variables from the bindings.

A dispatch that fails is another matter, since what lies beneath may supply the
continuation it was missing.
-/

set_option autoImplicit false

namespace Unwind

/-- The same exception, with other bindings and more operands beneath. -/
def State.framed (state : State) (bindings : Bindings) (below : List Operand) : State :=
  ⟨bindings, state.operands ++ below, state.exception⟩

def Successor.framed (bindings : Bindings) (below : List Operand) : Successor → Successor
  | .instruction offset state => .instruction offset (state.framed bindings below)
  | .escape exception state => .escape exception (state.framed bindings below)
  | .ret state => .ret (state.framed bindings below)

def Branch.framed (branch : Branch) (bindings : Bindings) (below : List Operand) : Branch :=
  { branch with state := branch.state.framed bindings below }

def Transfer.framed (transfer : Transfer) (bindings : Bindings) (below : List Operand) : Transfer :=
  { transfer with state := transfer.state.framed bindings below }

/-- The variables of an arriving jump are missing from what its step leaves behind. -/
def Step.framed (kept bindings : Bindings) (below : List Operand) : Step → Step
  | .finish successors => .finish (successors.map (·.framed kept below))
  | .fail violation => .fail violation
  | .pass branches rest =>
      .pass (branches.map (·.framed kept below)) (rest.framed bindings below)

section Steps

variable {state popped : State} {saved : Continuation} {target : Target} {trap : Shared Trap}
  {outer : TrapStack}

theorem State.narrow?_framed (state : State) (bindings : Bindings) (below : List Operand)
    (learnt : Constraint) :
    (state.framed bindings below).narrow? learnt =
      (state.narrow? learnt).map (·.framed bindings below) := by
  cases isKnown : state.exception with
  | none => simp only [narrow?, framed, isKnown, Option.map_some]
  | some known =>
      simp only [narrow?, framed, isKnown, Option.map_map]
      rfl

theorem State.popContinuation?_framed (bindings : Bindings) (below : List Operand)
    (pops : state.popContinuation? = some (saved, popped)) :
    (state.framed bindings below).popContinuation? = some (saved, popped.framed bindings below) := by
  obtain ⟨rest, isTop, rfl⟩ := popContinuation?_eq_some pops
  simp only [popContinuation?, framed, isTop, List.cons_append]

theorem Arm.branch?_framed (arm : Arm) (state : State) (bindings : Bindings) (below : List Operand)
    (uncaught : Constraint) :
    arm.branch? (state.framed bindings below) uncaught =
      (arm.branch? state uncaught).map (·.framed bindings below) := by
  rw [branch?, branch?, Option.map_bind]
  refine Option.bind_congr fun matched _ => ?_
  simp only [Function.comp_def, State.narrow?_framed, Option.map_map]
  rfl

theorem sift_framed (state : State) (bindings : Bindings) (below : List Operand) (arms : List Arm) :
    ∀ uncaught : Constraint,
      sift (state.framed bindings below) uncaught arms =
        ⟨(sift state uncaught arms).branches.map (·.framed bindings below),
          (sift state uncaught arms).uncaught⟩ := by
  induction arms with
  | nil =>
      intro uncaught
      rfl
  | cons arm arms induction =>
      intro uncaught
      have here : (arm.branch? (state.framed bindings below) uncaught).toList =
          (arm.branch? state uncaught).toList.map (·.framed bindings below) := by
        rw [arm.branch?_framed, Option.toList_map]
      cases excludes : uncaught.exclude arm.caught with
      | none => rw [sift_cons_of_none excludes, sift_cons_of_none excludes, here]
      | some remaining =>
          rw [sift_cons_of_some excludes, sift_cons_of_some excludes, here, induction remaining,
            List.map_append]

namespace Transfer

variable {bindings : Bindings} {below : List Operand}

theorem throughClauses_framed (state : State) (thrown : Constraint) (clauses : List Clause)
    (outer : TrapStack) :
    throughClauses (state.framed bindings below) thrown clauses outer =
      (throughClauses state thrown clauses outer).framed bindings bindings below := by
  have successors : ∀ branches : List Branch,
      (branches.map (·.framed bindings below)).map Branch.successor =
        (branches.map Branch.successor).map (·.framed bindings below) := by
    intro branches
    rw [List.map_map, List.map_map]
    rfl
  simp only [throughClauses, sift_framed, successors]
  cases (sift state thrown (clauses.flatMap Clause.arms)).uncaught with
  | none => rfl
  | some uncaught =>
      simp only [Option.bind_some, State.narrow?_framed]
      cases state.narrow? uncaught <;> rfl

theorem arrive_framed (finishes : ∀ violation, arrive state target ≠ .fail violation) :
    arrive (state.framed bindings below) target =
      (arrive state target).framed (bindings.without target.flushed) bindings below := by
  cases target with
  | exception thrown => simp [arrive, Step.framed, Successor.framed, Target.flushed]
  | ret => simp [arrive, Step.framed, Successor.framed, Target.flushed]
  | jump offset flush =>
      simp [arrive, Step.framed, Successor.framed, Target.flushed, State.flushAll_eq_without,
        State.framed]
  | exitFinally entry => exact absurd rfl (finishes (.unmatchedExit entry))

theorem resumeSaved_framed (goesOn : ∀ violation, resumeSaved state target trap.value ≠ .fail violation) :
    resumeSaved (state.framed bindings below) target trap.value =
      (resumeSaved state target trap.value).framed bindings bindings below := by
  cases pops : state.popContinuation? with
  | none => exact absurd (by simp only [resumeSaved, pops]) (goesOn (.noContinuation trap.value target))
  | some top =>
      obtain ⟨saved, popped⟩ := top
      simp only [resumeSaved, pops, State.popContinuation?_framed bindings below pops]
      rfl

theorem leaveInlined_framed
    (goesOn : ∀ violation, leaveInlined state target trap.value outer ≠ .fail violation) :
    leaveInlined (state.framed bindings below) target trap.value outer =
      (leaveInlined state target trap.value outer).framed bindings bindings below := by
  cases pops : state.popContinuation? with
  | none =>
      exact absurd (by simp only [leaveInlined, pops]) (goesOn (.noContinuation trap.value target))
  | some top =>
      obtain ⟨saved, popped⟩ := top
      simp only [leaveInlined, pops, State.popContinuation?_framed bindings below pops]
      split <;> rfl

theorem through_framed
    (goesOn : ∀ violation, through state target trap.value outer ≠ .fail violation) :
    through (state.framed bindings below) target trap.value outer =
      (through state target trap.value outer).framed bindings bindings below := by
  cases isRule : trap.value.rule with
  | catches clauses =>
      cases target with
      | exception thrown =>
          simp only [through, isRule]
          exact throughClauses_framed state thrown clauses outer
      | _ =>
          simp only [through, isRule]
          rfl
  | catchAll handler =>
      cases target <;> simp only [through, isRule] <;> rfl
  | enters entry =>
      simp only [through, isRule]
      split <;> rfl
  | insideFinally =>
      simp only [through, isRule] at goesOn ⊢
      exact resumeSaved_framed goesOn
  | insideInlined =>
      simp only [through, isRule] at goesOn ⊢
      exact leaveInlined_framed goesOn

theorem step_framed (transfer : Transfer) (bindings : Bindings) (below : List Operand)
    (goesOn : ∀ violation, transfer.step ≠ .fail violation) :
    (transfer.framed bindings below).step =
      transfer.step.framed (bindings.without transfer.forgets) bindings below := by
  obtain ⟨state, target, traps⟩ := transfer
  cases traps with
  | nil => exact arrive_framed goesOn
  | cons trap outer =>
      have forgetsNone : forgets ⟨state, target, trap :: outer⟩ = [] := rfl
      rw [forgetsNone, Bindings.without_nil]
      exact through_framed goesOn

end Transfer

end Steps

/-! ## Runs -/

/-- The successor in the frame, without the variables of the jump that has arrived
there. -/
def Resolution.framed (resolution : Resolution) (bindings : Bindings) (below : List Operand) :
    Successor :=
  resolution.successor.framed (bindings.without resolution.stage.forgets) below

namespace Transfer

variable {limits : Limits} {transfer : Transfer} {successors : List Successor}

theorem framed_map_mk (walked : TrapStack) (transfer : Transfer) (bindings : Bindings)
    (below : List Operand) (successors : List Successor) :
    (successors.map (Resolution.mk walked transfer)).map (·.framed bindings below) =
      successors.map (·.framed (bindings.without transfer.forgets) below) := by
  rw [List.map_map]
  rfl

theorem run_framed (bindings : Bindings) (below : List Operand) :
    ∀ {steps : Nat} {transfer : Transfer} {walked : TrapStack} {successors : List Successor},
      transfer.run steps = some (.ok successors) →
        (transfer.framed bindings below).run steps =
          some (.ok ((transfer.resolutions walked steps).map (·.framed bindings below))) := by
  intro steps
  induction steps with
  | zero =>
      intro transfer walked successors runs
      simp [run] at runs
  | succ steps induction =>
      intro transfer walked successors runs
      rcases run_eq_ok_cases runs with finishes | ⟨branches, rest, later, passes, restRuns, _⟩
      · have framedFinishes := transfer.step_framed bindings below (by simp [finishes])
        rw [finishes] at framedFinishes
        rw [run_of_finish framedFinishes, resolutions_of_finish finishes, framed_map_mk]
      · have framedPasses := transfer.step_framed bindings below (by simp [passes])
        rw [passes] at framedPasses
        rw [run_of_pass framedPasses (induction restRuns), resolutions_of_pass passes,
          List.map_append, framed_map_mk]

/-- A dispatch that ends well does so from every state that differs in its
variables and beneath its operands.  The successors correspond one by one: they
are of the same kind, at the same place and with the same exception, keep the
operands beneath, and have all variables but those of the jump that arrives. -/
theorem dispatch_framed (dispatches : transfer.dispatch limits = .ok successors)
    (bindings : Bindings) (below : List Operand) :
    let resolutions := transfer.resolutions [] limits.maxDepth
    successors = resolutions.map Resolution.successor ∧
      (transfer.framed bindings below).dispatch limits =
        .ok (resolutions.map fun resolution =>
          resolution.successor.framed (bindings.without resolution.stage.forgets) below) := by
  intro resolutions
  obtain ⟨runs, fits⟩ := dispatch_eq_ok_iff.mp dispatches
  have isSuccessors : successors = resolutions.map Resolution.successor := successors_of_run runs
  refine ⟨isSuccessors, dispatch_eq_ok_iff.mpr ⟨run_framed bindings below runs, ?_⟩⟩
  rw [List.length_map, ← List.length_map Resolution.successor, ← isSuccessors]
  exact fits

/-- A jump that was saved at the entry of a finally body arrives from the end of the
body.  Of the new bindings it forgets its own variable, and the continuation
beneath stays where it is. -/
theorem dispatch_framed_resumed :
    let start : Transfer :=
      ⟨⟨⟨[("x", 1)]⟩, [.continuation ⟨.jump ⟨90⟩ ["x"], []⟩], none⟩, .ret,
        [⟨0, ⟨0⟩, .insideFinally⟩]⟩
    let below : List Operand := [.constant 7, .continuation ⟨.ret, []⟩]
    start.dispatch .strict = .ok [.instruction ⟨90⟩ ⟨⟨[]⟩, [], none⟩] ∧
      (start.framed ⟨[("x", 5), ("y", 2)]⟩ below).dispatch .strict =
        .ok [.instruction ⟨90⟩ ⟨⟨[("y", 2)]⟩, below, none⟩] := by
  intro start below
  have dispatches : start.dispatch .strict = .ok [.instruction ⟨90⟩ ⟨⟨[]⟩, [], none⟩] := by
    decide +kernel
  refine ⟨dispatches, ?_⟩
  obtain ⟨_, framedDispatches⟩ := dispatch_framed dispatches ⟨[("x", 5), ("y", 2)]⟩ below
  rw [framedDispatches]
  decide +kernel

end Transfer

end Unwind
