import Unwind.Dispatch

/-!
# Runs and the traps they end at

`arrivals` is the run of a transfer that also remembers, for every successor,
the trap that sent the transfer there.  Forgetting the traps gives back `run`
and `dispatch`, so whatever is shown of arrivals holds of successors.
-/

set_option autoImplicit false

namespace Unwind

/-- A successor and the trap that sent the transfer there, or `none` if no trap
was left. -/
structure Arrival where
  sender : Option Trap
  successor : Successor
deriving DecidableEq

/-- The entry of the finally body that the arrival is at the start of. -/
def Arrival.entered? (arrival : Arrival) : Option FinallyEntry :=
  arrival.sender.bind Trap.entry?

namespace Transfer

variable {limits : Limits} {transfer rest : Transfer} {steps : Nat}
  {successors branches : List Successor}

/-- What the innermost trap of the transfer sends somewhere. -/
def sends (transfer : Transfer) (successors : List Successor) : List Arrival :=
  successors.map (Arrival.mk (transfer.traps.head?.map Shared.value))

@[simp] theorem sends_successors :
    (transfer.sends successors).map Arrival.successor = successors := by
  rw [sends, List.map_map]
  exact List.map_id successors

def arrivals : Nat → Transfer → Option (Except Violation (List Arrival))
  | 0, _ => none
  | steps + 1, transfer =>
      match transfer.step with
      | .finish successors => some (.ok (transfer.sends successors))
      | .fail violation => some (.error violation)
      | .pass branches rest =>
          (rest.arrivals steps).map fun outcome => outcome.map (transfer.sends branches ++ ·)

theorem arrivals_of_finish (finishes : transfer.step = .finish successors) :
    transfer.arrivals (steps + 1) = some (.ok (transfer.sends successors)) := by
  rw [arrivals, finishes]

theorem arrivals_of_pass (passes : transfer.step = .pass branches rest) {later : List Arrival}
    (arrives : rest.arrivals steps = some (.ok later)) :
    transfer.arrivals (steps + 1) = some (.ok (transfer.sends branches ++ later)) := by
  rw [arrivals, passes]
  simp only [arrives, Option.map_some, Except.map]

theorem run_eq_map_arrivals :
    ∀ {steps : Nat} {transfer : Transfer},
      transfer.run steps =
        (transfer.arrivals steps).map (Except.map (List.map Arrival.successor)) := by
  intro steps
  induction steps with
  | zero => intro transfer; rfl
  | succ steps induction =>
      intro transfer
      rw [run, arrivals]
      cases transfer.step with
      | finish successors => simp [Except.map]
      | fail violation => rfl
      | pass branches rest =>
          simp only [induction]
          cases rest.arrivals steps with
          | none => rfl
          | some outcome => cases outcome <;> simp [Except.map]

theorem run_of_finish (finishes : transfer.step = .finish successors) :
    transfer.run (steps + 1) = some (.ok successors) := by
  rw [run, finishes]

theorem run_of_fail {violation : Violation} (fails : transfer.step = .fail violation) :
    transfer.run (steps + 1) = some (.error violation) := by
  rw [run, fails]

theorem run_of_pass (passes : transfer.step = .pass branches rest) {later : List Successor}
    (runs : rest.run steps = some (.ok later)) :
    transfer.run (steps + 1) = some (.ok (branches ++ later)) := by
  rw [run, passes]
  simp only [runs, Option.map_some, Except.map]

/-- A run that ends well ends with its first step, or adds what that step leaves
behind to a shorter run. -/
theorem run_eq_ok_cases (runs : transfer.run (steps + 1) = some (.ok successors)) :
    transfer.step = .finish successors ∨
      ∃ branches rest later, transfer.step = .pass branches rest ∧
        rest.run steps = some (.ok later) ∧ successors = branches ++ later := by
  rw [run] at runs
  cases isStep : transfer.step with
  | finish found =>
      simp only [isStep] at runs
      cases runs
      exact .inl rfl
  | fail violation => simp [isStep] at runs
  | pass branches rest =>
      simp only [isStep] at runs
      obtain ⟨outcome, restRuns, maps⟩ := Option.map_eq_some_iff.mp runs
      cases outcome with
      | error violation => simp [Except.map] at maps
      | ok later =>
          cases maps
          exact .inr ⟨branches, rest, later, rfl, restRuns, rfl⟩

theorem arrivals_eq_ok_cases {arrivals : List Arrival}
    (arrives : transfer.arrivals (steps + 1) = some (.ok arrivals)) :
    (∃ successors, transfer.step = .finish successors ∧ arrivals = transfer.sends successors) ∨
      ∃ branches rest later, transfer.step = .pass branches rest ∧
        rest.arrivals steps = some (.ok later) ∧ arrivals = transfer.sends branches ++ later := by
  rw [Transfer.arrivals] at arrives
  cases isStep : transfer.step with
  | finish successors =>
      simp only [isStep] at arrives
      cases arrives
      exact .inl ⟨successors, rfl, rfl⟩
  | fail violation => simp [isStep] at arrives
  | pass branches rest =>
      simp only [isStep] at arrives
      obtain ⟨outcome, restArrives, maps⟩ := Option.map_eq_some_iff.mp arrives
      cases outcome with
      | error violation => simp [Except.map] at maps
      | ok later =>
          cases maps
          exact .inr ⟨branches, rest, later, rfl, restArrives, rfl⟩

/-! ## Limits -/

/-- Dispatch with the sender of every successor. -/
def dispatchArrivals (limits : Limits) (transfer : Transfer) : Except Error (List Arrival) :=
  match transfer.arrivals limits.maxDepth with
  | none => .error (.recursionLimit limits.maxDepth)
  | some (.error violation) => .error (.violation violation)
  | some (.ok arrivals) =>
      if limits.maxSuccessors ≠ 0 ∧ limits.maxSuccessors < arrivals.length then
        .error (.successorLimit arrivals.length limits.maxSuccessors)
      else .ok arrivals

theorem dispatch_eq_map_dispatchArrivals :
    transfer.dispatch limits =
      (transfer.dispatchArrivals limits).map (List.map Arrival.successor) := by
  rw [dispatch, resolve, run_eq_map_arrivals, dispatchArrivals]
  cases transfer.arrivals limits.maxDepth with
  | none => rfl
  | some outcome =>
      cases outcome with
      | error violation => rfl
      | ok arrivals =>
          simp only [Option.map_some, Except.map, List.length_map]
          split <;> rfl

/-- What dispatch answers, and the arrivals that its successors belong to. -/
structure Round (limits : Limits) (transfer : Transfer) (arrivals : List Arrival) : Prop where
  arrives : transfer.dispatchArrivals limits = .ok arrivals
  dispatches : transfer.dispatch limits = .ok (arrivals.map Arrival.successor)

theorem round_of_arrives {arrivals : List Arrival}
    (arrives : transfer.dispatchArrivals limits = .ok arrivals) :
    transfer.Round limits arrivals := by
  refine ⟨arrives, ?_⟩
  rw [dispatch_eq_map_dispatchArrivals, arrives]
  rfl

theorem dispatchArrivals_of_arrivals {arrivals : List Arrival}
    (arrives : transfer.arrivals limits.maxDepth = some (.ok arrivals))
    (unlimited : limits.maxSuccessors = 0) : transfer.dispatchArrivals limits = .ok arrivals := by
  rw [dispatchArrivals, arrives]
  simp [unlimited]

theorem arrivals_of_dispatchArrivals_eq_ok {arrivals : List Arrival}
    (dispatches : transfer.dispatchArrivals limits = .ok arrivals) :
    transfer.arrivals limits.maxDepth = some (.ok arrivals) := by
  rw [dispatchArrivals] at dispatches
  cases outcome : transfer.arrivals limits.maxDepth with
  | none => simp [outcome] at dispatches
  | some result =>
      cases result with
      | error violation => simp [outcome] at dispatches
      | ok found =>
          simp only [outcome] at dispatches
          split at dispatches
          · contradiction
          · cases dispatches
            rfl

theorem exists_dispatchArrivals_of_dispatch_eq_ok
    (dispatches : transfer.dispatch limits = .ok successors) :
    ∃ arrivals, transfer.dispatchArrivals limits = .ok arrivals ∧
      successors = arrivals.map Arrival.successor := by
  rw [dispatch_eq_map_dispatchArrivals] at dispatches
  cases outcome : transfer.dispatchArrivals limits with
  | error error => simp [outcome, Except.map] at dispatches
  | ok arrivals =>
      rw [outcome] at dispatches
      cases dispatches
      exact ⟨arrivals, rfl, rfl⟩

theorem dispatch_of_run (runs : transfer.run limits.maxDepth = some (.ok successors))
    (unlimited : limits.maxSuccessors = 0) : transfer.dispatch limits = .ok successors := by
  simp [dispatch, resolve, runs, unlimited]

theorem run_of_dispatch_eq_ok (dispatches : transfer.dispatch limits = .ok successors) :
    transfer.run limits.maxDepth = some (.ok successors) := by
  obtain ⟨arrivals, arrives, rfl⟩ := exists_dispatchArrivals_of_dispatch_eq_ok dispatches
  rw [run_eq_map_arrivals, arrivals_of_dispatchArrivals_eq_ok arrives]
  rfl

theorem dispatch_eq_ok_iff :
    transfer.dispatch limits = .ok successors ↔
      transfer.run limits.maxDepth = some (.ok successors) ∧
        (limits.maxSuccessors = 0 ∨ successors.length ≤ limits.maxSuccessors) := by
  constructor
  · intro dispatches
    have runs := run_of_dispatch_eq_ok dispatches
    refine ⟨runs, ?_⟩
    simp only [dispatch, resolve, runs] at dispatches
    split at dispatches
    · contradiction
    · omega
  · rintro ⟨runs, fits⟩
    simp only [dispatch, resolve, runs]
    rw [if_neg (by omega)]

end Transfer

end Unwind
