import Unwind.Proofs.FirstMatch

/-!
# Exceptions on their way through finally bodies

A finally body interrupts an exception: dispatch stops at the start of the body,
and the end of the body takes up what was saved.  `explore` repeats this until
every path is at a handler or outside, for any surroundings in which the bodies
end.

An exploration is about dispatch itself: its paths are exactly the lists of
successors that `Visits` allows, each taken from what dispatch answers in its round.

`route` and `catcher` say for one class which bodies it runs and where it is
caught, by reading the stack once.  The paths of an exploration agree with them:
every class has exactly one path, and on the way the saved exception and the
constraint of the state stay in step.
-/

set_option autoImplicit false

namespace Unwind

/-! ## Exploration -/

/-- The traps around the end of each finally body, the body itself innermost. -/
structure Completion where
  around : FinallyEntry → State → TrapStack
  inside : ∀ entry state, ∃ trap outer,
    around entry state = trap :: outer ∧ trap.value.rule = .insideFinally

/-- The transfer at the end of a body that leaves the state as it is. -/
def Completion.leave (completion : Completion) (entry : FinallyEntry) (state : State) : Transfer :=
  ⟨state, .exitFinally entry, completion.around entry state⟩

inductive Ending where
  | finished
  | failed (error : Error)
  | unfinished
deriving DecidableEq

structure Path where
  visited : List Successor
  ending : Ending
deriving DecidableEq

namespace Path

def after (successor : Successor) (path : Path) : Path :=
  { path with visited := successor :: path.visited }

/-- Every state on the path admits the class. -/
def Admits (path : Path) (identifier : ClassId) : Prop :=
  ∀ successor ∈ path.visited, successor.state.Admits identifier

instance (path : Path) (identifier : ClassId) : Decidable (path.Admits identifier) :=
  inferInstanceAs (Decidable (∀ successor ∈ path.visited, successor.state.Admits identifier))

theorem admits_after {successor : Successor} {path : Path} {identifier : ClassId} :
    (path.after successor).Admits identifier ↔
      successor.state.Admits identifier ∧ path.Admits identifier := by
  simp [Admits, after]

end Path

/-- The paths on from an arrival, given those of the transfer at the end of the
body that it may have entered. -/
def Arrival.follow (completion : Completion) (next : Transfer → List Path) (arrival : Arrival) :
    List Path :=
  match arrival.entered? with
  | none => [⟨[arrival.successor], .finished⟩]
  | some entry =>
      (next (completion.leave entry arrival.successor.state)).map (Path.after arrival.successor)

def explore (limits : Limits) (completion : Completion) : Nat → Transfer → List Path
  | 0, _ => [⟨[], .unfinished⟩]
  | rounds + 1, transfer =>
      match transfer.dispatchArrivals limits with
      | .error error => [⟨[], .failed error⟩]
      | .ok arrivals => arrivals.flatMap (Arrival.follow completion (explore limits completion rounds))

/-- The successors of a run, one of each dispatch, through the bodies entered on the
way and up to the first that is at the start of none. -/
inductive Visits (limits : Limits) (completion : Completion) : Transfer → List Successor → Prop
  | ends {transfer : Transfer} {arrivals : List Arrival} {arrival : Arrival} :
      transfer.Round limits arrivals → arrival ∈ arrivals → arrival.entered? = none →
        Visits limits completion transfer [arrival.successor]
  | enters {transfer : Transfer} {arrivals : List Arrival} {arrival : Arrival}
      {entry : FinallyEntry} {later : List Successor} :
      transfer.Round limits arrivals → arrival ∈ arrivals → arrival.entered? = some entry →
        Visits limits completion (completion.leave entry arrival.successor.state) later →
          Visits limits completion transfer (arrival.successor :: later)

section Explorations

variable {limits : Limits} {completion : Completion} {transfer : Transfer} {rounds : Nat}
  {arrivals : List Arrival} {arrival : Arrival} {next : Transfer → List Path} {path : Path}
  {visited : List Successor}

theorem Arrival.follow_of_none (ends : arrival.entered? = none) :
    arrival.follow completion next = [⟨[arrival.successor], .finished⟩] := by
  rw [follow, ends]

theorem Arrival.follow_of_some {entry : FinallyEntry} (enters : arrival.entered? = some entry) :
    arrival.follow completion next =
      (next (completion.leave entry arrival.successor.state)).map
        (Path.after arrival.successor) := by
  rw [follow, enters]

theorem mem_explore_succ_iff (round : transfer.Round limits arrivals) :
    path ∈ explore limits completion (rounds + 1) transfer ↔
      ∃ arrival ∈ arrivals,
        path ∈ arrival.follow completion (explore limits completion rounds) := by
  rw [explore, round.arrives]
  exact List.mem_flatMap

theorem visits_of_mem_explore :
    ∀ {rounds : Nat} {transfer : Transfer} {path : Path},
      path ∈ explore limits completion rounds transfer → path.ending = .finished →
        Visits limits completion transfer path.visited := by
  intro rounds
  induction rounds with
  | zero =>
      intro transfer path member finished
      cases List.mem_singleton.mp member
      contradiction
  | succ rounds induction =>
      intro transfer path member finished
      cases answers : transfer.dispatchArrivals limits with
      | error error =>
          rw [explore, answers] at member
          cases List.mem_singleton.mp member
          contradiction
      | ok arrivals =>
          have round := Transfer.round_of_arrives answers
          obtain ⟨arrival, inArrivals, inFollow⟩ := (mem_explore_succ_iff round).mp member
          cases isEntered : arrival.entered? with
          | none =>
              rw [Arrival.follow_of_none isEntered] at inFollow
              cases List.mem_singleton.mp inFollow
              exact .ends round inArrivals isEntered
          | some entry =>
              rw [Arrival.follow_of_some isEntered] at inFollow
              obtain ⟨rest, inRest, rfl⟩ := List.mem_map.mp inFollow
              exact .enters round inArrivals isEntered (induction inRest finished)

/-- A run is among the explored paths, unless the exploration stops before its end. -/
theorem mem_explore_or_unfinished (visits : Visits limits completion transfer visited) :
    ∀ rounds, ⟨visited, .finished⟩ ∈ explore limits completion rounds transfer ∨
      ∃ path ∈ explore limits completion rounds transfer, path.ending = .unfinished := by
  -- along the run, which may be longer than the rounds: these are counted down with it
  induction visits with
  | @ends transfer arrivals arrival round inArrivals isEntered =>
      intro rounds
      cases rounds with
      | zero => exact .inr ⟨_, List.mem_singleton_self _, rfl⟩
      | succ rounds =>
          refine .inl ((mem_explore_succ_iff round).mpr ⟨arrival, inArrivals, ?_⟩)
          rw [Arrival.follow_of_none isEntered]
          exact List.mem_singleton_self _
  | @enters transfer arrivals arrival entry later round inArrivals isEntered _ induction =>
      intro rounds
      cases rounds with
      | zero => exact .inr ⟨_, List.mem_singleton_self _, rfl⟩
      | succ rounds =>
          have lengthens : ∀ path ∈ explore limits completion rounds
                (completion.leave entry arrival.successor.state),
              path.after arrival.successor ∈ explore limits completion (rounds + 1) transfer := by
            intro path member
            refine (mem_explore_succ_iff round).mpr ⟨arrival, inArrivals, ?_⟩
            rw [Arrival.follow_of_some isEntered]
            exact List.mem_map_of_mem member
          rcases induction rounds with found | ⟨path, member, unfinished⟩
          · exact .inl (lengthens _ found)
          · exact .inr ⟨_, lengthens path member, unfinished⟩

/-- An exploration that finishes everywhere has found all runs. -/
theorem visits_iff_mem_explore
    (finished : ∀ path ∈ explore limits completion rounds transfer, path.ending = .finished) :
    Visits limits completion transfer visited ↔
      ⟨visited, .finished⟩ ∈ explore limits completion rounds transfer := by
  constructor
  · intro visits
    rcases mem_explore_or_unfinished visits rounds with found | ⟨path, member, unfinished⟩
    · exact found
    · have := finished path member
      rw [unfinished] at this
      contradiction
  · intro found
    exact visits_of_mem_explore found rfl

end Explorations

/-! ## The way of one class -/

namespace TrapStack

/-- The starts of the finally bodies that lie before the trap that catches the
class. -/
def route (identifier : ClassId) (traps : TrapStack) : List Offset :=
  (traps.takeWhile fun trap => (trap.value.handler? identifier).isNone).filterMap fun trap =>
    trap.value.body?.map FinallyEntry.jump

/-- Where the class is caught, if it is. -/
def catcher (identifier : ClassId) (traps : TrapStack) : Option Offset :=
  traps.findSome? fun trap => trap.value.handler? identifier

/-- A landing is the first stop of the way. -/
def StartsAt (identifier : ClassId) (traps : TrapStack) : Landing → Prop
  | .handler offset => traps.route identifier = [] ∧ traps.catcher identifier = some offset
  | .body entry outer =>
      traps.route identifier = entry.jump :: outer.route identifier ∧
        traps.catcher identifier = outer.catcher identifier ∧
        outer <:+ traps ∧ outer.length < traps.length
  | .outside => traps.route identifier = [] ∧ traps.catcher identifier = none

end TrapStack

theorem startsAt_landing (identifier : ClassId) :
    ∀ traps : TrapStack, traps.StartsAt identifier (traps.landing identifier) := by
  intro traps
  induction traps with
  | nil => exact ⟨rfl, rfl⟩
  | cons trap outer induction =>
      cases handles : trap.value.handler? identifier with
      | some offset =>
          rw [landing_of_handler handles]
          exact ⟨by simp [TrapStack.route, handles], by simp [TrapStack.catcher, handles]⟩
      | none =>
          have catcherOuter : TrapStack.catcher identifier (trap :: outer) =
              TrapStack.catcher identifier outer := by
            simp [TrapStack.catcher, handles]
          cases runs : trap.value.body? with
          | some entry =>
              rw [landing_of_body handles runs]
              have routeOuter : TrapStack.route identifier (trap :: outer) =
                  entry.jump :: TrapStack.route identifier outer := by
                simp [TrapStack.route, handles, runs]
              exact ⟨routeOuter, catcherOuter, List.suffix_cons trap outer,
                Nat.lt_succ_self outer.length⟩
          | none =>
              have routeOuter : TrapStack.route identifier (trap :: outer) =
                  TrapStack.route identifier outer := by
                simp [TrapStack.route, handles, runs]
              rw [landing_of_pass handles runs]
              cases landing : TrapStack.landing identifier outer with
              | handler offset =>
                  rw [landing] at induction
                  exact ⟨routeOuter.trans induction.1, catcherOuter.trans induction.2⟩
              | body entry rest =>
                  rw [landing] at induction
                  obtain ⟨routeRest, catcherRest, suffix, shorter⟩ := induction
                  exact ⟨routeOuter.trans routeRest, catcherOuter.trans catcherRest,
                    suffix.trans (List.suffix_cons trap outer), Nat.lt_succ_of_lt shorter⟩
              | outside =>
                  rw [landing] at induction
                  exact ⟨routeOuter.trans induction.1, catcherOuter.trans induction.2⟩

/-- The path visits the bodies of the route and ends where the class is caught,
or outside with an exception that may be of the class.  The last state differs
from the first in the constraint alone. -/
structure Path.Routes (identifier : ClassId) (start : State) (traps : TrapStack)
    (path : Path) : Prop where
  offsets : path.visited.map Successor.offset? =
    (traps.route identifier).map some ++ [traps.catcher identifier]
  ends : ∃ last, path.visited.getLast? = some last ∧
    last.state = { start with exception := last.state.exception } ∧
    (traps.catcher identifier = none →
      ∃ exception : Constraint, exception.Admits identifier ∧ last = .escape exception last.state)

section Routes

variable {thrown : Constraint} {identifier : ClassId} {start : State} {traps outer : TrapStack}
  {successor : Successor}

theorem Path.routes_of_handler {offset : Offset}
    (starts : traps.StartsAt identifier (.handler offset))
    (fits : (Landing.handler offset).Fits thrown identifier start successor) :
    Path.Routes identifier start traps ⟨[successor], .finished⟩ := by
  obtain ⟨noBodies, isCaught⟩ := starts
  cases successor with
  | instruction actual reached =>
      obtain ⟨sameOffset, frame⟩ := fits
      refine ⟨?_, ⟨_, rfl, frame, ?_⟩⟩
      · simp [noBodies, isCaught, Successor.offset?, sameOffset]
      · intro notCaught
        rw [isCaught] at notCaught
        contradiction
  | escape exception reached => exact fits.elim
  | ret reached => exact fits.elim

theorem Path.routes_of_outside (starts : traps.StartsAt identifier .outside)
    (fits : Landing.outside.Fits thrown identifier start successor) :
    Path.Routes identifier start traps ⟨[successor], .finished⟩ := by
  obtain ⟨noBodies, notCaught⟩ := starts
  cases successor with
  | escape exception reached =>
      obtain ⟨left, frame⟩ := fits
      refine ⟨?_, ⟨_, rfl, frame, ?_⟩⟩
      · simp [noBodies, notCaught, Successor.offset?]
      · intro _
        exact ⟨exception, left.admits, rfl⟩
  | instruction actual reached => exact fits.elim
  | ret reached => exact fits.elim

theorem Path.routes_after {entry : FinallyEntry} {exception : Option Constraint} {path : Path}
    (starts : traps.StartsAt identifier (.body entry outer))
    (enters : successor.offset? = some entry.jump)
    (routes : path.Routes identifier { start with exception := exception } outer) :
    (path.after successor).Routes identifier start traps := by
  obtain ⟨bodies, sameCatcher, _⟩ := starts
  obtain ⟨last, isLast, frame, escapes⟩ := routes.ends
  refine ⟨?_, ⟨last, ?_, frame, ?_⟩⟩
  · simp [Path.after, routes.offsets, bodies, sameCatcher, enters]
  · rw [Path.after, List.getLast?_cons, isLast]
    rfl
  · rw [sameCatcher]
    exact escapes

end Routes

/-! ## One round -/

/-- The end of a body takes up the exception that was saved at its start. -/
theorem arrivals_leave {completion : Completion} {entry : FinallyEntry} {start reached : State}
    {uncaught : Constraint} {outer : TrapStack} {steps : Nat} {later : List Arrival}
    (frame : reached =
      { start with
        operands := .continuation ⟨.exception uncaught, outer⟩ :: start.operands
        exception := reached.exception })
    (arrives : Transfer.arrivals steps
      ⟨{ start with exception := reached.exception }, .exception uncaught, outer⟩ =
        some (.ok later)) :
    (completion.leave entry reached).arrivals (steps + 1) = some (.ok later) := by
  obtain ⟨trap, around, isAround, isInside⟩ := completion.inside entry reached
  have pops : reached.popContinuation? =
      some (⟨.exception uncaught, outer⟩, { start with exception := reached.exception }) := by
    rw [frame]
    rfl
  have passes : (completion.leave entry reached).step =
      .pass [] ⟨{ start with exception := reached.exception }, .exception uncaught, outer⟩ := by
    rw [Completion.leave, isAround]
    simp only [Transfer.step, Transfer.through, isInside, Transfer.resumeSaved, pops]
  exact Transfer.arrivals_of_pass passes arrives

/-- All paths have ended, each is possible for a class that was thrown, and the
given class has exactly one, which is its way through the traps. -/
structure Routed (state : State) (thrown : Constraint) (traps : TrapStack)
    (identifier : ClassId) (paths : List Path) : Prop where
  finished : ∀ path ∈ paths, path.ending = .finished
  possible : ∀ path ∈ paths, ∃ other,
    state.Admits other ∧ thrown.Admits other ∧ path.Admits other
  single : ∃ path, (paths.filter fun other => other.Admits identifier) = [path] ∧
    path.Routes identifier state traps

section Rounds

variable {hierarchy : Shared Hierarchy} {state : State} {thrown : Constraint}
  {traps outer : TrapStack} {identifier : ClassId} {successor : Successor}

theorem routed_finished (stateAdmits : state.Admits identifier)
    (admitted : thrown.Admits identifier) (reached : successor.state.Admits identifier)
    (routes : Path.Routes identifier state traps ⟨[successor], .finished⟩) :
    Routed state thrown traps identifier [⟨[successor], .finished⟩] := by
  have pathAdmits : Path.Admits ⟨[successor], .finished⟩ identifier := by
    intro other member
    cases List.mem_singleton.mp member
    exact reached
  refine ⟨?_, ?_, ⟨_, ?_, routes⟩⟩
  · intro path member
    cases List.mem_singleton.mp member
    rfl
  · intro path member
    cases List.mem_singleton.mp member
    exact ⟨identifier, stateAdmits, admitted, pathAdmits⟩
  · simp [pathAdmits]

/-- The start of a body stands before the paths from its end. -/
theorem routed_after {uncaught : Constraint} {entry : FinallyEntry} {paths : List Path}
    (starts : traps.StartsAt identifier (.body entry outer))
    (enters : successor.offset? = some entry.jump)
    (left : thrown.Remains identifier uncaught)
    (reached : successor.state.Admits identifier)
    (narrows : ∀ other, successor.state.Admits other → state.Admits other)
    (routed : Routed { state with exception := successor.state.exception } uncaught outer
      identifier paths) :
    Routed state thrown traps identifier (paths.map (Path.after successor)) := by
  refine ⟨?_, ?_, ?_⟩
  · intro path member
    obtain ⟨rest, inPaths, rfl⟩ := List.mem_map.mp member
    exact routed.finished rest inPaths
  · intro path member
    obtain ⟨rest, inPaths, rfl⟩ := List.mem_map.mp member
    obtain ⟨other, stateAdmits, admitted, restAdmits⟩ := routed.possible rest inPaths
    have here : successor.state.Admits other := stateAdmits
    exact ⟨other, narrows other here, left.within other admitted,
      Path.admits_after.mpr ⟨here, restAdmits⟩⟩
  · obtain ⟨path, isFilter, routes⟩ := routed.single
    refine ⟨path.after successor, ?_, Path.routes_after starts enters routes⟩
    have sameFilter : ((fun other : Path => decide (other.Admits identifier)) ∘
        Path.after successor) = fun other => decide (other.Admits identifier) := by
      funext other
      simp [Path.admits_after, reached]
    rw [List.filter_map, sameFilter, isFilter, List.map_singleton]

/-- The transfer is to take an exception from the state through the traps, and
arrives where the classes of the exception land. -/
structure Carries (hierarchy : Shared Hierarchy) (limits : Limits) (state : State)
    (thrown : Constraint) (traps : TrapStack) (transfer : Transfer) : Prop where
  throws : Throws hierarchy state thrown
  handles : traps.HandlesOver hierarchy
  deep : traps.length < limits.maxDepth
  arrives : ∃ arrivals, transfer.arrivals limits.maxDepth = some (.ok arrivals) ∧
    Resolves hierarchy state thrown traps arrivals

variable {limits : Limits} {completion : Completion} {transfer : Transfer}

theorem carries_thrown (throws : Throws hierarchy state thrown)
    (handles : traps.HandlesOver hierarchy) (deep : traps.length < limits.maxDepth) :
    Carries hierarchy limits state thrown traps ⟨state, .exception thrown, traps⟩ :=
  ⟨throws, handles, deep, arrivals_resolve throws handles deep⟩

/-- From the end of a body, what is left of the exception is carried on.  The one
trap that this takes more is made up for by the entry, which is not met again. -/
theorem carries_leave {entry : FinallyEntry}
    (carries : Carries hierarchy limits state thrown traps transfer)
    (starts : traps.StartsAt identifier (.body entry outer))
    (fits : (Landing.body entry outer).Fits thrown identifier state successor)
    (about : successor.state.Over hierarchy) (reached : successor.state.Admits identifier) :
    successor.offset? = some entry.jump ∧ outer.length < traps.length ∧
      ∃ uncaught, thrown.Remains identifier uncaught ∧
        Carries hierarchy limits { state with exception := successor.state.exception }
          uncaught outer (completion.leave entry successor.state) := by
  obtain ⟨_, _, suffix, shorter⟩ := starts
  have handles := carries.handles.of_suffix suffix
  cases successor with
  | instruction actual saving =>
      obtain ⟨sameOffset, uncaught, left, frame⟩ := fits
      have throws : Throws hierarchy { state with exception := saving.exception } uncaught :=
        ⟨left.about.trans carries.throws.about, about, identifier, reached, left.admits⟩
      have deep := carries.deep
      obtain ⟨steps, isDepth⟩ : ∃ steps, limits.maxDepth = steps + 1 :=
        ⟨limits.maxDepth - 1, by omega⟩
      obtain ⟨later, arrives, resolves⟩ :=
        arrivals_resolve throws handles (show outer.length < steps by omega)
      refine ⟨congrArg some sameOffset, shorter, uncaught, left, throws, handles, by omega,
        later, ?_, resolves⟩
      rw [isDepth]
      exact arrivals_leave frame arrives
  | escape exception escaped => exact fits.elim
  | ret returned => exact fits.elim

/-- The paths on from the arrival of a class. -/
theorem follow_routed {arrival : Arrival} {next : Transfer → List Path}
    (carries : Carries hierarchy limits state thrown traps transfer)
    (stateAdmits : state.Admits identifier) (admitted : thrown.Admits identifier)
    (reached : arrival.successor.state.Admits identifier)
    (narrows : ∀ other, arrival.successor.state.Admits other → state.Admits other)
    (about : arrival.successor.state.Over hierarchy)
    (fits : (traps.landing identifier).Fits thrown identifier state arrival.successor)
    (entered : arrival.entered? = (traps.landing identifier).entered?)
    (resumes : ∀ {resumed uncaught outer rest}, outer.length < traps.length →
      Carries hierarchy limits resumed uncaught outer rest → resumed.Admits identifier →
        uncaught.Admits identifier → Routed resumed uncaught outer identifier (next rest)) :
    Routed state thrown traps identifier (arrival.follow completion next) := by
  have starts := startsAt_landing identifier traps
  rw [Arrival.follow, entered]
  cases landing : traps.landing identifier with
  | handler offset =>
      rw [landing] at starts fits
      exact routed_finished stateAdmits admitted reached (Path.routes_of_handler starts fits)
  | body entry outer =>
      rw [landing] at starts fits
      obtain ⟨enters, shorter, uncaught, left, carriesOn⟩ :=
        carries_leave carries starts fits about reached
      exact routed_after starts enters left reached narrows
        (resumes shorter carriesOn reached left.admits)
  | outside =>
      rw [landing] at starts fits
      exact routed_finished stateAdmits admitted reached (Path.routes_of_outside starts fits)

/-! ## All rounds -/

theorem mem_visited_of_mem_follow {next : Transfer → List Path} {arrival : Arrival} {path : Path}
    (member : path ∈ arrival.follow completion next) : arrival.successor ∈ path.visited := by
  cases isEntered : arrival.entered? with
  | none =>
      rw [Arrival.follow_of_none isEntered] at member
      cases List.mem_singleton.mp member
      exact List.mem_singleton_self arrival.successor
  | some entry =>
      rw [Arrival.follow_of_some isEntered] at member
      obtain ⟨rest, _, rfl⟩ := List.mem_map.mp member
      exact List.mem_cons_self

theorem filter_follow_eq_nil {next : Transfer → List Path} {arrival : Arrival}
    (excluded : ¬ arrival.successor.state.Admits identifier) :
    ((arrival.follow completion next).filter fun path => path.Admits identifier) = [] := by
  rw [List.filter_eq_nil_iff]
  intro path member pathAdmits
  exact excluded (of_decide_eq_true pathAdmits _ (mem_visited_of_mem_follow member))

/-- Only the arrival of a class has paths that admit it. -/
theorem filter_flatMap_follow {next : Transfer → List Path} {arrival : Arrival} :
    ∀ {arrivals : List Arrival},
      (arrivals.filter fun other => other.successor.state.Admits identifier) = [arrival] →
        ((arrivals.flatMap (Arrival.follow completion next)).filter fun path =>
            path.Admits identifier) =
          (arrival.follow completion next).filter fun path => path.Admits identifier := by
  intro arrivals
  induction arrivals with
  | nil => intro isFilter; contradiction
  | cons first rest induction =>
      intro isFilter
      rw [List.flatMap_cons, List.filter_append]
      by_cases firstAdmits : first.successor.state.Admits identifier
      · rw [List.filter_cons_of_pos (by simpa using firstAdmits)] at isFilter
        obtain ⟨rfl, noneAdmits⟩ := List.cons.inj isFilter
        have restNone : ((rest.flatMap (Arrival.follow completion next)).filter fun path =>
            path.Admits identifier) = [] := by
          rw [List.filter_flatMap, List.flatMap_eq_nil_iff]
          intro other member
          rw [List.filter_eq_nil_iff] at noneAdmits
          exact filter_follow_eq_nil (by simpa using noneAdmits other member)
        rw [restNone, List.append_nil]
      · rw [List.filter_cons_of_neg (by simpa using firstAdmits)] at isFilter
        rw [filter_follow_eq_nil firstAdmits, List.nil_append, induction isFilter]

/-- Every arrival is that of some class, so the paths of all arrivals together are
routed once those of each class are. -/
theorem routed_flatMap {arrivals : List Arrival} {next : Transfer → List Path}
    (resolves : Resolves hierarchy state thrown traps arrivals)
    (follows : ∀ identifier, state.Admits identifier → thrown.Admits identifier →
      ∃ arrival, (arrivals.filter fun other =>
          other.successor.state.Admits identifier) = [arrival] ∧
        Routed state thrown traps identifier (arrival.follow completion next))
    (stateAdmits : state.Admits identifier) (admitted : thrown.Admits identifier) :
    Routed state thrown traps identifier
      (arrivals.flatMap (Arrival.follow completion next)) := by
  have inRouted : ∀ path ∈ arrivals.flatMap (Arrival.follow completion next),
      ∃ other paths, Routed state thrown traps other paths ∧ path ∈ paths := by
    intro path member
    obtain ⟨arrival, inArrivals, inFollow⟩ := List.mem_flatMap.mp member
    obtain ⟨other, otherState, otherThrown, reached⟩ := resolves.possible arrival inArrivals
    obtain ⟨only, isFilter, routed⟩ := follows other otherState otherThrown
    have inFilter : arrival ∈ arrivals.filter fun arrival =>
        arrival.successor.state.Admits other :=
      List.mem_filter.mpr ⟨inArrivals, decide_eq_true reached⟩
    rw [isFilter] at inFilter
    cases List.mem_singleton.mp inFilter
    exact ⟨other, _, routed, inFollow⟩
  refine ⟨?_, ?_, ?_⟩
  · intro path member
    obtain ⟨_, paths, routed, inPaths⟩ := inRouted path member
    exact routed.finished path inPaths
  · intro path member
    obtain ⟨_, paths, routed, inPaths⟩ := inRouted path member
    exact routed.possible path inPaths
  · obtain ⟨arrival, isFilter, routed⟩ := follows identifier stateAdmits admitted
    obtain ⟨path, isPath, routes⟩ := routed.single
    exact ⟨path, (filter_flatMap_follow isFilter).trans isPath, routes⟩

theorem explore_routed (unlimited : limits.maxSuccessors = 0) :
    ∀ {rounds : Nat} {state : State} {thrown : Constraint} {traps : TrapStack}
      {transfer : Transfer},
      Carries hierarchy limits state thrown traps transfer → traps.length < rounds →
        ∀ identifier, state.Admits identifier → thrown.Admits identifier →
          Routed state thrown traps identifier (explore limits completion rounds transfer) := by
  intro rounds
  -- each round ends at a handler, outside, or at a body with fewer traps around it
  induction rounds with
  | zero =>
      intro state thrown traps transfer _ enough
      exact absurd enough (Nat.not_lt_zero _)
  | succ rounds induction =>
      intro state thrown traps transfer carries enough identifier
      obtain ⟨arrivals, arrives, resolves⟩ := carries.arrives
      rw [explore, Transfer.dispatchArrivals_of_arrivals arrives unlimited]
      apply routed_flatMap resolves
      intro other stateAdmits admitted
      obtain ⟨arrival, isFilter, fits, entered⟩ := resolves.lands other stateAdmits admitted
      obtain ⟨member, reached⟩ := mem_of_only isFilter
      refine ⟨arrival, isFilter, ?_⟩
      apply follow_routed carries stateAdmits admitted reached (resolves.narrows arrival member)
        (resolves.about arrival member) fits entered
      intro resumed uncaught outer rest shorter carriesOn
      have enoughLeft : outer.length < rounds := by omega
      exact induction carriesOn enoughLeft other

/-- An exception that may run finally bodies on its way: the explored paths are the
runs of dispatch, every run ends without an error, and each class that was thrown
has exactly one path.  It leads through the finally bodies before the trap that
catches the class, from the innermost on, and then to that trap, or outside with an
exception that may be of the class.  No path is there for nothing. -/
theorem explore_routes_each_class (completion : Completion) (formed : thrown.Formed)
    (about : thrown.hierarchy = hierarchy) (handles : traps.HandlesOver hierarchy)
    (fresh : state.exception = none) (deep : traps.length < limits.maxDepth)
    (unlimited : limits.maxSuccessors = 0) :
    let paths := explore limits completion (traps.length + 1) ⟨state, .exception thrown, traps⟩
    (∀ visited, Visits limits completion ⟨state, .exception thrown, traps⟩ visited ↔
        ⟨visited, .finished⟩ ∈ paths) ∧
      (∀ path ∈ paths, path.ending = .finished ∧
        ∃ identifier, thrown.Admits identifier ∧ path.Admits identifier) ∧
      ∀ identifier, thrown.Admits identifier →
        ∃ path, (paths.filter fun other => other.Admits identifier) = [path] ∧
          path.Routes identifier state traps := by
  intro paths
  have throws : Throws hierarchy state thrown := by
    apply throws_of_formed formed about
    simp [fresh]
  have routed : ∀ identifier, thrown.Admits identifier →
      Routed state thrown traps identifier paths := fun identifier =>
    explore_routed unlimited (carries_thrown throws handles deep) (Nat.lt_succ_self _) identifier
      (State.admits_of_none fresh)
  have routedUpper := routed thrown.upper formed.satisfiable
  refine ⟨fun visited => visits_iff_mem_explore routedUpper.finished, ?_, ?_⟩
  · intro path member
    obtain ⟨identifier, _, admitted, pathAdmits⟩ := routedUpper.possible path member
    exact ⟨routedUpper.finished path member, identifier, admitted, pathAdmits⟩
  · intro identifier admitted
    exact (routed identifier admitted).single

/-- Every body ends with nothing but itself around it. -/
def Completion.bare : Completion :=
  ⟨fun _ _ => [⟨9, ⟨1⟩, .insideFinally⟩], fun _ _ => ⟨_, [], rfl, rfl⟩⟩

theorem explore_routes_nested_sql :
    let thrown := Constraint.instanceOf Hierarchy.throwables ⟨1⟩
    let paths := explore .standard .bare 4 ⟨.initial, .exception thrown, .nested⟩
    ∃ path, (paths.filter fun other => other.Admits ⟨3⟩) = [path] ∧
      Visits .standard .bare ⟨.initial, .exception thrown, .nested⟩ path.visited ∧
      path.visited.map Successor.offset? = [some ⟨50⟩, some ⟨20⟩] := by
  intro thrown paths
  have formed : thrown.Formed := .instanceOf _ _
  have handles : TrapStack.nested.HandlesOver Hierarchy.throwables := by decide
  have fresh : State.initial.exception = none := rfl
  have deep : TrapStack.nested.length < Limits.standard.maxDepth := by decide
  obtain ⟨areRuns, finished, routes⟩ :=
    explore_routes_each_class .bare formed rfl handles fresh deep rfl
  obtain ⟨path, isPath, routed⟩ := routes ⟨3⟩ (by decide)
  have member : path ∈ paths :=
    (List.mem_filter.mp (isPath ▸ List.mem_singleton_self path)).1
  have isFinished : path = ⟨path.visited, .finished⟩ := by
    rw [← (finished path member).1]
  exact ⟨path, isPath, (areRuns path.visited).mpr (isFinished ▸ member), routed.offsets⟩

end Rounds

end Unwind
