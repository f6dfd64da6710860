import Unwind.State
import Unwind.Proofs.Canonical

/-!
# Laws of meeting and excluding

Neither operation treats its operands alike: the answer is built from the first
one, and lists of excluded classes are joined in the order of the operands.  The
answers are nevertheless equal wherever they admit the same classes, because each
of them is the only one of its kind in canonical form.  `Normal.eq_of_leaves_iff`
says so for answers that may be missing, and the laws of the operations are then
those of intersection and difference.

What a state learns about an exception may therefore be learnt in any order.
-/

set_option autoImplicit false

namespace Unwind

namespace Constraint

variable {hierarchy : Shared Hierarchy} {answer other : Option Constraint}
  {first second third constraint caught : Constraint} {identifier : ClassId}

/-! ## Answers that may be missing -/

/-- The answer, if there is one, is about the hierarchy and in canonical form. -/
def Normal (hierarchy : Shared Hierarchy) (answer : Option Constraint) : Prop :=
  ∀ constraint ∈ answer, constraint.hierarchy = hierarchy ∧ constraint.Rebuilt

theorem Rebuilt.normal (rebuilt : constraint.Rebuilt) :
    Normal constraint.hierarchy (some constraint) := by
  intro found isFound
  cases Option.some.inj isFound
  exact ⟨rfl, rebuilt⟩

theorem normal_meet (same : first.hierarchy = second.hierarchy) :
    Normal first.hierarchy (first.meet second) :=
  fun _ made => ⟨hierarchy_of_meet made, rebuilt_of_common_meet same made⟩

/-- No class is left exactly when there is no answer, so the classes that are left
determine the answer. -/
theorem Normal.eq_of_leaves_iff (normal : Normal hierarchy answer) (otherNormal : Normal hierarchy other)
    (agree : ∀ identifier, Leaves answer identifier ↔ Leaves other identifier) :
    answer = other := by
  cases answer with
  | none =>
      cases other with
      | none => rfl
      | some second =>
          obtain ⟨_, rebuilt⟩ := otherNormal second rfl
          exact absurd ((agree second.upper).mpr (leaves_some.mpr rebuilt.satisfiable)) leaves_none
  | some first =>
      obtain ⟨about, rebuilt⟩ := normal first rfl
      cases other with
      | none =>
          exact absurd ((agree first.upper).mp (leaves_some.mpr rebuilt.satisfiable)) leaves_none
      | some second =>
          obtain ⟨otherAbout, otherRebuilt⟩ := otherNormal second rfl
          simp only [leaves_some] at agree
          rw [rebuilt.canonical.eq_of_admits_iff otherRebuilt.canonical
            (about.trans otherAbout.symm) agree]

/-! ## One operation after another -/

theorem Normal.bind_meet (normal : Normal hierarchy answer) :
    Normal hierarchy (answer.bind (·.meet second)) := by
  intro result made
  obtain ⟨constraint, isAnswer, meets⟩ := Option.bind_eq_some_iff.mp made
  obtain ⟨about, rebuilt⟩ := normal constraint isAnswer
  exact ⟨(hierarchy_of_meet meets).trans about, rebuilt_of_meet rebuilt meets⟩

theorem Normal.bind_exclude (normal : Normal hierarchy answer) :
    Normal hierarchy (answer.bind (·.exclude caught)) := by
  intro result made
  obtain ⟨constraint, isAnswer, excludes⟩ := Option.bind_eq_some_iff.mp made
  obtain ⟨about, rebuilt⟩ := normal constraint isAnswer
  exact ⟨(hierarchy_of_exclude excludes).trans about, rebuilt_of_exclude rebuilt excludes⟩

theorem Normal.leaves_bind_meet (normal : Normal hierarchy answer)
    (about : second.hierarchy = hierarchy) :
    Leaves (answer.bind (·.meet second)) identifier ↔
      Leaves answer identifier ∧ second.Admits identifier := by
  cases answer with
  | none => simp
  | some constraint =>
      have same : constraint.hierarchy = second.hierarchy :=
        (normal constraint rfl).1.trans about.symm
      rw [Option.bind_some, leaves_meet same, leaves_some]

theorem Normal.leaves_bind_exclude (normal : Normal hierarchy answer)
    (about : caught.hierarchy = hierarchy) :
    Leaves (answer.bind (·.exclude caught)) identifier ↔
      Leaves answer identifier ∧ ¬ hierarchy.value.Below identifier caught.upper := by
  cases answer with
  | none => simp
  | some constraint =>
      obtain ⟨isOver, rebuilt⟩ := normal constraint rfl
      rw [Option.bind_some, leaves_exclude (isOver.trans about.symm) rebuilt.satisfiable, leaves_some,
        isOver]

/-! ## Laws -/

theorem meet_comm (same : first.hierarchy = second.hierarchy) :
    first.meet second = second.meet first := by
  have normal : Normal first.hierarchy (second.meet first) := same ▸ normal_meet same.symm
  refine (normal_meet same).eq_of_leaves_iff normal fun identifier => ?_
  rw [leaves_meet same, leaves_meet same.symm, and_comm]

theorem meet_assoc (sameSecond : first.hierarchy = second.hierarchy)
    (sameThird : first.hierarchy = third.hierarchy) :
    (first.meet second).bind (·.meet third) = (second.meet third).bind (first.meet ·) := by
  have same : second.hierarchy = third.hierarchy := sameSecond.symm.trans sameThird
  have normal : Normal first.hierarchy (first.meet second) := normal_meet sameSecond
  have otherNormal : Normal first.hierarchy (second.meet third) := sameSecond ▸ normal_meet same
  have turned : (second.meet third).bind (first.meet ·) = (second.meet third).bind (·.meet first) := by
    refine Option.bind_congr fun both made => ?_
    exact meet_comm ((otherNormal both made).1).symm
  rw [turned]
  refine normal.bind_meet.eq_of_leaves_iff otherNormal.bind_meet fun identifier => ?_
  rw [normal.leaves_bind_meet sameThird.symm, otherNormal.leaves_bind_meet rfl,
    leaves_meet sameSecond, leaves_meet same, and_assoc, and_comm]

theorem Rebuilt.meet_self (rebuilt : constraint.Rebuilt) :
    constraint.meet constraint = some constraint := by
  refine (normal_meet rfl).eq_of_leaves_iff rebuilt.normal fun identifier => ?_
  rw [leaves_meet rfl, leaves_some, and_self]

theorem Rebuilt.exclude_right_comm (rebuilt : first.Rebuilt)
    (sameSecond : first.hierarchy = second.hierarchy)
    (sameThird : first.hierarchy = third.hierarchy) :
    (first.exclude second).bind (·.exclude third) =
      (first.exclude third).bind (·.exclude second) := by
  have withoutSecond : Normal first.hierarchy (first.exclude second) := rebuilt.normal.bind_exclude
  have withoutThird : Normal first.hierarchy (first.exclude third) := rebuilt.normal.bind_exclude
  refine withoutSecond.bind_exclude.eq_of_leaves_iff withoutThird.bind_exclude fun identifier => ?_
  rw [withoutSecond.leaves_bind_exclude sameThird.symm,
    withoutThird.leaves_bind_exclude sameSecond.symm,
    leaves_exclude sameSecond rebuilt.satisfiable, leaves_exclude sameThird rebuilt.satisfiable,
    and_right_comm]

/-- A constraint over another hierarchy adds nothing. -/
theorem meet_of_ne (differ : first.hierarchy ≠ second.hierarchy) :
    first.meet second = some first := by
  rw [meet, if_pos differ]

theorem meet_right_comm (same : second.hierarchy = third.hierarchy) :
    (first.meet second).bind (·.meet third) = (first.meet third).bind (·.meet second) := by
  by_cases common : first.hierarchy = second.hierarchy
  · have commonThird : first.hierarchy = third.hierarchy := common.trans same
    rw [meet_assoc common commonThird, meet_comm same, ← meet_assoc commonThird common]
  · have differThird : first.hierarchy ≠ third.hierarchy := same ▸ common
    simp only [meet_of_ne common, meet_of_ne differThird, Option.bind_some]

end Constraint

/-! ## Narrowing in any order -/

namespace State

variable {hierarchy : Shared Hierarchy} {state : State} {first second : Constraint}

/-- Learns one constraint after another, as long as none of them contradicts what
is known by then. -/
def narrowAll? (state : State) : List Constraint → Option State
  | [] => some state
  | learnt :: rest => (state.narrow? learnt).bind (narrowAll? · rest)

theorem narrow?_bind_narrow? (state : State) (first second : Constraint) :
    (state.narrow? first).bind (·.narrow? second) =
      (match state.exception with
        | none => first.meet second
        | some known => (known.meet first).bind (·.meet second)).map
        fun both => { state with exception := some both } := by
  cases isKnown : state.exception with
  | none => simp only [narrow?, isKnown, Option.bind_some]
  | some known =>
      simp only [narrow?, isKnown]
      cases known.meet first <;> rfl

theorem narrow?_right_comm (same : first.hierarchy = second.hierarchy) :
    (state.narrow? first).bind (·.narrow? second) =
      (state.narrow? second).bind (·.narrow? first) := by
  rw [narrow?_bind_narrow?, narrow?_bind_narrow?]
  cases state.exception with
  | none => simp only [Constraint.meet_comm same]
  | some known => simp only [Constraint.meet_right_comm same]

theorem narrowAll?_perm {learnt reordered : List Constraint} (reorders : learnt.Perm reordered) :
    (∀ constraint ∈ learnt, constraint.hierarchy = hierarchy) →
      ∀ state : State, state.narrowAll? learnt = state.narrowAll? reordered := by
  induction reorders with
  | nil =>
      intro _ state
      rfl
  | cons head _ induction =>
      intro about state
      have restAbout := fun constraint member => about constraint (List.mem_cons_of_mem head member)
      exact Option.bind_congr fun narrowed _ => induction restAbout narrowed
  | swap first second rest =>
      intro about state
      have same : second.hierarchy = first.hierarchy :=
        (about second (by simp)).trans (about first (by simp)).symm
      simp only [narrowAll?]
      rw [← Option.bind_assoc, narrow?_right_comm same, Option.bind_assoc]
  | trans former _ formerInduction laterInduction =>
      intro about state
      have laterAbout := fun constraint member => about constraint (former.mem_iff.mpr member)
      exact (formerInduction about state).trans (laterInduction laterAbout state)

end State

namespace Constraint

open Hierarchy (throwables)

variable {first second third : Constraint}

/-- Over one hierarchy, constraints form a semilattice under `meet`, classes are
taken away in any order, and so is what a state learns: if it can be learnt in one
order, it can be learnt in every order and leaves the same state behind. -/
theorem Formed.semilattice_laws (formed : first.Formed)
    (sameSecond : first.hierarchy = second.hierarchy)
    (sameThird : first.hierarchy = third.hierarchy) :
    first.meet second = second.meet first ∧
      (first.meet second).bind (·.meet third) = (second.meet third).bind (first.meet ·) ∧
      first.meet first = some first ∧
      (first.exclude second).bind (·.exclude third) =
        (first.exclude third).bind (·.exclude second) ∧
      ∀ learnt reordered : List Constraint, learnt.Perm reordered →
        (∀ constraint ∈ learnt, constraint.hierarchy = first.hierarchy) →
          ∀ state : State, state.narrowAll? learnt = state.narrowAll? reordered := by
  refine ⟨meet_comm sameSecond, meet_assoc sameSecond sameThird, formed.rebuilt.meet_self,
    formed.rebuilt.exclude_right_comm sameSecond sameThird, ?_⟩
  intro learnt reordered reorders about state
  exact State.narrowAll?_perm reorders about state

/-- Every exception but the input-output ones, met with other constraints. -/
theorem semilattice_laws_not_io :
    let notIo : Constraint := ⟨throwables, ⟨0⟩, [⟨2⟩]⟩
    let exception := instanceOf throwables ⟨1⟩
    let notSql : Constraint := ⟨throwables, ⟨0⟩, [⟨3⟩]⟩
    let neither : Constraint := ⟨throwables, ⟨1⟩, [⟨2⟩, ⟨3⟩]⟩
    notIo.meet exception = exception.meet notIo ∧
      (notIo.meet exception).bind (·.meet notSql) = (exception.meet notSql).bind (notIo.meet ·) ∧
      notIo.meet notIo = some notIo ∧
      (notIo.exclude exception).bind (·.exclude notSql) =
        (notIo.exclude notSql).bind (·.exclude exception) ∧
      State.initial.narrowAll? [notIo, exception, notSql] = some ⟨.empty, [], some neither⟩ ∧
      State.initial.narrowAll? [notSql, exception, notIo] = some ⟨.empty, [], some neither⟩ := by
  intro notIo exception notSql neither
  have made : (instanceOf throwables ⟨0⟩).exclude (instanceOf throwables ⟨2⟩) = some notIo := by
    decide
  have formed : notIo.Formed :=
    .exclude (.instanceOf throwables ⟨0⟩) (.instanceOf throwables ⟨2⟩) made
  have sameException : notIo.hierarchy = exception.hierarchy := rfl
  have sameSql : notIo.hierarchy = notSql.hierarchy := rfl
  obtain ⟨comm, assoc, idem, excludes, narrows⟩ := formed.semilattice_laws sameException sameSql
  have narrowed : State.initial.narrowAll? [notIo, exception, notSql] =
      some ⟨.empty, [], some neither⟩ := by decide
  refine ⟨comm, assoc, idem, excludes, narrowed, ?_⟩
  rw [← narrowed]
  exact narrows [notSql, exception, notIo] [notIo, exception, notSql] (by decide) (by decide) .initial

end Constraint

end Unwind
