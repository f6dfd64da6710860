import Unwind.Proofs.Canonical

/-!
# Constraints as sets of classes

Over one hierarchy a constraint stands for the set of classes that it admits.
`meet` is then the intersection of two sets, and `exclude` by the constraint of a
single class is their difference.  Both answer `none` exactly when the set is
empty.

What a class has taken away stays away: the rest has nothing in common with it,
and taking it away again changes nothing.  A second handler for the same class is
therefore never reached.
-/

set_option autoImplicit false

namespace Unwind

namespace Constraint

open Hierarchy (throwables)

variable {first second constraint caught : Constraint}

/-- Nothing is answered exactly when the two have no class in common, and an
answer admits exactly the classes that both admit, whatever the two exclude. -/
theorem meet_isIntersection (same : first.hierarchy = second.hierarchy) :
    (first.meet second = none ↔
        ∀ identifier, ¬ (first.Admits identifier ∧ second.Admits identifier)) ∧
      ∀ both, first.meet second = some both →
        both.hierarchy = first.hierarchy ∧
          ∀ identifier, both.Admits identifier ↔
            first.Admits identifier ∧ second.Admits identifier := by
  refine ⟨meet_eq_none_iff_disjoint same, ?_⟩
  intro both made
  refine ⟨hierarchy_of_meet made, ?_⟩
  intro identifier
  exact admits_of_meet same made

/-- Exclusions of both sides are kept, and a constraint has nothing in common with
one that excludes its upper class. -/
theorem meet_exclusions :
    let notIo : Constraint := ⟨throwables, ⟨0⟩, [⟨2⟩]⟩
    let notSql : Constraint := ⟨throwables, ⟨1⟩, [⟨3⟩]⟩
    let neither : Constraint := ⟨throwables, ⟨1⟩, [⟨2⟩, ⟨3⟩]⟩
    notIo.meet notSql = some neither ∧
      (neither.Admits ⟨1⟩ ↔ notIo.Admits ⟨1⟩ ∧ notSql.Admits ⟨1⟩) ∧
      ∀ identifier, ¬ (notIo.Admits identifier ∧
        (instanceOf throwables ⟨2⟩).Admits identifier) := by
  intro notIo notSql neither
  have made : notIo.meet notSql = some neither := by decide
  have apart : notIo.meet (instanceOf throwables ⟨2⟩) = none := by decide
  have same : notIo.hierarchy = notSql.hierarchy := rfl
  have sameIo : notIo.hierarchy = (instanceOf throwables ⟨2⟩).hierarchy := rfl
  obtain ⟨_, common⟩ := meet_isIntersection same
  obtain ⟨disjoint, _⟩ := meet_isIntersection sameIo
  exact ⟨made, (common neither made).2 ⟨1⟩, disjoint.mp apart⟩

/-! ## Difference -/

/-- Taking away what a constraint does not admit gives back the constraint itself,
since it is the only one in canonical form that admits the same classes. -/
theorem Rebuilt.exclude_eq_self (rebuilt : constraint.Rebuilt)
    (same : constraint.hierarchy = caught.hierarchy)
    (apart : ∀ identifier, constraint.Admits identifier →
      ¬ constraint.hierarchy.value.Below identifier caught.upper) :
    constraint.exclude caught = some constraint := by
  have satisfiable := rebuilt.satisfiable
  cases made : constraint.exclude caught with
  | none =>
      have covered := (exclude_eq_none_iff same satisfiable).mp made
      exact absurd (covered constraint.upper satisfiable) (apart constraint.upper satisfiable)
  | some rest =>
      have agree : ∀ identifier, rest.Admits identifier ↔ constraint.Admits identifier := by
        intro identifier
        rw [admits_of_exclude same satisfiable made]
        exact ⟨And.left, fun admitted => ⟨admitted, apart identifier admitted⟩⟩
      have restCanonical := (rebuilt_of_exclude rebuilt made).canonical
      exact congrArg some
        (restCanonical.eq_of_admits_iff rebuilt.canonical (hierarchy_of_exclude made) agree)

/-- Excluding a single class takes away the classes below it and nothing else, and
once is enough. -/
theorem exclude_isDifference (formed : constraint.Formed) (upper : ClassId) :
    let caught := instanceOf constraint.hierarchy upper
    (constraint.exclude caught = none ↔
        ∀ identifier, constraint.Admits identifier →
          constraint.hierarchy.value.Below identifier upper) ∧
      ∀ rest, constraint.exclude caught = some rest →
        rest.hierarchy = constraint.hierarchy ∧
          (∀ identifier, rest.Admits identifier ↔
            constraint.Admits identifier ∧
              ¬ constraint.hierarchy.value.Below identifier upper) ∧
          rest.meet caught = none ∧ rest.exclude caught = some rest := by
  intro caught
  have same : constraint.hierarchy = caught.hierarchy := rfl
  have satisfiable := formed.satisfiable
  refine ⟨exclude_eq_none_iff same satisfiable, ?_⟩
  intro rest made
  have about : rest.hierarchy = constraint.hierarchy := hierarchy_of_exclude made
  have difference : ∀ identifier, rest.Admits identifier ↔
      constraint.Admits identifier ∧ ¬ constraint.hierarchy.value.Below identifier upper :=
    fun identifier => admits_of_exclude same satisfiable made
  refine ⟨about, difference, ?_, ?_⟩
  · rw [meet_instanceOf_eq_none_iff about]
    intro identifier admitted
    exact ((difference identifier).mp admitted).2
  · have restSame : rest.hierarchy = caught.hierarchy := about
    apply (rebuilt_of_exclude formed.rebuilt made).exclude_eq_self restSame
    intro identifier admitted
    rw [about]
    exact ((difference identifier).mp admitted).2

/-- A class takes the place of one below it that was excluded before. -/
theorem exclude_exception_after_sql :
    let notSql : Constraint := ⟨throwables, ⟨0⟩, [⟨3⟩]⟩
    let notException : Constraint := ⟨throwables, ⟨0⟩, [⟨1⟩]⟩
    let exception := instanceOf throwables ⟨1⟩
    notSql.exclude exception = some notException ∧
      (¬ ∀ identifier, notSql.Admits identifier → throwables.value.Below identifier ⟨1⟩) ∧
      notException.meet exception = none ∧ notException.exclude exception = some notException := by
  intro notSql notException exception
  have withoutSql : (instanceOf throwables ⟨0⟩).exclude (instanceOf throwables ⟨3⟩) =
      some notSql := by decide
  have formed : notSql.Formed :=
    .exclude (.instanceOf throwables ⟨0⟩) (.instanceOf throwables ⟨3⟩) withoutSql
  have made : notSql.exclude exception = some notException := by decide
  obtain ⟨nothing, difference⟩ := exclude_isDifference formed ⟨1⟩
  obtain ⟨_, _, apart, again⟩ := difference notException made
  refine ⟨made, ?_, apart, again⟩
  intro covered
  exact absurd (nothing.mpr covered) (by decide)

end Constraint

end Unwind
