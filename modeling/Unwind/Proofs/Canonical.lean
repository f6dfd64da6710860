import Unwind.Proofs.Admission

/-!
# One constraint for one set of classes

The operations keep constraints in one form: the excluded classes ascend, each of
them is strictly below the upper class, and none is below another.  The form is
canonical.  The upper class is the greatest class that a constraint admits, and
the excluded classes are the greatest ones below it that are not admitted, so
constraints that admit the same classes are equal.
-/

set_option autoImplicit false

namespace Unwind

namespace Hierarchy

variable {hierarchy : Hierarchy} {upper : ClassId} {classes : List ClassId}

theorem ordered_topmostBelow : Ascending (hierarchy.topmostBelow upper classes) :=
  (ordered_ascending _).filter _

/-- No topmost class is below another one. -/
theorem eq_of_below_topmostBelow {first second : ClassId}
    (firstTop : first ∈ hierarchy.topmostBelow upper classes)
    (secondTop : second ∈ hierarchy.topmostBelow upper classes)
    (below : hierarchy.Below first second) : first = second := by
  apply Decidable.byContradiction
  intro different
  have highest := (mem_topmostBelow.mp firstTop).2
  exact highest second (mem_topmostBelow.mp secondTop).1 (Ne.symm different) below

end Hierarchy

namespace Constraint

open Hierarchy (throwables)

variable {first second constraint : Constraint}

structure Canonical (constraint : Constraint) : Prop where
  ordered : Ascending constraint.excluded
  strict : ∀ excluded ∈ constraint.excluded,
    excluded ≠ constraint.upper ∧ constraint.hierarchy.value.Below excluded constraint.upper
  apart : ∀ one ∈ constraint.excluded, ∀ other ∈ constraint.excluded,
    constraint.hierarchy.value.Below one other → one = other
  admits_upper : constraint.Admits constraint.upper

theorem Rebuilt.canonical (rebuilt : constraint.Rebuilt) : constraint.Canonical := by
  have satisfiable := rebuilt.satisfiable
  obtain ⟨classes, _, isExcluded⟩ := rebuilt
  refine ⟨?_, ?_, ?_, satisfiable⟩
  · rw [isExcluded]
    exact Hierarchy.ordered_topmostBelow
  · intro excluded member
    rw [isExcluded] at member
    exact (Hierarchy.mem_topmostBelow.mp member).1.2
  · intro one oneMember other otherMember
    rw [isExcluded] at oneMember otherMember
    exact Hierarchy.eq_of_below_topmostBelow oneMember otherMember

/-! ## Constraints that admit the same classes -/

theorem Canonical.upper_eq (canonical : first.Canonical) (secondCanonical : second.Canonical)
    (same : first.hierarchy = second.hierarchy)
    (agree : ∀ identifier, first.Admits identifier ↔ second.Admits identifier) :
    first.upper = second.upper := by
  have firstBelow := ((agree first.upper).mp canonical.admits_upper).1
  have secondBelow := ((agree second.upper).mpr secondCanonical.admits_upper).1
  rw [← same] at firstBelow
  exact Hierarchy.below_antisymm firstBelow secondBelow

/-- A class excluded by one constraint is not admitted by a stronger one either. -/
theorem Canonical.exists_excluded_above (canonical : first.Canonical)
    (same : first.hierarchy = second.hierarchy) (sameUpper : first.upper = second.upper)
    (implies : ∀ identifier, second.Admits identifier → first.Admits identifier)
    {excluded : ClassId} (member : excluded ∈ first.excluded) :
    ∃ above ∈ second.excluded, first.hierarchy.value.Below excluded above := by
  apply Classical.byContradiction
  intro noneAbove
  have belowUpper := (canonical.strict excluded member).2
  have admitted : second.Admits excluded := by
    refine ⟨same ▸ sameUpper ▸ belowUpper, ?_⟩
    intro above aboveMember below
    exact noneAbove ⟨above, aboveMember, same ▸ below⟩
  exact (implies excluded admitted).2 excluded member (Hierarchy.below_refl _ _)

theorem Canonical.mem_excluded (canonical : first.Canonical) (secondCanonical : second.Canonical)
    (same : first.hierarchy = second.hierarchy)
    (agree : ∀ identifier, first.Admits identifier ↔ second.Admits identifier)
    {excluded : ClassId} (member : excluded ∈ first.excluded) : excluded ∈ second.excluded := by
  have sameUpper := canonical.upper_eq secondCanonical same agree
  obtain ⟨above, inSecond, below⟩ := canonical.exists_excluded_above same sameUpper
    (fun identifier => (agree identifier).mpr) member
  obtain ⟨highest, inFirst, aboveBelow⟩ := secondCanonical.exists_excluded_above same.symm
    sameUpper.symm (fun identifier => (agree identifier).mp) inSecond
  -- the way up through both lists leads back to the class itself
  rw [← same] at aboveBelow
  have isHighest : excluded = highest :=
    canonical.apart excluded member highest inFirst (Hierarchy.below_trans below aboveBelow)
  have isAbove : above = excluded :=
    Hierarchy.below_antisymm (isHighest ▸ aboveBelow) below
  exact isAbove ▸ inSecond

theorem Canonical.eq_of_admits_iff (canonical : first.Canonical)
    (secondCanonical : second.Canonical) (same : first.hierarchy = second.hierarchy)
    (agree : ∀ identifier, first.Admits identifier ↔ second.Admits identifier) :
    first = second := by
  have sameUpper := canonical.upper_eq secondCanonical same agree
  have sameExcluded : first.excluded = second.excluded := by
    refine eq_of_ordered_of_mem_iff canonical.ordered secondCanonical.ordered ?_
    intro excluded
    constructor
    · exact canonical.mem_excluded secondCanonical same agree
    · exact secondCanonical.mem_excluded canonical same.symm fun identifier =>
        (agree identifier).symm
  obtain ⟨hierarchy, upper, excluded⟩ := first
  obtain ⟨otherHierarchy, otherUpper, otherExcluded⟩ := second
  simp only at same sameUpper sameExcluded
  rw [same, sameUpper, sameExcluded]

/-- Every constraint that can be made is in canonical form, and two of them over
one hierarchy are equal exactly when they admit the same classes. -/
theorem Formed.canonical_and_eq_iff (formed : first.Formed) :
    first.Canonical ∧
      ∀ second : Constraint, second.Formed → first.hierarchy = second.hierarchy →
        (first = second ↔ ∀ identifier, first.Admits identifier ↔ second.Admits identifier) := by
  have canonical := formed.rebuilt.canonical
  refine ⟨canonical, ?_⟩
  intro second secondFormed same
  constructor
  · rintro rfl identifier
    rfl
  · exact canonical.eq_of_admits_iff secondFormed.rebuilt.canonical same

/-- Two kinds of exceptions taken away in either order. -/
theorem exclude_io_sql_canonical :
    let io := instanceOf throwables ⟨2⟩
    let sql := instanceOf throwables ⟨3⟩
    let neither : Constraint := ⟨throwables, ⟨0⟩, [⟨2⟩, ⟨3⟩]⟩
    ((instanceOf throwables ⟨0⟩).exclude io).bind (·.exclude sql) = some neither ∧
      ((instanceOf throwables ⟨0⟩).exclude sql).bind (·.exclude io) = some neither ∧
      neither.Canonical ∧
      ¬ ∀ identifier, neither.Admits identifier ↔
        (Constraint.mk throwables ⟨0⟩ [⟨2⟩]).Admits identifier := by
  intro io sql neither
  have withoutIo : (instanceOf throwables ⟨0⟩).exclude io = some ⟨throwables, ⟨0⟩, [⟨2⟩]⟩ := by
    decide
  have withoutBoth : (Constraint.mk throwables ⟨0⟩ [⟨2⟩]).exclude sql = some neither := by decide
  have ioFormed : Formed ⟨throwables, ⟨0⟩, [⟨2⟩]⟩ :=
    .exclude (.instanceOf throwables ⟨0⟩) (.instanceOf throwables ⟨2⟩) withoutIo
  have formed : neither.Formed := .exclude ioFormed (.instanceOf throwables ⟨3⟩) withoutBoth
  obtain ⟨canonical, equalIff⟩ := formed.canonical_and_eq_iff
  refine ⟨by decide, by decide, canonical, ?_⟩
  rw [← equalIff _ ioFormed rfl]
  decide

end Constraint

end Unwind
