import Unwind.Constraint

/-!
# What constraints admit

The operations on constraints, read through the classes they leave possible.
`leaves_meet` says that `meet` is intersection.  `leaves_exclude` says that
`exclude` takes away the classes below the upper class of what was caught,
whatever that constraint itself excludes.  Both answer `none` exactly when no
class is left, because a constraint made by the operations of this library
admits its own upper class.

Both statements rest on single inheritance: two classes that have a common
subclass are comparable, so an excluded class that is unrelated to the upper
class may be dropped.
-/

set_option autoImplicit false

namespace Unwind

namespace Hierarchy

variable {hierarchy : Hierarchy} {upper excluded identifier : ClassId} {classes : List ClassId}

theorem mem_topmostBelow :
    excluded ∈ hierarchy.topmostBelow upper classes ↔
      (excluded ∈ classes ∧ excluded ≠ upper ∧ hierarchy.Below excluded upper) ∧
        ∀ other, other ∈ classes ∧ other ≠ upper ∧ hierarchy.Below other upper →
          other ≠ excluded → ¬ hierarchy.Below excluded other := by
  simp only [topmostBelow, List.mem_filter, mem_ascending, decide_eq_true_eq, not_exists, not_and]

/-- Every class strictly below `upper` lies below one of the topmost. -/
theorem exists_topmostBelow :
    ∀ {excluded : ClassId}, excluded ∈ classes → excluded ≠ upper →
      hierarchy.Below excluded upper →
        ∃ top ∈ hierarchy.topmostBelow upper classes, hierarchy.Below excluded top := by
  rintro ⟨index⟩
  -- a class that is not topmost has another one above it, with a smaller index
  induction index using Nat.strongRecOn with
  | ind index induction =>
      intro member different below
      by_cases topmost : ∀ other, other ∈ classes ∧ other ≠ upper ∧ hierarchy.Below other upper →
          other ≠ ⟨index⟩ → ¬ hierarchy.Below ⟨index⟩ other
      · exact ⟨⟨index⟩, mem_topmostBelow.mpr ⟨⟨member, different, below⟩, topmost⟩,
          hierarchy.below_refl _⟩
      · simp only [Classical.not_forall, Classical.not_not] at topmost
        obtain ⟨other, ⟨otherMember, otherDifferent, otherBelow⟩, distinct, above⟩ := topmost
        have notLater : other.index ≤ index := le_of_below above
        have notSame : other.index ≠ index := fun same => distinct (Indexed.eq_of_indexOf_eq same)
        obtain ⟨top, isTop, otherUnder⟩ :=
          induction other.index (by omega) otherMember otherDifferent otherBelow
        exact ⟨top, isTop, below_trans above otherUnder⟩

/-- Dropping the classes that are not topmost below `upper` changes nothing for
a class below `upper`, as long as `upper` itself is not ruled out. -/
theorem not_below_topmostBelow_iff (below : hierarchy.Below identifier upper)
    (upperOpen : ∀ other ∈ classes, ¬ hierarchy.Below upper other) :
    (∀ excluded ∈ hierarchy.topmostBelow upper classes, ¬ hierarchy.Below identifier excluded) ↔
      ∀ excluded ∈ classes, ¬ hierarchy.Below identifier excluded := by
  constructor
  · intro outside excluded member under
    have comparable : hierarchy.Below excluded upper :=
      (below_or_below under below).resolve_right (upperOpen excluded member)
    have different : excluded ≠ upper := by
      intro same
      exact upperOpen excluded member (same ▸ hierarchy.below_refl upper)
    obtain ⟨top, isTop, underTop⟩ := exists_topmostBelow member different comparable
    exact outside top isTop (below_trans under underTop)
  · intro outside excluded isTop
    exact outside excluded (mem_topmostBelow.mp isTop).1.1

/-- Classes for concrete cases. -/
def throwables : Shared Hierarchy where
  identity := 0
  value := Hierarchy.empty
    |>.append "Throwable" none
    |>.append "Exception" (some ⟨0⟩)
    |>.append "IOException" (some ⟨1⟩)
    |>.append "SQLException" (some ⟨1⟩)

end Hierarchy

namespace Constraint

open Hierarchy (throwables)

variable {first second constraint caught result : Constraint} {identifier : ClassId}

/-- The upper class itself is possible. -/
def Satisfiable (constraint : Constraint) : Prop := constraint.Admits constraint.upper

instance (constraint : Constraint) : Decidable constraint.Satisfiable :=
  inferInstanceAs (Decidable (constraint.Admits _))

theorem satisfiable_of_admits (admitted : constraint.Admits identifier) :
    constraint.Satisfiable := by
  refine ⟨Hierarchy.below_refl _ _, ?_⟩
  intro excluded member above
  exact admitted.2 excluded member (Hierarchy.below_trans admitted.1 above)

/-- The class is possible after an operation that may leave nothing. -/
def Leaves (result : Option Constraint) (identifier : ClassId) : Prop :=
  ∃ constraint ∈ result, constraint.Admits identifier

@[simp] theorem leaves_none : ¬ Leaves none identifier := by simp [Leaves]

@[simp] theorem leaves_some : Leaves (some result) identifier ↔ result.Admits identifier := by
  simp [Leaves]

/-! ## Rebuilding -/

theorem admits_rebound {upper : ClassId} {excluded : List ClassId}
    (upperOpen : ∀ other ∈ excluded, ¬ constraint.hierarchy.value.Below upper other) :
    (constraint.rebound upper excluded).Admits identifier ↔
      constraint.hierarchy.value.Below identifier upper ∧
        ∀ other ∈ excluded, ¬ constraint.hierarchy.value.Below identifier other := by
  simp only [Admits, rebound]
  constructor
  · rintro ⟨below, outside⟩
    exact ⟨below, (Hierarchy.not_below_topmostBelow_iff below upperOpen).mp outside⟩
  · rintro ⟨below, outside⟩
    exact ⟨below, (Hierarchy.not_below_topmostBelow_iff below upperOpen).mpr outside⟩

theorem leaves_rebound? {upper : ClassId} {excluded : List ClassId} :
    Leaves (constraint.rebound? upper excluded) identifier ↔
      constraint.hierarchy.value.Below identifier upper ∧
        ∀ other ∈ excluded, ¬ constraint.hierarchy.value.Below identifier other := by
  unfold rebound?
  split
  · next closed =>
      obtain ⟨other, member, above⟩ := closed
      simp only [leaves_none, false_iff, not_and]
      intro below outside
      exact outside other member (Hierarchy.below_trans below above)
  · next noneAbove =>
      rw [leaves_some]
      apply admits_rebound
      intro other member above
      exact noneAbove ⟨other, member, above⟩

theorem satisfiable_rebound {upper : ClassId} {excluded : List ClassId}
    (upperOpen : ∀ other ∈ excluded, ¬ constraint.hierarchy.value.Below upper other) :
    (constraint.rebound upper excluded).Satisfiable :=
  (admits_rebound upperOpen).mpr ⟨Hierarchy.below_refl _ _, upperOpen⟩

theorem eq_rebound_of_rebound? {upper : ClassId} {excluded : List ClassId}
    (made : constraint.rebound? upper excluded = some result) :
    (∀ other ∈ excluded, ¬ constraint.hierarchy.value.Below upper other) ∧
      result = constraint.rebound upper excluded := by
  unfold rebound? at made
  split at made
  · contradiction
  · next noneAbove =>
      refine ⟨?_, (Option.some.inj made).symm⟩
      intro other member above
      exact noneAbove ⟨other, member, above⟩

/-! ## Intersection -/

/-- Over one hierarchy, a meet is a rebuilt constraint below both upper classes,
or the two upper classes have no common subclass. -/
theorem meet_cases (same : first.hierarchy = second.hierarchy) :
    (∃ lower, first.hierarchy.value.Below lower first.upper ∧
        first.hierarchy.value.Below lower second.upper ∧
        (∀ identifier, first.hierarchy.value.Below identifier first.upper →
          first.hierarchy.value.Below identifier second.upper →
            first.hierarchy.value.Below identifier lower) ∧
        first.meet second = first.rebound? lower (first.excluded ++ second.excluded)) ∨
      (∀ identifier, ¬ (first.hierarchy.value.Below identifier first.upper ∧
        first.hierarchy.value.Below identifier second.upper)) ∧ first.meet second = none := by
  unfold meet
  rw [if_neg (not_not_intro same)]
  split
  · next under =>
      exact .inl ⟨first.upper, Hierarchy.below_refl _ _, under, fun _ below _ => below, rfl⟩
  · next notUnder =>
      split
      · next above =>
          exact .inl ⟨second.upper, above, Hierarchy.below_refl _ _, fun _ _ below => below, rfl⟩
      · next notAbove =>
          refine .inr ⟨?_, rfl⟩
          rintro identifier ⟨belowFirst, belowSecond⟩
          rcases Hierarchy.below_or_below belowFirst belowSecond with under | above
          · exact notUnder under
          · exact notAbove above

theorem leaves_meet (same : first.hierarchy = second.hierarchy) :
    Leaves (first.meet second) identifier ↔
      first.Admits identifier ∧ second.Admits identifier := by
  simp only [Admits, ← same]
  rcases meet_cases same with ⟨lower, lowerFirst, lowerSecond, greatest, meets⟩ | ⟨apart, meets⟩
  · rw [meets, leaves_rebound?]
    simp only [List.mem_append]
    constructor
    · rintro ⟨below, outside⟩
      exact ⟨⟨Hierarchy.below_trans below lowerFirst, fun other member => outside other (.inl member)⟩,
        ⟨Hierarchy.below_trans below lowerSecond, fun other member => outside other (.inr member)⟩⟩
    · rintro ⟨⟨belowFirst, outsideFirst⟩, ⟨belowSecond, outsideSecond⟩⟩
      refine ⟨greatest identifier belowFirst belowSecond, ?_⟩
      intro other member
      exact member.elim (outsideFirst other) (outsideSecond other)
  · rw [meets]
    simp only [leaves_none, false_iff]
    rintro ⟨⟨belowFirst, _⟩, ⟨belowSecond, _⟩⟩
    exact apart identifier ⟨belowFirst, belowSecond⟩

theorem hierarchy_of_meet (made : first.meet second = some result) :
    result.hierarchy = first.hierarchy := by
  by_cases same : first.hierarchy = second.hierarchy
  · rcases meet_cases same with ⟨lower, _, _, _, meets⟩ | ⟨_, meets⟩
    · obtain ⟨_, rfl⟩ := eq_rebound_of_rebound? (meets ▸ made)
      rfl
    · rw [meets] at made
      contradiction
  · rw [meet, if_pos same] at made
    cases Option.some.inj made
    rfl

theorem satisfiable_of_meet (same : first.hierarchy = second.hierarchy)
    (made : first.meet second = some result) : result.Satisfiable := by
  rcases meet_cases same with ⟨lower, _, _, _, meets⟩ | ⟨_, meets⟩
  · obtain ⟨upperOpen, rfl⟩ := eq_rebound_of_rebound? (meets ▸ made)
    exact satisfiable_rebound upperOpen
  · rw [meets] at made
    contradiction

theorem admits_of_meet (same : first.hierarchy = second.hierarchy)
    (made : first.meet second = some result) :
    result.Admits identifier ↔ first.Admits identifier ∧ second.Admits identifier := by
  rw [← leaves_meet same, made, leaves_some]

theorem meet_eq_none_iff_disjoint (same : first.hierarchy = second.hierarchy) :
    first.meet second = none ↔
      ∀ identifier, ¬ (first.Admits identifier ∧ second.Admits identifier) := by
  constructor
  · intro nothing identifier both
    rw [← leaves_meet same, nothing] at both
    exact leaves_none both
  · intro disjoint
    cases made : first.meet second with
    | none => rfl
    | some result =>
        have satisfiable := satisfiable_of_meet same made
        exact absurd ((admits_of_meet same made).mp satisfiable) (disjoint result.upper)

theorem meet_instanceOf_eq_none_iff {hierarchy : Shared Hierarchy} {upper : ClassId}
    (same : constraint.hierarchy = hierarchy) :
    constraint.meet (.instanceOf hierarchy upper) = none ↔
      ∀ identifier, constraint.Admits identifier → ¬ hierarchy.value.Below identifier upper := by
  have sameHierarchy : constraint.hierarchy = (instanceOf hierarchy upper).hierarchy := same
  simp only [meet_eq_none_iff_disjoint sameHierarchy, admits_instanceOf, not_and]

/-! ## Removal of what was caught -/

/-- Over one hierarchy, exclusion finds everything caught, finds nothing caught,
or adds one excluded class.  The upper class stays open in the last case. -/
theorem exclude_cases (same : constraint.hierarchy = caught.hierarchy)
    (satisfiable : constraint.Satisfiable) :
    (constraint.hierarchy.value.Below constraint.upper caught.upper ∧
        constraint.exclude caught = none) ∨
      ((∀ identifier, constraint.Admits identifier →
          ¬ constraint.hierarchy.value.Below identifier caught.upper) ∧
        constraint.exclude caught = some constraint) ∨
      (∀ other ∈ constraint.excluded ++ [caught.upper],
          ¬ constraint.hierarchy.value.Below constraint.upper other) ∧
        constraint.exclude caught =
          some (constraint.rebound constraint.upper (constraint.excluded ++ [caught.upper])) := by
  unfold exclude
  rw [if_neg (not_not_intro same)]
  split
  · next covered => exact .inl ⟨covered, rfl⟩
  · next notCovered =>
      refine .inr ?_
      split
      · next unrelated =>
          refine .inl ⟨?_, rfl⟩
          intro identifier admitted below
          rcases Hierarchy.below_or_below admitted.1 below with covered | related
          · exact notCovered covered
          · exact unrelated related
      · split
        · next gone =>
            obtain ⟨other, member, above⟩ := gone
            refine .inl ⟨?_, rfl⟩
            intro identifier admitted below
            exact admitted.2 other member (Hierarchy.below_trans below above)
        · refine .inr ⟨?_, rfl⟩
          intro other member above
          rcases List.mem_append.mp member with member | isCaught
          · exact satisfiable.2 other member above
          · rw [List.mem_singleton] at isCaught
            exact notCovered (isCaught ▸ above)

theorem leaves_exclude (same : constraint.hierarchy = caught.hierarchy)
    (satisfiable : constraint.Satisfiable) :
    Leaves (constraint.exclude caught) identifier ↔
      constraint.Admits identifier ∧
        ¬ constraint.hierarchy.value.Below identifier caught.upper := by
  rcases exclude_cases same satisfiable with
    ⟨covered, excludes⟩ | ⟨untouched, excludes⟩ | ⟨upperOpen, excludes⟩
  · rw [excludes]
    simp only [leaves_none, false_iff, not_and, Classical.not_not]
    intro admitted
    exact Hierarchy.below_trans admitted.1 covered
  · rw [excludes, leaves_some]
    exact ⟨fun admitted => ⟨admitted, untouched identifier admitted⟩, And.left⟩
  · rw [excludes, leaves_some, admits_rebound upperOpen]
    simp only [List.mem_append, List.mem_singleton, Admits]
    constructor
    · rintro ⟨below, outside⟩
      exact ⟨⟨below, fun other member => outside other (.inl member)⟩,
        outside caught.upper (.inr rfl)⟩
    · rintro ⟨⟨below, outside⟩, notCaught⟩
      refine ⟨below, ?_⟩
      intro other member
      rcases member with member | rfl
      · exact outside other member
      · exact notCaught

theorem hierarchy_of_exclude (made : constraint.exclude caught = some result) :
    result.hierarchy = constraint.hierarchy := by
  unfold exclude at made
  split at made
  · cases Option.some.inj made
    rfl
  · split at made
    · contradiction
    · split at made
      · cases Option.some.inj made
        rfl
      · split at made <;> cases Option.some.inj made <;> rfl

theorem satisfiable_of_exclude (satisfiable : constraint.Satisfiable)
    (made : constraint.exclude caught = some result) : result.Satisfiable := by
  by_cases same : constraint.hierarchy = caught.hierarchy
  · rcases exclude_cases same satisfiable with
      ⟨_, excludes⟩ | ⟨_, excludes⟩ | ⟨upperOpen, excludes⟩
    · rw [excludes] at made
      contradiction
    · cases Option.some.inj (excludes.symm.trans made)
      exact satisfiable
    · cases Option.some.inj (excludes.symm.trans made)
      exact satisfiable_rebound upperOpen
  · rw [exclude, if_pos same] at made
    cases Option.some.inj made
    exact satisfiable

theorem admits_of_exclude (same : constraint.hierarchy = caught.hierarchy)
    (satisfiable : constraint.Satisfiable) (made : constraint.exclude caught = some result) :
    result.Admits identifier ↔
      constraint.Admits identifier ∧
        ¬ constraint.hierarchy.value.Below identifier caught.upper := by
  rw [← leaves_exclude same satisfiable, made, leaves_some]

theorem exclude_eq_none_iff (same : constraint.hierarchy = caught.hierarchy)
    (satisfiable : constraint.Satisfiable) :
    constraint.exclude caught = none ↔
      ∀ identifier, constraint.Admits identifier →
        constraint.hierarchy.value.Below identifier caught.upper := by
  constructor
  · intro nothing identifier admitted
    apply Decidable.byContradiction
    intro notCaught
    have left := (leaves_exclude same satisfiable).mpr ⟨admitted, notCaught⟩
    rw [nothing] at left
    exact leaves_none left
  · intro covered
    cases made : constraint.exclude caught with
    | none => rfl
    | some result =>
        have resultUpper := satisfiable_of_exclude satisfiable made
        obtain ⟨admitted, notCaught⟩ := (admits_of_exclude same satisfiable made).mp resultUpper
        exact absurd (covered result.upper admitted) notCaught

/-! ## Constraints that can be made -/

/-- The constraints that the operations of the library make. -/
inductive Formed : Constraint → Prop where
  | instanceOf (hierarchy : Shared Hierarchy) (upper : ClassId) :
      Formed (.instanceOf hierarchy upper)
  | named {hierarchy : Shared Hierarchy} {name : String} {result : Constraint} :
      named? hierarchy name = some result → Formed result
  | meet {first second result : Constraint} :
      Formed first → Formed second → first.meet second = some result → Formed result
  | exclude {constraint caught result : Constraint} :
      Formed constraint → Formed caught → constraint.exclude caught = some result → Formed result

theorem exists_instanceOf_of_named? {hierarchy : Shared Hierarchy} {name : String}
    (made : named? hierarchy name = some result) :
    ∃ upper, result = .instanceOf hierarchy upper := by
  obtain ⟨upper, _, isResult⟩ := Option.map_eq_some_iff.mp made
  exact ⟨upper, isResult.symm⟩

/-- The excluded classes are the topmost ones of some list that leaves the upper
class open. -/
def Rebuilt (constraint : Constraint) : Prop :=
  ∃ classes, (∀ other ∈ classes, ¬ constraint.hierarchy.value.Below constraint.upper other) ∧
    constraint.excluded = constraint.hierarchy.value.topmostBelow constraint.upper classes

theorem rebuilt_instanceOf (hierarchy : Shared Hierarchy) (upper : ClassId) :
    (instanceOf hierarchy upper).Rebuilt :=
  ⟨[], nofun, rfl⟩

theorem rebuilt_rebound {upper : ClassId} {excluded : List ClassId}
    (upperOpen : ∀ other ∈ excluded, ¬ constraint.hierarchy.value.Below upper other) :
    (constraint.rebound upper excluded).Rebuilt :=
  ⟨excluded, upperOpen, rfl⟩

theorem Rebuilt.satisfiable (rebuilt : constraint.Rebuilt) : constraint.Satisfiable := by
  obtain ⟨classes, upperOpen, isExcluded⟩ := rebuilt
  refine ⟨Hierarchy.below_refl _ _, ?_⟩
  intro excluded member
  rw [isExcluded] at member
  exact upperOpen excluded (Hierarchy.mem_topmostBelow.mp member).1.1

/-- Over one hierarchy a meet is rebuilt, whatever it was made of. -/
theorem rebuilt_of_common_meet (same : first.hierarchy = second.hierarchy)
    (made : first.meet second = some result) : result.Rebuilt := by
  rcases meet_cases same with ⟨lower, _, _, _, meets⟩ | ⟨_, meets⟩
  · obtain ⟨upperOpen, rfl⟩ := eq_rebound_of_rebound? (meets ▸ made)
    exact rebuilt_rebound upperOpen
  · rw [meets] at made
    contradiction

theorem rebuilt_of_meet (rebuilt : first.Rebuilt) (made : first.meet second = some result) :
    result.Rebuilt := by
  by_cases same : first.hierarchy = second.hierarchy
  · exact rebuilt_of_common_meet same made
  · rw [meet, if_pos same] at made
    exact Option.some.inj made ▸ rebuilt

theorem rebuilt_of_exclude (rebuilt : constraint.Rebuilt)
    (made : constraint.exclude caught = some result) : result.Rebuilt := by
  by_cases same : constraint.hierarchy = caught.hierarchy
  · rcases exclude_cases same rebuilt.satisfiable with
      ⟨_, excludes⟩ | ⟨_, excludes⟩ | ⟨upperOpen, excludes⟩
    · rw [excludes] at made
      contradiction
    · cases Option.some.inj (excludes.symm.trans made)
      exact rebuilt
    · cases Option.some.inj (excludes.symm.trans made)
      exact rebuilt_rebound upperOpen
  · rw [exclude, if_pos same] at made
    exact Option.some.inj made ▸ rebuilt

theorem Formed.rebuilt (formed : constraint.Formed) : constraint.Rebuilt := by
  induction formed with
  | instanceOf hierarchy upper => exact rebuilt_instanceOf hierarchy upper
  | named made =>
      obtain ⟨upper, rfl⟩ := exists_instanceOf_of_named? made
      exact rebuilt_instanceOf _ upper
  | meet _ _ made rebuilt _ => exact rebuilt_of_meet rebuilt made
  | exclude _ _ made rebuilt _ => exact rebuilt_of_exclude rebuilt made

theorem Formed.satisfiable (formed : constraint.Formed) : constraint.Satisfiable :=
  formed.rebuilt.satisfiable

theorem Formed.below_of_mem_excluded (formed : constraint.Formed) :
    ∀ excluded ∈ constraint.excluded,
      constraint.hierarchy.value.Below excluded constraint.upper := by
  obtain ⟨classes, _, isExcluded⟩ := formed.rebuilt
  intro excluded member
  rw [isExcluded] at member
  exact (Hierarchy.mem_topmostBelow.mp member).1.2.2

/-! ## The contract of exclusion -/

/-- What was caught may be taken away, and nothing else may be lost: no answer
only if everything was caught, and an answer only if it still admits whatever
was not. -/
def KeepsUncaught (constraint caught : Constraint) : Option Constraint → Prop
  | none => ∀ identifier, constraint.Admits identifier → caught.Admits identifier
  | some rest => ∀ identifier, constraint.Admits identifier → ¬ caught.Admits identifier →
      rest.Admits identifier

theorem keepsUncaught_iff {rest : Option Constraint} :
    KeepsUncaught constraint caught rest ↔
      ∀ identifier, constraint.Admits identifier → ¬ caught.Admits identifier →
        Leaves rest identifier := by
  cases rest with
  | none => simp only [KeepsUncaught, leaves_none, imp_false, Classical.not_not]
  | some rest => simp only [KeepsUncaught, leaves_some]

/-- Exclusion keeps its contract exactly where the caught constraint excludes
nothing that the other one admits.  Elsewhere it takes away too much, since it
looks at the upper class of what was caught alone. -/
theorem exclude_keepsUncaught_iff (formed : constraint.Formed) (caughtFormed : caught.Formed)
    (same : constraint.hierarchy = caught.hierarchy) :
    KeepsUncaught constraint caught (constraint.exclude caught) ↔
      ∀ excluded ∈ caught.excluded,
        constraint.meet (.instanceOf caught.hierarchy excluded) = none := by
  rw [keepsUncaught_iff]
  simp only [leaves_exclude same formed.satisfiable]
  constructor
  · intro keeps excluded member
    apply (meet_instanceOf_eq_none_iff same).mpr
    intro identifier admitted underExcluded
    have notCaught : ¬ caught.Admits identifier := fun caughtAdmits =>
      caughtAdmits.2 excluded member underExcluded
    have underUpper := Hierarchy.below_trans underExcluded
      (caughtFormed.below_of_mem_excluded excluded member)
    exact (keeps identifier admitted notCaught).2 (same ▸ underUpper)
  · intro disjoint identifier admitted notCaught
    refine ⟨admitted, ?_⟩
    intro underUpper
    apply notCaught
    refine ⟨same ▸ underUpper, ?_⟩
    intro excluded member underExcluded
    have apart := (meet_instanceOf_eq_none_iff same).mp (disjoint excluded member)
    exact apart identifier admitted underExcluded

/-- Catching every exception but the input-output ones takes away exactly the
thrown ones of another kind. -/
theorem exclude_keepsUncaught_sql :
    let thrown := instanceOf throwables ⟨3⟩
    let caught : Constraint := ⟨throwables, ⟨1⟩, [⟨2⟩]⟩
    (instanceOf throwables ⟨1⟩).exclude (instanceOf throwables ⟨2⟩) = some caught ∧
      KeepsUncaught thrown caught (thrown.exclude caught) := by
  have made : (instanceOf throwables ⟨1⟩).exclude (instanceOf throwables ⟨2⟩) =
      some ⟨throwables, ⟨1⟩, [⟨2⟩]⟩ := by decide
  have caughtFormed : Formed ⟨throwables, ⟨1⟩, [⟨2⟩]⟩ :=
    .exclude (.instanceOf throwables ⟨1⟩) (.instanceOf throwables ⟨2⟩) made
  refine ⟨made, ?_⟩
  exact (exclude_keepsUncaught_iff (.instanceOf throwables ⟨3⟩) caughtFormed rfl).mpr (by decide)

/-- A thrown input-output exception is lost to the same constraint, which does
not admit it. -/
theorem exclude_loses_io :
    let thrown := instanceOf throwables ⟨2⟩
    let caught : Constraint := ⟨throwables, ⟨1⟩, [⟨2⟩]⟩
    (instanceOf throwables ⟨1⟩).exclude (instanceOf throwables ⟨2⟩) = some caught ∧
      thrown.exclude caught = none ∧ thrown.Admits ⟨2⟩ ∧ ¬ caught.Admits ⟨2⟩ ∧
      ¬ KeepsUncaught thrown caught (thrown.exclude caught) := by
  intro thrown caught
  have gone : thrown.exclude caught = none := by decide
  have admitted : thrown.Admits ⟨2⟩ := by decide
  have notCaught : ¬ caught.Admits ⟨2⟩ := by decide
  refine ⟨by decide, gone, admitted, notCaught, ?_⟩
  rw [gone]
  intro keeps
  exact notCaught (keeps ⟨2⟩ admitted)

end Constraint

end Unwind
