import Unwind.IndexSet

/-!
# Class hierarchies

A single-inheritance hierarchy of exception classes.  A class is known by the
position at which it was added, and a parent is always added before its
children.  A class identifier is therefore a plain index, which may also be put
to a hierarchy that never issued it.  Names are looked up in an index of their
own, which grows together with the classes.  A hierarchy that holds `maxClasses`
of them takes no new name.

`lineage` lists a class and all its superclasses, nearest first, and `Below`
reads the subclass relation off that list.  It is a partial order on all
identifiers, and the superclasses of one class form a chain.
-/

set_option autoImplicit false

namespace Unwind

structure ClassId where
  index : Nat
deriving DecidableEq

instance : Indexed ClassId where
  indexOf := ClassId.index
  eq_of_indexOf_eq same := congrArg ClassId.mk same

structure ClassEntry where
  name : String
  parent : Option ClassId
deriving DecidableEq

/-- No identifier is left for another class. -/
structure ClassLimit where
  limit : Nat
deriving DecidableEq

def ClassLimit.message (full : ClassLimit) : String :=
  "Class hierarchy cannot hold more than " ++ toString full.limit ++ " classes"

structure Hierarchy where
  classes : List ClassEntry
  byName : List (String × ClassId)
  parent_earlier : ∀ {child parent : ClassId},
    classes[child.index]?.bind ClassEntry.parent = some parent → parent.index < child.index
deriving DecidableEq

namespace Hierarchy

def empty : Hierarchy where
  classes := []
  byName := []
  parent_earlier := by simp

def size (hierarchy : Hierarchy) : Nat := hierarchy.classes.length

def lookup (hierarchy : Hierarchy) (name : String) : Option ClassId :=
  (hierarchy.byName.find? (·.1 = name)).map Prod.snd

def name? (hierarchy : Hierarchy) (identifier : ClassId) : Option String :=
  hierarchy.classes[identifier.index]?.map ClassEntry.name

def parent? (hierarchy : Hierarchy) (identifier : ClassId) : Option ClassId :=
  hierarchy.classes[identifier.index]?.bind ClassEntry.parent

theorem parent?_lt {hierarchy : Hierarchy} {child parent : ClassId}
    (isParent : hierarchy.parent? child = some parent) : parent.index < child.index :=
  hierarchy.parent_earlier isParent

/-- Appends a class.  A parent that is not among the classes already present is
not recorded, and the class becomes a root. -/
def append (hierarchy : Hierarchy) (name : String) (parent : Option ClassId) : Hierarchy where
  classes := hierarchy.classes ++ [⟨name, parent.filter (·.index < hierarchy.size)⟩]
  byName := (name, ⟨hierarchy.size⟩) :: hierarchy.byName
  parent_earlier := by
    intro child ancestor recorded
    by_cases earlier : child.index < hierarchy.size
    · rw [List.getElem?_append_left earlier] at recorded
      exact hierarchy.parent_earlier recorded
    · rw [List.getElem?_append_right (Nat.le_of_not_lt earlier)] at recorded
      obtain ⟨entry, found, isParent⟩ := Option.bind_eq_some_iff.mp recorded
      cases List.mem_singleton.mp (List.mem_of_getElem? found)
      simp only [Option.filter_eq_some_iff, decide_eq_true_eq] at isParent
      omega

def maxClasses : Nat := UInt32.size - 1

/-- Adds a class and answers its identifier.  A name that is present already
keeps its identifier and its parent, also in a hierarchy that is full. -/
def add (hierarchy : Hierarchy) (name : String) (parent : Option ClassId) :
    Except ClassLimit (ClassId × Hierarchy) :=
  match hierarchy.lookup name with
  | some known => .ok (known, hierarchy)
  | none =>
      if hierarchy.size < maxClasses then
        .ok (⟨hierarchy.size⟩, hierarchy.append name parent)
      else .error ⟨maxClasses⟩

def lineageWithin (hierarchy : Hierarchy) : Nat → ClassId → List ClassId
  | 0, identifier => [identifier]
  | steps + 1, identifier =>
      identifier ::
        match hierarchy.parent? identifier with
        | none => []
        | some parent => hierarchy.lineageWithin steps parent

/-- The class itself, then its superclasses from the nearest to the root. -/
def lineage (hierarchy : Hierarchy) (identifier : ClassId) : List ClassId :=
  -- the index falls from child to parent, so the walk has at most this many steps
  hierarchy.lineageWithin identifier.index identifier

theorem lineageWithin_of_le (hierarchy : Hierarchy) :
    ∀ {steps : Nat} {identifier : ClassId}, identifier.index ≤ steps →
      hierarchy.lineageWithin steps identifier = hierarchy.lineage identifier := by
  intro steps
  induction steps using Nat.strongRecOn with
  | ind steps induction =>
      intro ⟨index⟩ enough
      cases index with
      | zero =>
          cases steps with
          | zero => rfl
          | succ steps =>
              cases isParent : hierarchy.parent? ⟨0⟩ with
              | none => simp [lineage, lineageWithin, isParent]
              | some parent => exact absurd (parent?_lt isParent) (Nat.not_lt_zero _)
      | succ index =>
          obtain ⟨steps, rfl⟩ : ∃ fewer, steps = fewer + 1 := ⟨steps - 1, by simp only at enough; omega⟩
          cases isParent : hierarchy.parent? ⟨index + 1⟩ with
          | none => simp [lineage, lineageWithin, isParent]
          | some parent =>
              have earlier := parent?_lt isParent
              simp only at enough earlier
              simp only [lineage, lineageWithin, isParent]
              rw [induction steps (by omega) (by omega), induction index (by omega) (by omega)]

theorem lineage_eq (hierarchy : Hierarchy) (identifier : ClassId) :
    hierarchy.lineage identifier =
      identifier ::
        match hierarchy.parent? identifier with
        | none => []
        | some parent => hierarchy.lineage parent := by
  rw [← hierarchy.lineageWithin_of_le (Nat.le_succ identifier.index), lineageWithin]
  cases isParent : hierarchy.parent? identifier with
  | none => rfl
  | some parent =>
      exact congrArg (identifier :: ·)
        (hierarchy.lineageWithin_of_le (Nat.le_of_lt (parent?_lt isParent)))

/-- A class is below itself and below each of its superclasses. -/
def Below (hierarchy : Hierarchy) (sub sup : ClassId) : Prop :=
  sup ∈ hierarchy.lineage sub

instance (hierarchy : Hierarchy) (sub sup : ClassId) : Decidable (hierarchy.Below sub sup) :=
  inferInstanceAs (Decidable (sup ∈ hierarchy.lineage sub))

theorem below_iff {hierarchy : Hierarchy} {sub sup : ClassId} :
    hierarchy.Below sub sup ↔
      sup = sub ∨ ∃ parent, hierarchy.parent? sub = some parent ∧ hierarchy.Below parent sup := by
  simp only [Below]
  rw [lineage_eq]
  cases hierarchy.parent? sub <;> simp

theorem below_refl (hierarchy : Hierarchy) (identifier : ClassId) :
    hierarchy.Below identifier identifier :=
  below_iff.mpr (.inl rfl)

theorem below_of_parent? {hierarchy : Hierarchy} {child parent sup : ClassId}
    (isParent : hierarchy.parent? child = some parent) (above : hierarchy.Below parent sup) :
    hierarchy.Below child sup :=
  below_iff.mpr (.inr ⟨parent, isParent, above⟩)

/-- Follows the walk from a class to one of its superclasses, one parent at a time. -/
theorem below_induction {hierarchy : Hierarchy} {sup : ClassId} {motive : ClassId → Prop}
    (self : motive sup)
    (step : ∀ child parent, hierarchy.parent? child = some parent →
      hierarchy.Below parent sup → motive parent → motive child) :
    ∀ {sub : ClassId}, hierarchy.Below sub sup → motive sub := by
  intro ⟨index⟩
  induction index using Nat.strongRecOn with
  | ind index induction =>
      intro below
      rcases below_iff.mp below with rfl | ⟨parent, isParent, above⟩
      · exact self
      · exact step _ parent isParent above (induction parent.index (parent?_lt isParent) above)

theorem le_of_below {hierarchy : Hierarchy} {sub sup : ClassId}
    (below : hierarchy.Below sub sup) : sup.index ≤ sub.index := by
  refine below_induction (motive := fun sub => sup.index ≤ sub.index) (Nat.le_refl _) ?_ below
  intro child parent isParent _ bound
  have earlier := parent?_lt isParent
  omega

theorem below_trans {hierarchy : Hierarchy} {first second third : ClassId}
    (lower : hierarchy.Below first second) (upper : hierarchy.Below second third) :
    hierarchy.Below first third :=
  below_induction (motive := fun sub => hierarchy.Below sub third) upper
    (fun _ _ isParent _ above => below_of_parent? isParent above) lower

theorem below_antisymm {hierarchy : Hierarchy} {first second : ClassId}
    (forth : hierarchy.Below first second) (back : hierarchy.Below second first) :
    first = second :=
  Indexed.eq_of_indexOf_eq (Nat.le_antisymm (le_of_below back) (le_of_below forth))

/-- Single inheritance: two superclasses of one class are comparable. -/
theorem below_or_below {hierarchy : Hierarchy} {sub first second : ClassId}
    (belowFirst : hierarchy.Below sub first) (belowSecond : hierarchy.Below sub second) :
    hierarchy.Below first second ∨ hierarchy.Below second first := by
  refine below_induction
    (motive := fun sub => hierarchy.Below sub second →
      hierarchy.Below first second ∨ hierarchy.Below second first)
    .inl ?_ belowFirst belowSecond
  intro child parent isParent below induction childBelow
  rcases below_iff.mp childBelow with rfl | ⟨other, otherParent, otherBelow⟩
  · exact .inr (below_of_parent? isParent below)
  · obtain rfl : parent = other := Option.some.inj (isParent.symm.trans otherParent)
    exact induction otherBelow

end Hierarchy

end Unwind
