import Unwind.Hierarchy

/-!
# Hierarchies under construction

A hierarchy is built from nothing by declaring one class after the other.  A name
may be declared again, and the parent that is given may be any identifier, also
one that another hierarchy has issued.  A new name that finds the hierarchy full is
refused, and the hierarchy stays as it is.

What one more class changes is said once for each question that can be put to a
hierarchy: its name is found, its identifier answers, and the walks from all other
classes stay as they were.  The index of names and the list of classes therefore
remain inverse to each other, and the classes remain a forest.
-/

set_option autoImplicit false

namespace Unwind

namespace Hierarchy

/-- A class to be added, with the parent that is given for it.  A root has none. -/
structure Declaration where
  name : String
  parent : Option ClassId
deriving DecidableEq

/-- The hierarchy after the declaration, which may have been refused. -/
def declare (hierarchy : Hierarchy) (declaration : Declaration) : Hierarchy :=
  match hierarchy.add declaration.name declaration.parent with
  | .ok added => added.2
  | .error _ => hierarchy

def declareAll (hierarchy : Hierarchy) (declarations : List Declaration) : Hierarchy :=
  declarations.foldl declare hierarchy

/-- Walks from a class over its parents in search of another class.  There is no
answer if the walk is longer than the bound. -/
def search (hierarchy : Hierarchy) (sup : ClassId) : Nat → Option ClassId → Option Bool
  | 0, _ => none
  | _ + 1, none => some false
  | steps + 1, some identifier =>
      if identifier = sup then some true
      else hierarchy.search sup steps (hierarchy.parent? identifier)

variable {hierarchy : Hierarchy} {name : String} {parent : Option ClassId}
  {identifier sub sup : ClassId}

/-! ## Walks -/

/-- The index falls from child to parent, so the walk ends, and it finds exactly
the superclasses. -/
theorem search_eq_below :
    ∀ {steps : Nat} {sub : ClassId}, sub.index + 1 < steps →
      hierarchy.search sup steps (some sub) = some (decide (hierarchy.Below sub sup)) := by
  intro steps
  induction steps with
  | zero =>
      intro sub enough
      omega
  | succ steps induction =>
      intro sub enough
      rw [search]
      by_cases found : sub = sup
      · subst found
        simp [below_refl]
      · rw [if_neg found]
        cases isParent : hierarchy.parent? sub with
        | none =>
            have unrelated : ¬ hierarchy.Below sub sup := by
              rw [below_iff]
              simp [isParent, Ne.symm found]
            obtain ⟨fewer, rfl⟩ : ∃ fewer, steps = fewer + 1 := ⟨steps - 1, by omega⟩
            simp [search, unrelated]
        | some above =>
            have earlier := parent?_lt isParent
            have same : hierarchy.Below sub sup ↔ hierarchy.Below above sup := by
              rw [below_iff]
              simp [isParent, Ne.symm found]
            rw [induction (by omega)]
            simp only [same]

/-! ## One more class -/

theorem getElem?_classes_append :
    (hierarchy.append name parent).classes[identifier.index]? =
      if identifier = ⟨hierarchy.size⟩ then
        some ⟨name, parent.filter (·.index < hierarchy.size)⟩
      else hierarchy.classes[identifier.index]? := by
  obtain ⟨index⟩ := identifier
  simp only [append, size, ClassId.mk.injEq, List.getElem?_append]
  split
  · next earlier => rw [if_neg (Nat.ne_of_lt earlier)]
  · next later =>
      by_cases isNew : index = hierarchy.classes.length
      · simp [isNew]
      · rw [if_neg isNew, List.getElem?_eq_none (Nat.le_of_not_lt later), List.getElem?_eq_none]
        simp only [List.length_singleton]
        omega

theorem name?_append :
    (hierarchy.append name parent).name? identifier =
      if identifier = ⟨hierarchy.size⟩ then some name else hierarchy.name? identifier := by
  rw [name?, getElem?_classes_append]
  split <;> rfl

theorem parent?_append :
    (hierarchy.append name parent).parent? identifier =
      if identifier = ⟨hierarchy.size⟩ then parent.filter (·.index < hierarchy.size)
      else hierarchy.parent? identifier := by
  rw [parent?, getElem?_classes_append]
  split <;> rfl

theorem lookup_append {wanted : String} :
    (hierarchy.append name parent).lookup wanted =
      if wanted = name then some ⟨hierarchy.size⟩ else hierarchy.lookup wanted := by
  by_cases same : wanted = name
  · simp [lookup, append, same]
  · simp [lookup, append, same, Ne.symm same]

theorem size_append : (hierarchy.append name parent).size = hierarchy.size + 1 := by
  simp [size, append]

theorem ne_size_of_lt (known : identifier.index < hierarchy.size) :
    identifier ≠ ⟨hierarchy.size⟩ := by
  rintro rfl
  exact Nat.lt_irrefl _ known

theorem name?_size : hierarchy.name? ⟨hierarchy.size⟩ = none := by
  simp [name?, size]

/-- The walk from a class that was there before does not meet the new one. -/
theorem below_append (known : sub.index < hierarchy.size) :
    (hierarchy.append name parent).Below sub sup ↔ hierarchy.Below sub sup := by
  obtain ⟨index⟩ := sub
  induction index using Nat.strongRecOn with
  | ind index induction =>
      refine below_iff.trans (Iff.trans (or_congr_right ?_) below_iff.symm)
      rw [parent?_append, if_neg (ne_size_of_lt known)]
      refine exists_congr fun above => and_congr_right fun isParent => ?_
      have earlier := parent?_lt isParent
      exact induction above.index earlier (Nat.lt_trans earlier known)

/-! ## Names -/

/-- The index of names is inverse to the list of classes. -/
def NamesAgree (hierarchy : Hierarchy) : Prop :=
  ∀ name identifier,
    hierarchy.lookup name = some identifier ↔ hierarchy.name? identifier = some name

theorem namesAgree_empty : empty.NamesAgree := by
  intro name identifier
  simp [lookup, name?, empty]

theorem NamesAgree.append (agree : hierarchy.NamesAgree) (fresh : hierarchy.lookup name = none) :
    (hierarchy.append name parent).NamesAgree := by
  intro wanted identifier
  rw [lookup_append, name?_append]
  by_cases isName : wanted = name <;> by_cases isNew : identifier = ⟨hierarchy.size⟩
  · simp [isName, isNew]
  · have unnamed : hierarchy.name? identifier ≠ some name := by
      rw [Ne, ← agree, fresh]
      nofun
    simp [isName, isNew, Ne.symm isNew, unnamed]
  · have unindexed : hierarchy.lookup wanted ≠ some ⟨hierarchy.size⟩ := by
      rw [Ne, agree, name?_size]
      nofun
    simp [isName, Ne.symm isName, isNew, unindexed]
  · simpa only [isName, isNew, if_false] using agree wanted identifier

theorem NamesAgree.unique {other : ClassId} (agree : hierarchy.NamesAgree)
    (named : hierarchy.name? identifier = some name)
    (otherNamed : hierarchy.name? other = some name) : identifier = other := by
  rw [← agree] at named otherNamed
  exact Option.some.inj (named.symm.trans otherNamed)

/-! ## One declaration -/

theorem add_of_known (known : hierarchy.lookup name = some identifier) :
    hierarchy.add name parent = .ok (identifier, hierarchy) := by
  rw [add, known]

theorem add_of_fresh (fresh : hierarchy.lookup name = none) (room : hierarchy.size < maxClasses) :
    hierarchy.add name parent = .ok (⟨hierarchy.size⟩, hierarchy.append name parent) := by
  simp only [add, fresh, if_pos room]

theorem add_of_full (fresh : hierarchy.lookup name = none) (full : maxClasses ≤ hierarchy.size) :
    hierarchy.add name parent = .error ⟨maxClasses⟩ := by
  simp only [add, fresh, if_neg (Nat.not_lt_of_le full)]

theorem NamesAgree.lookup_eq_none (agree : hierarchy.NamesAgree)
    (unnamed : ∀ identifier, hierarchy.name? identifier ≠ some name) :
    hierarchy.lookup name = none := by
  rw [Option.eq_none_iff_forall_not_mem]
  intro identifier found
  exact unnamed identifier ((agree name identifier).mp found)

/-- A declaration changes nothing, or adds a class under a name that is not there
and while there is room. -/
theorem declare_cases (hierarchy : Hierarchy) (declaration : Declaration) :
    hierarchy.declare declaration = hierarchy ∨
      hierarchy.lookup declaration.name = none ∧ hierarchy.size < maxClasses ∧
        hierarchy.declare declaration = hierarchy.append declaration.name declaration.parent := by
  cases found : hierarchy.lookup declaration.name with
  | some known => exact .inl (by rw [declare, add_of_known found])
  | none =>
      by_cases room : hierarchy.size < maxClasses
      · exact .inr ⟨rfl, room, by rw [declare, add_of_fresh found room]⟩
      · exact .inl (by rw [declare, add_of_full found (Nat.le_of_not_lt room)])

/-- Follows the declarations that add a class. -/
theorem declareAll_induction {motive : Hierarchy → Prop} (start : motive hierarchy)
    (grow : ∀ current name parent, current.lookup name = none → current.size < maxClasses →
      motive current → motive (current.append name parent)) (declarations : List Declaration) :
    motive (hierarchy.declareAll declarations) := by
  refine List.foldlRecOn declarations declare start ?_
  intro current holds declaration _
  rcases current.declare_cases declaration with same | ⟨fresh, room, grows⟩
  · rwa [same]
  · rw [grows]
    exact grow current _ _ fresh room holds

/-! ## Whole constructions -/

theorem namesAgree_declareAll (declarations : List Declaration) :
    (empty.declareAll declarations).NamesAgree :=
  declareAll_induction namesAgree_empty (fun _ _ _ fresh _ agree => agree.append fresh) declarations

theorem size_declareAll_le (declarations : List Declaration) :
    (empty.declareAll declarations).size ≤ maxClasses := by
  refine declareAll_induction (motive := fun current => current.size ≤ maxClasses)
    (Nat.zero_le _) ?_ declarations
  intro current name parent _ room _
  rw [size_append]
  exact room

/-- The classes of the first hierarchy answer in the second as they did. -/
structure Extends (before after : Hierarchy) : Prop where
  size : before.size ≤ after.size
  names : ∀ identifier, identifier.index < before.size →
    after.name? identifier = before.name? identifier
  parents : ∀ identifier, identifier.index < before.size →
    after.parent? identifier = before.parent? identifier
  below : ∀ sub sup, sub.index < before.size → (after.Below sub sup ↔ before.Below sub sup)

theorem Extends.refl (hierarchy : Hierarchy) : hierarchy.Extends hierarchy :=
  ⟨Nat.le_refl _, fun _ _ => rfl, fun _ _ => rfl, fun _ _ _ => Iff.rfl⟩

theorem Extends.append {before : Hierarchy} (extension : before.Extends hierarchy) :
    before.Extends (hierarchy.append name parent) := by
  have known : ∀ {identifier : ClassId}, identifier.index < before.size →
      identifier.index < hierarchy.size := fun earlier => Nat.lt_of_lt_of_le earlier extension.size
  refine ⟨?_, ?_, ?_, ?_⟩
  · rw [size_append]
    exact Nat.le_succ_of_le extension.size
  · intro identifier earlier
    rw [name?_append, if_neg (ne_size_of_lt (known earlier)), extension.names identifier earlier]
  · intro identifier earlier
    rw [parent?_append, if_neg (ne_size_of_lt (known earlier)),
      extension.parents identifier earlier]
  · intro sub sup earlier
    rw [below_append (known earlier), extension.below sub sup earlier]

theorem extends_declareAll (hierarchy : Hierarchy) (declarations : List Declaration) :
    hierarchy.Extends (hierarchy.declareAll declarations) :=
  declareAll_induction (.refl hierarchy) (fun _ _ _ _ _ => Extends.append) declarations

/-- Parents come before their children, every walk over parents ends, and what it
finds is a partial order in which the superclasses of one class form a chain. -/
structure IsForest (hierarchy : Hierarchy) : Prop where
  parent_lt : ∀ child parent, hierarchy.parent? child = some parent → parent.index < child.index
  walk_ends : ∀ sub sup steps, sub.index + 1 < steps →
    hierarchy.search sup steps (some sub) = some (decide (hierarchy.Below sub sup))
  refl : ∀ identifier, hierarchy.Below identifier identifier
  trans : ∀ first second third, hierarchy.Below first second → hierarchy.Below second third →
    hierarchy.Below first third
  antisymm : ∀ first second, hierarchy.Below first second → hierarchy.Below second first →
    first = second
  chain : ∀ sub first second, hierarchy.Below sub first → hierarchy.Below sub second →
    hierarchy.Below first second ∨ hierarchy.Below second first

theorem isForest (hierarchy : Hierarchy) : hierarchy.IsForest where
  parent_lt _ _ := parent?_lt
  walk_ends _ _ _ := search_eq_below
  refl := below_refl hierarchy
  trans _ _ _ := below_trans
  antisymm _ _ := below_antisymm
  chain _ _ _ := below_or_below

/-- Whatever is declared, the classes form a forest and each name belongs to one
class.  To declare a name again changes nothing; a new name gets the next
identifier, and keeps the parent that is given for it if that is a class already.
Only a new name can be refused, and only once there are as many classes as
identifiers.  What has been answered about a class is answered after all later
declarations. -/
theorem declarations_grow_forest (declarations : List Declaration) :
    let hierarchy := empty.declareAll declarations
    hierarchy.IsForest ∧
      (∀ name identifier,
        hierarchy.lookup name = some identifier ↔ hierarchy.name? identifier = some name) ∧
      (∀ name first second, hierarchy.name? first = some name →
        hierarchy.name? second = some name → first = second) ∧
      (∀ name identifier parent, hierarchy.name? identifier = some name →
        hierarchy.add name parent = .ok (identifier, hierarchy)) ∧
      (∀ name parent, (∀ identifier, hierarchy.name? identifier ≠ some name) →
        (hierarchy.size < maxClasses →
          ∃ grown, hierarchy.add name parent = .ok (⟨hierarchy.size⟩, grown) ∧
            grown.name? ⟨hierarchy.size⟩ = some name ∧
            grown.parent? ⟨hierarchy.size⟩ = parent.filter (·.index < hierarchy.size)) ∧
        (hierarchy.size = maxClasses → hierarchy.add name parent = .error ⟨maxClasses⟩)) ∧
      hierarchy.size ≤ maxClasses ∧
      ∀ later, hierarchy.Extends (hierarchy.declareAll later) := by
  intro hierarchy
  have agree : hierarchy.NamesAgree := namesAgree_declareAll declarations
  refine ⟨hierarchy.isForest, agree, ?_, ?_, ?_, size_declareAll_le declarations,
    hierarchy.extends_declareAll⟩
  · intro name first second named otherNamed
    exact agree.unique named otherNamed
  · intro name identifier parent named
    exact add_of_known ((agree name identifier).mpr named)
  · intro name parent unnamed
    have unknown := agree.lookup_eq_none unnamed
    refine ⟨?_, fun full => add_of_full unknown (Nat.le_of_eq full.symm)⟩
    intro room
    refine ⟨_, add_of_fresh unknown room, ?_, ?_⟩
    · rw [name?_append, if_pos rfl]
    · rw [parent?_append, if_pos rfl]

-- A parent from elsewhere is dropped, and a second declaration does not bring one.
example :
    let hierarchy := empty.declareAll
      [⟨"Throwable", none⟩, ⟨"Exception", some ⟨7⟩⟩, ⟨"Exception", some ⟨0⟩⟩]
    hierarchy.size = 2 ∧ hierarchy.parent? ⟨1⟩ = none ∧ ¬ hierarchy.Below ⟨1⟩ ⟨0⟩ := by
  decide

end Hierarchy

end Unwind
