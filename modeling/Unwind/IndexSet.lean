/-!
# Finite sets of indexed values

Values that are known by a number are listed in the order of their numbers.  A
set of them is kept as its strictly ascending list, so two sets with the same
members are equal and listing a set needs no further sorting.
`mem_insertAscending` and `ordered_insertAscending` describe the one operation
that everything else is built from.
-/

set_option autoImplicit false

namespace Unwind

/-- Values that are told apart by a natural number. -/
class Indexed (α : Type) where
  indexOf : α → Nat
  eq_of_indexOf_eq : ∀ {first second : α}, indexOf first = indexOf second → first = second

section Ascending

variable {α : Type} [Indexed α]

def Ascending (values : List α) : Prop :=
  values.Pairwise fun first second => Indexed.indexOf first < Indexed.indexOf second

/-- Adds a value to an ascending list, unless it is there already. -/
def insertAscending (value : α) : List α → List α
  | [] => [value]
  | head :: tail =>
      if Indexed.indexOf value < Indexed.indexOf head then value :: head :: tail
      else if Indexed.indexOf value = Indexed.indexOf head then head :: tail
      else head :: insertAscending value tail

theorem mem_insertAscending {value wanted : α} {values : List α} :
    wanted ∈ insertAscending value values ↔ wanted = value ∨ wanted ∈ values := by
  induction values with
  | nil => simp [insertAscending]
  | cons head tail induction =>
      simp only [insertAscending]
      split
      · simp
      · split
        · next same => simp [Indexed.eq_of_indexOf_eq same]
        · simp only [List.mem_cons, induction, or_left_comm]

theorem ordered_insertAscending (value : α) {values : List α} (ordered : Ascending values) :
    Ascending (insertAscending value values) := by
  induction values with
  | nil => simp [insertAscending, Ascending]
  | cons head tail induction =>
      obtain ⟨headFirst, tailOrdered⟩ := List.pairwise_cons.mp ordered
      simp only [insertAscending]
      split
      · next before =>
          refine List.pairwise_cons.mpr ⟨?_, ordered⟩
          intro other member
          rcases List.mem_cons.mp member with rfl | inTail
          · exact before
          · exact Nat.lt_trans before (headFirst other inTail)
      · split
        · exact ordered
        · refine List.pairwise_cons.mpr ⟨?_, induction tailOrdered⟩
          intro other member
          rcases mem_insertAscending.mp member with rfl | inTail
          · omega
          · exact headFirst other inTail

/-- The members of a list in ascending order, each once. -/
def ascending (values : List α) : List α :=
  values.foldr insertAscending []

@[simp] theorem mem_ascending {wanted : α} {values : List α} :
    wanted ∈ ascending values ↔ wanted ∈ values := by
  induction values with
  | nil => simp [ascending]
  | cons head tail induction =>
      rw [ascending] at induction
      simp only [ascending, List.foldr_cons, mem_insertAscending, induction, List.mem_cons]

theorem ordered_ascending (values : List α) : Ascending (ascending values) := by
  induction values with
  | nil => simp [ascending, Ascending]
  | cons head tail induction => exact ordered_insertAscending head induction

theorem eq_of_ordered_of_mem_iff : ∀ {first second : List α},
    Ascending first → Ascending second →
      (∀ value, value ∈ first ↔ value ∈ second) → first = second := by
  intro first
  induction first with
  | nil =>
      intro second _ _ same
      cases second with
      | nil => rfl
      | cons head tail => simpa using same head
  | cons head tail induction =>
      intro second firstOrdered secondOrdered same
      cases second with
      | nil => simpa using same head
      | cons other rest =>
          obtain ⟨headFirst, tailOrdered⟩ := List.pairwise_cons.mp firstOrdered
          obtain ⟨otherFirst, restOrdered⟩ := List.pairwise_cons.mp secondOrdered
          have headsAgree : head = other := by
            rcases List.mem_cons.mp ((same head).mp (by simp)) with agree | later
            · exact agree
            rcases List.mem_cons.mp ((same other).mpr (by simp)) with agree | earlier
            · exact agree.symm
            have := otherFirst head later
            have := headFirst other earlier
            omega
          subst headsAgree
          have tailsAgree : tail = rest := by
            refine induction tailOrdered restOrdered fun value => ?_
            constructor
            · intro member
              rcases List.mem_cons.mp ((same value).mp (by simp [member])) with rfl | found
              · exact absurd (headFirst value member) (Nat.lt_irrefl _)
              · exact found
            · intro member
              rcases List.mem_cons.mp ((same value).mpr (by simp [member])) with rfl | found
              · exact absurd (otherFirst value member) (Nat.lt_irrefl _)
              · exact found
          rw [tailsAgree]

end Ascending

structure IndexSet (α : Type) [Indexed α] where
  elements : List α
  ordered : Ascending elements
deriving DecidableEq

namespace IndexSet

variable {α : Type} [Indexed α]

instance : Membership α (IndexSet α) where
  mem set value := value ∈ set.elements

def empty : IndexSet α := ⟨[], .nil⟩

instance : EmptyCollection (IndexSet α) := ⟨empty⟩

def ofList (values : List α) : IndexSet α :=
  ⟨ascending values, ordered_ascending values⟩

def insert (set : IndexSet α) (value : α) : IndexSet α :=
  ⟨insertAscending value set.elements, ordered_insertAscending value set.ordered⟩

def union (first second : IndexSet α) : IndexSet α :=
  ofList (first.elements ++ second.elements)

instance : Union (IndexSet α) := ⟨union⟩

def erase [DecidableEq α] (set : IndexSet α) (value : α) : IndexSet α :=
  ⟨set.elements.filter (· ≠ value), set.ordered.filter _⟩

@[simp] theorem not_mem_empty (value : α) : value ∉ (∅ : IndexSet α) :=
  List.not_mem_nil

@[simp] theorem mem_ofList {value : α} {values : List α} :
    value ∈ ofList values ↔ value ∈ values :=
  mem_ascending

@[simp] theorem mem_insert {wanted value : α} {set : IndexSet α} :
    wanted ∈ set.insert value ↔ wanted = value ∨ wanted ∈ set :=
  mem_insertAscending

@[simp] theorem mem_union {value : α} {first second : IndexSet α} :
    value ∈ first ∪ second ↔ value ∈ first ∨ value ∈ second :=
  mem_ofList.trans List.mem_append

@[simp] theorem mem_erase [DecidableEq α] {wanted value : α} {set : IndexSet α} :
    wanted ∈ set.erase value ↔ wanted ∈ set ∧ wanted ≠ value := by
  show wanted ∈ set.elements.filter _ ↔ _
  simp only [List.mem_filter, decide_eq_true_eq]
  rfl

theorem eq_of_mem_iff {first second : IndexSet α}
    (same : ∀ value, value ∈ first ↔ value ∈ second) : first = second := by
  obtain ⟨firstElements, firstOrdered⟩ := first
  obtain ⟨secondElements, secondOrdered⟩ := second
  have agree : firstElements = secondElements :=
    eq_of_ordered_of_mem_iff firstOrdered secondOrdered same
  subst agree
  rfl

end IndexSet

end Unwind
