import Mathlib.Data.List.Forall2
import Mathlib.Data.List.TakeDrop
import Unwind.Trap

/-!
# Suffixes and agreement of shared stacks

Two tests compare trap stacks.  `isSuffixOf` reads identities alone: it orders
stacks by their sequences of identities, and holds exactly if some pops turn the
second stack into the first.  `agreesWith` asks whether the traps say the same, and
is content with a common identity.

This is right because an identity belongs to one trap.  A `TrapPool` holds traps of
which that is true, and on the stacks built from a pool the two tests decide the
relations `SuffixOf` and `Agrees`.  A pool can hold two traps that say the same, so
stacks may agree without a trap in common.
-/

set_option autoImplicit false

namespace Unwind

namespace TrapStack

variable {traps whole first second third : TrapStack}

def identities (traps : TrapStack) : List Nat := traps.map Shared.identity

@[simp] theorem length_identities (traps : TrapStack) : traps.identities.length = traps.length :=
  List.length_map _

theorem identities_drop (count : Nat) (traps : TrapStack) :
    identities (traps.drop count) = traps.identities.drop count :=
  List.map_drop

/-! ## Trap by trap -/

theorem all_zip_iff {test : Shared Trap × Shared Trap → Bool}
    (sameLength : first.length = second.length) :
    (first.zip second).all test = true ↔
      List.Forall₂ (fun ours theirs => test (ours, theirs) = true) first second := by
  rw [List.forall₂_iff_zip, List.all_eq_true]
  constructor
  · intro all
    exact ⟨sameLength, fun member => all _ member⟩
  · rintro ⟨_, all⟩ pair member
    exact all member

theorem forall₂_iff_map_eq {α : Type} {view : Shared Trap → α} :
    List.Forall₂ (fun ours theirs => view ours = view theirs) first second ↔
      first.map view = second.map view := by
  rw [← List.forall₂_eq_eq_eq, List.forall₂_map_left_iff, List.forall₂_map_right_iff]

/-! ## The suffix test -/

theorem isSuffixOf_iff : traps.isSuffixOf whole = true ↔ traps.identities <:+ whole.identities := by
  by_cases longer : whole.length < traps.length
  · constructor
    · intro tested
      simp [isSuffixOf, longer] at tested
    · intro suffix
      have := suffix.length_le
      simp only [length_identities] at this
      omega
  · -- the two parts that are compared are equally long, so `zip` leaves nothing out
    have sameLength : (whole.drop (whole.length - traps.length)).length = traps.length := by
      rw [List.length_drop]
      omega
    rw [isSuffixOf, if_neg longer, all_zip_iff sameLength]
    simp only [decide_eq_true_eq]
    rw [forall₂_iff_map_eq, List.suffix_iff_eq_drop, length_identities, length_identities,
      ← identities_drop]
    exact eq_comm

theorem isSuffixOf_refl (traps : TrapStack) : traps.isSuffixOf traps = true :=
  isSuffixOf_iff.mpr List.suffix_rfl

theorem isSuffixOf_trans (inSecond : first.isSuffixOf second = true)
    (inThird : second.isSuffixOf third = true) : first.isSuffixOf third = true :=
  isSuffixOf_iff.mpr ((isSuffixOf_iff.mp inSecond).trans (isSuffixOf_iff.mp inThird))

theorem identities_eq_of_isSuffixOf (inSecond : first.isSuffixOf second = true)
    (inFirst : second.isSuffixOf first = true) : first.identities = second.identities := by
  have forth := isSuffixOf_iff.mp inSecond
  have back := isSuffixOf_iff.mp inFirst
  exact forth.eq_of_length_le back.length_le

/-- The stack after some pops. -/
def popTimes : Nat → TrapStack → TrapStack
  | 0, traps => traps
  | count + 1, traps => popTimes count traps.popInnermost.2

theorem popTimes_eq_drop : ∀ {count : Nat} {traps : TrapStack},
    popTimes count traps = traps.drop count := by
  intro count
  induction count with
  | zero =>
      intro traps
      rfl
  | succ count induction =>
      intro traps
      rw [popTimes, induction]
      cases traps with
      | nil => simp [popInnermost]
      | cons trap rest => rfl

theorem isSuffixOf_iff_popTimes :
    traps.isSuffixOf whole = true ↔ ∃ count, (popTimes count whole).identities = traps.identities := by
  rw [isSuffixOf_iff]
  constructor
  · intro suffix
    refine ⟨whole.identities.length - traps.identities.length, ?_⟩
    rw [popTimes_eq_drop, identities_drop]
    exact (List.suffix_iff_eq_drop.mp suffix).symm
  · rintro ⟨count, popped⟩
    rw [← popped, popTimes_eq_drop, identities_drop]
    exact List.drop_suffix count whole.identities

theorem agrees_iff : first.Agrees second ↔
    first.length = second.length ∧ ∀ position inFirst inSecond,
      (first.get ⟨position, inFirst⟩).value = (second.get ⟨position, inSecond⟩).value := by
  rw [Agrees, contents, contents, ← forall₂_iff_map_eq, List.forall₂_iff_get]

end TrapStack

/-! ## Stacks of one pool -/

/-- Shared traps, each with an identity of its own. -/
structure TrapPool where
  traps : List (Shared Trap)
  unique : ∀ first ∈ traps, ∀ second ∈ traps, first.identity = second.identity → first = second

namespace TrapPool

variable {pool : TrapPool} {traps whole first second third : TrapStack}

/-- The stacks that can be made of the traps of a pool. -/
inductive Builds (pool : TrapPool) : TrapStack → Prop
  | fromInnermost {traps : List (Shared Trap)} :
      traps ⊆ pool.traps → Builds pool (.fromInnermost traps)
  | pushInner {traps : TrapStack} {trap : Shared Trap} :
      Builds pool traps → trap ∈ pool.traps → Builds pool (traps.pushInner trap)
  | popInnermost {traps : TrapStack} : Builds pool traps → Builds pool traps.popInnermost.2

theorem Builds.subset (built : pool.Builds traps) : traps ⊆ pool.traps := by
  induction built with
  | fromInnermost inPool => exact inPool
  | pushInner _ inPool induction => exact List.cons_subset.mpr ⟨inPool, induction⟩
  | @popInnermost traps _ induction =>
      cases traps with
      | nil => exact List.nil_subset _
      | cons trap rest => exact (List.cons_subset.mp induction).2

theorem Builds.popTimes (built : pool.Builds traps) (count : Nat) :
    pool.Builds (TrapStack.popTimes count traps) := by
  induction count generalizing traps with
  | zero => exact built
  | succ count induction => exact induction built.popInnermost

/-- Where the traps of two stacks have one identity, they are the same trap. -/
theorem Builds.get_eq (fromFirst : pool.Builds first) (fromSecond : pool.Builds second)
    {position : Nat} {inFirst : position < first.length} {inSecond : position < second.length}
    (same : (first.get ⟨position, inFirst⟩).identity = (second.get ⟨position, inSecond⟩).identity) :
    first.get ⟨position, inFirst⟩ = second.get ⟨position, inSecond⟩ :=
  pool.unique _ (fromFirst.subset (List.get_mem first _)) _
    (fromSecond.subset (List.get_mem second _)) same

theorem Builds.eq_of_identities (fromFirst : pool.Builds first) (fromSecond : pool.Builds second)
    (same : first.identities = second.identities) : first = second := by
  obtain ⟨sameLength, sameIdentity⟩ :=
    List.forall₂_iff_get.mp (TrapStack.forall₂_iff_map_eq.mpr same)
  refine List.ext_get sameLength ?_
  intro position inFirst inSecond
  exact fromFirst.get_eq fromSecond (sameIdentity position inFirst inSecond)

theorem isSuffixOf_iff_suffixOf (built : pool.Builds traps) (builtWhole : pool.Builds whole) :
    traps.isSuffixOf whole = true ↔ traps.SuffixOf whole := by
  constructor
  · intro tested
    obtain ⟨count, popped⟩ := TrapStack.isSuffixOf_iff_popTimes.mp tested
    have isPopped := (builtWhole.popTimes count).eq_of_identities built popped
    rw [← isPopped, TrapStack.popTimes_eq_drop]
    exact List.drop_suffix count whole
  · intro suffix
    exact TrapStack.isSuffixOf_iff.mpr (List.IsSuffix.map Shared.identity suffix)

theorem agreesWith_iff_agrees (fromFirst : pool.Builds first) (fromSecond : pool.Builds second) :
    first.agreesWith second = true ↔ first.Agrees second := by
  rw [TrapStack.agrees_iff, TrapStack.agreesWith, Bool.and_eq_true, decide_eq_true_eq]
  refine and_congr_right fun sameLength => ?_
  rw [TrapStack.all_zip_iff sameLength, List.forall₂_iff_get]
  simp only [sameLength, true_and, Bool.or_eq_true, decide_eq_true_eq]
  refine forall_congr' fun position => forall_congr' fun inFirst => forall_congr' fun inSecond => ?_
  constructor
  · rintro (sameIdentity | sameValue)
    · exact congrArg Shared.value (fromFirst.get_eq fromSecond sameIdentity)
    · exact sameValue
  · exact .inr

theorem agreesWith_equivalence (pool : TrapPool) :
    Equivalence fun first second : { traps // pool.Builds traps } =>
      first.1.agreesWith second.1 = true where
  refl first := (agreesWith_iff_agrees first.2 first.2).mpr rfl
  symm {first second} tested := by
    rw [agreesWith_iff_agrees first.2 second.2] at tested
    exact (agreesWith_iff_agrees second.2 first.2).mpr tested.symm
  trans {first second third} tested testedNext := by
    rw [agreesWith_iff_agrees first.2 second.2] at tested
    rw [agreesWith_iff_agrees second.2 third.2] at testedNext
    exact (agreesWith_iff_agrees first.2 third.2).mpr (tested.trans testedNext)

theorem agreesWith_of_isSuffixOf (fromFirst : pool.Builds first) (fromSecond : pool.Builds second)
    (inSecond : first.isSuffixOf second = true) (inFirst : second.isSuffixOf first = true) :
    first.agreesWith second = true := by
  have same := fromFirst.eq_of_identities fromSecond
    (TrapStack.identities_eq_of_isSuffixOf inSecond inFirst)
  rw [agreesWith_iff_agrees fromFirst fromSecond, same]
  rfl

/-! ## Traps that say the same -/

theorem exists_fresh (pool : TrapPool) : ∃ fresh, ∀ trap ∈ pool.traps, trap.identity < fresh := by
  induction pool.traps with
  | nil => exact ⟨0, by simp⟩
  | cons trap rest induction =>
      obtain ⟨fresh, above⟩ := induction
      refine ⟨max fresh (trap.identity + 1), ?_⟩
      intro other member
      rcases List.mem_cons.mp member with rfl | inRest
      · omega
      · have := above other inRest
        omega

/-- What a trap says, shared once more under an identity that is still free. -/
def reshare (fresh : Nat) (trap : Shared Trap) : Shared Trap := ⟨fresh + trap.identity, trap.value⟩

/-- Every trap of the pool shared once more. -/
def doubled (pool : TrapPool) (fresh : Nat) (above : ∀ trap ∈ pool.traps, trap.identity < fresh) :
    TrapPool where
  traps := pool.traps ++ pool.traps.map (reshare fresh)
  unique := by
    intro first inFirst second inSecond same
    rw [List.mem_append, List.mem_map] at inFirst inSecond
    rcases inFirst with old | ⟨source, old, rfl⟩
    · rcases inSecond with otherOld | ⟨other, otherOld, rfl⟩
      · exact pool.unique first old second otherOld same
      · have := above first old
        simp only [reshare] at same
        omega
    · rcases inSecond with otherOld | ⟨other, otherOld, rfl⟩
      · have := above second otherOld
        simp only [reshare] at same
        omega
      · have sameSource : source.identity = other.identity := Nat.add_left_cancel same
        rw [pool.unique source old other otherOld sameSource]

theorem not_isSuffixOf_of_identities_ne (sameLength : first.length = second.length)
    (differ : first.identities ≠ second.identities) : ¬ first.isSuffixOf second = true := by
  intro tested
  have suffix := TrapStack.isSuffixOf_iff.mp tested
  exact differ (suffix.eq_of_length (by simpa using sameLength))

/-- A stack agrees with the stack of its traps shared once more, and neither is a
suffix of the other. -/
theorem exists_lookalike (built : pool.Builds traps) (inhabited : traps ≠ []) :
    ∃ (wider : TrapPool) (lookalike : TrapStack), pool.traps ⊆ wider.traps ∧
      wider.Builds lookalike ∧ traps.agreesWith lookalike = true ∧
        ¬ traps.isSuffixOf lookalike = true ∧ ¬ lookalike.isSuffixOf traps = true := by
  obtain ⟨fresh, above⟩ := pool.exists_fresh
  let wider := pool.doubled fresh above
  let lookalike : TrapStack := traps.map (reshare fresh)
  have kept : pool.traps ⊆ wider.traps := List.subset_append_left _ _
  have builtHere : wider.Builds traps := .fromInnermost (List.Subset.trans built.subset kept)
  have builtAgain : wider.Builds lookalike := by
    refine .fromInnermost ?_
    exact List.Subset.trans (List.map_subset (reshare fresh) built.subset)
      (List.subset_append_right _ _)
  have agrees : traps.Agrees lookalike := by
    rw [TrapStack.Agrees, TrapStack.contents, TrapStack.contents, List.map_map]
    rfl
  have sameLength : traps.length = lookalike.length := (List.length_map _).symm
  have differ : traps.identities ≠ lookalike.identities := by
    obtain ⟨trap, rest, rfl⟩ := List.exists_cons_of_ne_nil inhabited
    intro same
    have sameHead : trap.identity = fresh + trap.identity := (List.cons.inj same).1
    have := above trap (built.subset List.mem_cons_self)
    omega
  exact ⟨wider, lookalike, kept, builtAgain, (agreesWith_iff_agrees builtHere builtAgain).mpr agrees,
    not_isSuffixOf_of_identities_ne sameLength differ,
    not_isSuffixOf_of_identities_ne sameLength.symm differ.symm⟩

/-- The suffix test orders stacks by their sequences of identities, finds what is
left after pops, and decides the suffix relation.  Stacks agree if they have the same length and their traps say
the same at each position, which is an equivalence.  Stacks that are suffixes of
each other agree; but every stack except the empty one has a lookalike of other
traps, which agrees with it although neither of the two is a suffix of the other. -/
theorem suffix_and_agreement_laws (fromFirst : pool.Builds first) (fromSecond : pool.Builds second) :
    (first.isSuffixOf second = true ↔
        ∃ inner, second.identities = inner ++ first.identities) ∧
      first.isSuffixOf first = true ∧
      (first.isSuffixOf second = true → second.isSuffixOf third = true →
        first.isSuffixOf third = true) ∧
      (first.isSuffixOf second = true → second.isSuffixOf first = true →
        first.identities = second.identities) ∧
      (first.isSuffixOf second = true ↔
        ∃ count, (TrapStack.popTimes count second).identities = first.identities) ∧
      (first.isSuffixOf second = true ↔ first.SuffixOf second) ∧
      (first.agreesWith second = true ↔
        first.length = second.length ∧ ∀ position inFirst inSecond,
          (first.get ⟨position, inFirst⟩).value = (second.get ⟨position, inSecond⟩).value) ∧
      (Equivalence fun first second : { traps // pool.Builds traps } =>
        first.1.agreesWith second.1 = true) ∧
      (first.isSuffixOf second = true → second.isSuffixOf first = true →
        first.agreesWith second = true) ∧
      (first ≠ [] → ∃ (wider : TrapPool) (lookalike : TrapStack), pool.traps ⊆ wider.traps ∧
        wider.Builds lookalike ∧ first.agreesWith lookalike = true ∧
          ¬ first.isSuffixOf lookalike = true ∧ ¬ lookalike.isSuffixOf first = true) := by
  refine ⟨?_, first.isSuffixOf_refl, TrapStack.isSuffixOf_trans,
    TrapStack.identities_eq_of_isSuffixOf, TrapStack.isSuffixOf_iff_popTimes,
    isSuffixOf_iff_suffixOf fromFirst fromSecond, ?_,
    agreesWith_equivalence pool, agreesWith_of_isSuffixOf fromFirst fromSecond,
    exists_lookalike fromFirst⟩
  · rw [TrapStack.isSuffixOf_iff]
    exact exists_congr fun inner => eq_comm
  · rw [agreesWith_iff_agrees fromFirst fromSecond, TrapStack.agrees_iff]

/-- A stack around another one, and a stack that only looks like it. -/
theorem suffix_and_agreement_laws_catchAll :
    let inner : Shared Trap := ⟨0, ⟨2⟩, .catchAll ⟨3⟩⟩
    let outer : Shared Trap := ⟨1, ⟨0⟩, .catchAll ⟨1⟩⟩
    let lookalike : Shared Trap := ⟨2, ⟨0⟩, .catchAll ⟨1⟩⟩
    let pool : TrapPool := ⟨[inner, outer, lookalike], by decide⟩
    let nested : TrapStack := .fromInnermost [inner, outer]
    let around := nested.popInnermost.2
    let unrelated := around.popInnermost.2.pushInner lookalike
    pool.Builds around ∧ pool.Builds nested ∧ pool.Builds unrelated ∧
      (∃ within, nested.identities = within ++ around.identities) ∧
      around.isSuffixOf (nested.pushInner lookalike) = true ∧
      around.agreesWith unrelated = true ∧ ¬ unrelated.isSuffixOf nested = true := by
  intro inner outer lookalike pool nested around unrelated
  have builtNested : pool.Builds nested := .fromInnermost (by simp [pool])
  have builtAround : pool.Builds around := builtNested.popInnermost
  have builtUnrelated : pool.Builds unrelated := builtAround.popInnermost.pushInner (by simp [pool])
  have laws := @suffix_and_agreement_laws pool around nested (nested.pushInner lookalike)
    builtAround builtNested
  have alike := @suffix_and_agreement_laws pool around unrelated nested builtAround builtUnrelated
  exact ⟨builtAround, builtNested, builtUnrelated, laws.1.mp (by decide),
    laws.2.2.1 (by decide) (by decide), alike.2.2.2.2.2.2.1.mpr (by decide), by decide⟩

end TrapPool

end Unwind
