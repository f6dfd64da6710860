import Unwind.Trap

/-!
# Well-formed catch clauses

A trap is made of catch clauses only if there are some, each of them catches
something, and no two have the same handler.  The clauses are looked at one by one,
and the first that is at fault is reported: the handlers of those before it are all
that a clause is compared with, and a clause that catches nothing is reported as
such, whatever its handler.
-/

set_option autoImplicit false

namespace Unwind

namespace Clause

/-- The clause catches nothing, or its handler has been used. -/
def FaultyAfter (used : List Offset) (clause : Clause) : Prop :=
  clause.types = [] ∨ clause.handler ∈ used

instance (used : List Offset) (clause : Clause) : Decidable (clause.FaultyAfter used) :=
  inferInstanceAs (Decidable (_ ∨ _))

/-- The clause at the index is faulty after the clauses before it. -/
def FaultyAt (used : List Offset) (clauses : List Clause) (index : Nat) : Prop :=
  ∃ clause ∈ clauses[index]?, clause.FaultyAfter (used ++ (clauses.take index).map handler)

/-- What there is to say about a faulty clause. -/
def defect (region : Region) (clause : Clause) : ClauseDefect :=
  if clause.types = [] then .noTypes region clause.handler
  else .repeatedHandler region clause.handler

/-- The clause is at the smallest index of a faulty one. -/
structure FirstFault (used : List Offset) (clauses : List Clause) (index : Nat)
    (clause : Clause) : Prop where
  found : clauses[index]? = some clause
  faulty : clause.FaultyAfter (used ++ (clauses.take index).map handler)
  first : ∀ earlier, earlier < index → ¬ FaultyAt used clauses earlier

/-- There are clauses, each catches something, and each has a handler of its own. -/
structure WellFormed (clauses : List Clause) : Prop where
  nonempty : clauses ≠ []
  typed : ∀ clause ∈ clauses, clause.types ≠ []
  distinct : (clauses.map handler).Nodup

variable {used : List Offset} {clause first : Clause} {clauses rest : List Clause} {index : Nat}

theorem faultyAfter_cons {offset : Offset} :
    clause.FaultyAfter (offset :: used) ↔ clause.handler = offset ∨ clause.FaultyAfter used := by
  simp [FaultyAfter, or_left_comm]

theorem faultyAt_cons_zero : FaultyAt used (first :: rest) 0 ↔ first.FaultyAfter used := by
  simp [FaultyAt]

theorem faultyAt_cons_succ :
    FaultyAt used (first :: rest) (index + 1) ↔ FaultyAt (first.handler :: used) rest index := by
  simp [FaultyAt, FaultyAfter, or_left_comm]

theorem firstFault_cons_zero :
    FirstFault used (first :: rest) 0 clause ↔ clause = first ∧ first.FaultyAfter used := by
  constructor
  · intro fault
    obtain rfl : first = clause := by simpa using fault.found
    exact ⟨rfl, by simpa using fault.faulty⟩
  · rintro ⟨rfl, faulty⟩
    exact ⟨rfl, by simpa using faulty, fun earlier before => absurd before (Nat.not_lt_zero earlier)⟩

theorem firstFault_cons_succ :
    FirstFault used (first :: rest) (index + 1) clause ↔
      ¬ first.FaultyAfter used ∧ FirstFault (first.handler :: used) rest index clause := by
  have sameFault : clause.FaultyAfter (used ++ ((first :: rest).take (index + 1)).map handler) ↔
      clause.FaultyAfter (first.handler :: used ++ (rest.take index).map handler) := by
    simp [FaultyAfter, or_left_comm]
  constructor
  · intro fault
    refine ⟨?_, by simpa using fault.found, sameFault.mp fault.faulty, ?_⟩
    · rw [← faultyAt_cons_zero]
      exact fault.first 0 (Nat.succ_pos index)
    · intro earlier before
      rw [← faultyAt_cons_succ]
      exact fault.first (earlier + 1) (Nat.succ_lt_succ before)
  · rintro ⟨sound, fault⟩
    refine ⟨by simpa using fault.found, sameFault.mpr fault.faulty, ?_⟩
    intro earlier before
    cases earlier with
    | zero => rwa [faultyAt_cons_zero]
    | succ earlier =>
        rw [faultyAt_cons_succ]
        exact fault.first earlier (Nat.lt_of_succ_lt_succ before)

end Clause

namespace Trap

variable {region : Region} {used : List Offset} {clause first : Clause}
  {clauses rest : List Clause} {reported : ClauseDefect}

/-! ## Clause by clause -/

theorem clauseDefect?_cons :
    clauseDefect? region used (first :: rest) =
      if first.FaultyAfter used then some (first.defect region)
      else clauseDefect? region (first.handler :: used) rest := by
  rw [clauseDefect?]
  by_cases untyped : first.types = []
  · simp [untyped, Clause.FaultyAfter, Clause.defect]
  · simp [untyped, Clause.FaultyAfter, Clause.defect]

theorem clauseDefect?_eq_some_iff :
    ∀ {clauses : List Clause} {used : List Offset},
      clauseDefect? region used clauses = some reported ↔
        ∃ index clause, Clause.FirstFault used clauses index clause ∧
          reported = clause.defect region := by
  intro clauses
  induction clauses with
  | nil =>
      intro used
      constructor
      · intro found
        simp [clauseDefect?] at found
      · rintro ⟨index, clause, fault, _⟩
        simpa using fault.found
  | cons first rest induction =>
      intro used
      rw [clauseDefect?_cons]
      by_cases faulty : first.FaultyAfter used
      · rw [if_pos faulty, Option.some.injEq]
        constructor
        · rintro rfl
          exact ⟨0, first, Clause.firstFault_cons_zero.mpr ⟨rfl, faulty⟩, rfl⟩
        · rintro ⟨index, clause, fault, rfl⟩
          cases index with
          | zero => rw [(Clause.firstFault_cons_zero.mp fault).1]
          | succ index => exact absurd faulty (Clause.firstFault_cons_succ.mp fault).1
      · rw [if_neg faulty, induction]
        constructor
        · rintro ⟨index, clause, fault, isReported⟩
          exact ⟨index + 1, clause, Clause.firstFault_cons_succ.mpr ⟨faulty, fault⟩, isReported⟩
        · rintro ⟨index, clause, fault, isReported⟩
          cases index with
          | zero => exact absurd (Clause.firstFault_cons_zero.mp fault).2 faulty
          | succ index =>
              exact ⟨index, clause, (Clause.firstFault_cons_succ.mp fault).2, isReported⟩

theorem clauseDefect?_eq_none_iff :
    ∀ {clauses : List Clause} {used : List Offset},
      clauseDefect? region used clauses = none ↔
        (∀ clause ∈ clauses, ¬ clause.FaultyAfter used) ∧ (clauses.map Clause.handler).Nodup := by
  intro clauses
  induction clauses with
  | nil => simp [clauseDefect?]
  | cons first rest induction =>
      intro used
      rw [clauseDefect?_cons]
      by_cases faulty : first.FaultyAfter used
      · simp [faulty]
      · rw [if_neg faulty, induction]
        simp only [Clause.faultyAfter_cons, not_or, List.forall_mem_cons, faulty,
          not_false_eq_true, true_and, List.map_cons, List.nodup_cons, List.mem_map, not_exists,
          not_and, forall_and, and_assoc, and_left_comm]

/-! ## The trap -/

theorem ofClauses_eq_ok_iff {trap : Trap} :
    ofClauses region clauses = .ok trap ↔
      Clause.WellFormed clauses ∧ trap = ⟨region, .catches clauses⟩ := by
  have sound : clauseDefect? region [] clauses = none ↔
      (∀ clause ∈ clauses, clause.types ≠ []) ∧ (clauses.map Clause.handler).Nodup := by
    rw [clauseDefect?_eq_none_iff]
    simp [Clause.FaultyAfter]
  rw [ofClauses]
  split
  · next none =>
      constructor
      · nofun
      · rintro ⟨wellFormed, _⟩
        exact absurd none wellFormed.nonempty
  · next nonempty =>
      cases found : clauseDefect? region [] clauses with
      | some reported =>
          constructor
          · nofun
          · rintro ⟨wellFormed, _⟩
            rw [sound.mpr ⟨wellFormed.typed, wellFormed.distinct⟩] at found
            contradiction
      | none =>
          obtain ⟨typed, distinct⟩ := sound.mp found
          constructor
          · intro accepted
            exact ⟨⟨nonempty, typed, distinct⟩, (Except.ok.inj accepted).symm⟩
          · rintro ⟨_, rfl⟩
            rfl

theorem ofClauses_eq_error_iff :
    ofClauses region clauses = .error reported ↔
      clauses = [] ∧ reported = .noClauses region ∨
        ∃ index clause, Clause.FirstFault [] clauses index clause ∧
          reported = clause.defect region := by
  rw [← clauseDefect?_eq_some_iff, ofClauses]
  split
  · next none => simp [none, clauseDefect?, eq_comm]
  · next nonempty => cases clauseDefect? region [] clauses <;> simp [nonempty]

end Trap

/-- The text says what is wrong with the clauses: there are none, or the first of
them that is at fault catches nothing, or else repeats the handler of one before. -/
inductive FirstDefect (region : Region) (clauses : List Clause) : String → Prop
  | noClauses : clauses = [] →
      FirstDefect region clauses ("TryCatch at " ++ region.text ++ " has no catch clauses")
  | noTypes {index : Nat} {clause : Clause} : clauses[index]? = some clause →
      (∀ earlier, earlier < index → ¬ Clause.FaultyAt [] clauses earlier) →
      clause.types = [] →
        FirstDefect region clauses
          ("TryCatch at " ++ region.text ++ " has a clause without caught types (handler " ++
            clause.handler.text ++ ")")
  | repeatedHandler {index : Nat} {clause : Clause} : clauses[index]? = some clause →
      (∀ earlier, earlier < index → ¬ Clause.FaultyAt [] clauses earlier) →
      clause.types ≠ [] → clause.handler ∈ (clauses.take index).map Clause.handler →
        FirstDefect region clauses
          ("TryCatch at " ++ region.text ++ " uses handler offset " ++ clause.handler.text ++
            " twice")

namespace Trap

variable {region : Region} {clauses : List Clause}

theorem firstDefect_of_firstFault {index : Nat} {clause : Clause}
    (fault : Clause.FirstFault [] clauses index clause) :
    FirstDefect region clauses (clause.defect region).message := by
  by_cases untyped : clause.types = []
  · rw [Clause.defect, if_pos untyped]
    exact .noTypes fault.found fault.first untyped
  · rw [Clause.defect, if_neg untyped]
    exact .repeatedHandler fault.found fault.first untyped (fault.faulty.resolve_left untyped)

theorem exists_error_of_firstDefect {text : String} (isFirst : FirstDefect region clauses text) :
    ∃ reported, ofClauses region clauses = .error reported ∧ reported.message = text := by
  cases isFirst with
  | noClauses none => exact ⟨_, ofClauses_eq_error_iff.mpr (.inl ⟨none, rfl⟩), rfl⟩
  | @noTypes index clause found first untyped =>
      refine ⟨_, ofClauses_eq_error_iff.mpr (.inr ⟨index, clause, ⟨found, .inl untyped, first⟩, rfl⟩), ?_⟩
      rw [Clause.defect, if_pos untyped]
      rfl
  | @repeatedHandler index clause found first typed again =>
      refine ⟨_, ofClauses_eq_error_iff.mpr (.inr ⟨index, clause, ⟨found, .inr again, first⟩, rfl⟩), ?_⟩
      rw [Clause.defect, if_neg typed]
      rfl

/-- Well-formed clauses make a trap that holds them as they are and can send a
transfer to each of their handlers.  All others are refused, with a text about the
first defect. -/
theorem ofClauses_accepts_or_reports_first (region : Region) (clauses : List Clause) :
    (∀ trap, ofClauses region clauses = .ok trap ↔
        Clause.WellFormed clauses ∧ trap = ⟨region, .catches clauses⟩) ∧
      (∀ trap, ofClauses region clauses = .ok trap →
        trap.offsets = clauses.map Clause.handler ∧ trap.offsets.Nodup) ∧
      ∀ text, (∃ reported, ofClauses region clauses = .error reported ∧ reported.message = text) ↔
        FirstDefect region clauses text := by
  refine ⟨fun _ => ofClauses_eq_ok_iff, ?_, ?_⟩
  · intro trap accepted
    obtain ⟨wellFormed, rfl⟩ := ofClauses_eq_ok_iff.mp accepted
    exact ⟨rfl, wellFormed.distinct⟩
  · intro text
    constructor
    · rintro ⟨reported, refused, rfl⟩
      rcases ofClauses_eq_error_iff.mp refused with ⟨none, rfl⟩ | ⟨index, clause, fault, rfl⟩
      · exact .noClauses none
      · exact firstDefect_of_firstFault fault
    · exact exists_error_of_firstDefect

-- The second clause has both defects, and the third has one as well.
example (caught : Constraint) :
    ofClauses ⟨1⟩ [⟨[caught], ⟨10⟩⟩, ⟨[], ⟨10⟩⟩, ⟨[], ⟨20⟩⟩] = .error (.noTypes ⟨1⟩ ⟨10⟩) := rfl

end Trap

end Unwind
