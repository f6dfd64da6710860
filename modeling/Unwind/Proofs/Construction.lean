import Mathlib.Algebra.BigOperators.Finprod
import Unwind.Inspect

/-!
# Registries under construction

A registry is used by a sequence of calls that number finally bodies and register
instructions.  What it holds afterwards can be read off the calls alone: for each
body, the instructions whose transfers enter it, in the order in which they were
first registered and with the transfer of that first call.

A registry keeps the links, the keys of the links and the number of bodies apart.
`Registry.InStep` is what ties the first two together; it is kept by every single
registration.  `backLinks_link` says what a call does to the links of one body, and
`Registry.Records` follows that through all calls.
-/

set_option autoImplicit false

namespace Unwind

namespace TrapStack

variable {traps : TrapStack} {body : FinallyBody}

/-- The stack holds an entry of the body. -/
def Enters (traps : TrapStack) (body : FinallyBody) : Prop :=
  ∃ trap ∈ traps, ∃ entry, trap.value.rule = .enters entry ∧ entry.body = body

theorem mem_entered_iff : body ∈ traps.entered ↔ traps.Enters body := by
  simp only [entered, contents, List.filterMap_map, List.mem_filterMap, Enters]
  refine exists_congr fun trap => and_congr_right fun _ => ?_
  cases isRule : trap.value.rule <;> simp [Trap.entry?, isRule]

instance (traps : TrapStack) (body : FinallyBody) : Decidable (traps.Enters body) :=
  decidable_of_iff (body ∈ traps.entered) mem_entered_iff

end TrapStack

namespace Registry

variable {registry : Registry} {added : BackLink} {body : FinallyBody} {index : Offset}
  {transfer : Continuation} {instruction : Instruction}

/-! ## Single registrations -/

/-- The keys are those of the links. -/
def InStep (registry : Registry) : Prop :=
  registry.seen.Perm (registry.links.map BackLink.key)

theorem InStep.register (inStep : registry.InStep) : (registry.register added).InStep := by
  unfold Registry.register
  split
  · exact inStep
  · have keys : (added.key :: registry.links.map BackLink.key).Perm
        ((registry.links ++ [added]).map BackLink.key) := by
      rw [List.map_append]
      exact (List.perm_append_singleton added.key _).symm
    exact (inStep.cons added.key).trans keys

theorem InStep.mem_seen_iff (inStep : registry.InStep) :
    (body, index) ∈ registry.seen ↔ index ∈ (registry.backLinks body).map BackLink.instruction := by
  rw [inStep.mem_iff]
  simp [BackLink.key, backLinks, BackLinks.ofBody, and_assoc]

theorem mem_seen_register {key : FinallyBody × Offset} :
    key ∈ (registry.register added).seen ↔ key = added.key ∨ key ∈ registry.seen := by
  unfold register
  split
  · next known => exact ⟨.inr, fun either => either.elim (· ▸ known) id⟩
  · exact List.mem_cons

theorem backLinks_register :
    (registry.register added).backLinks body =
      registry.backLinks body ++ if added.key ∉ registry.seen ∧ added.body = body then [added] else [] := by
  unfold register
  split
  · next known => simp [known]
  · next fresh =>
      simp only [backLinks, BackLinks.ofBody, List.filter_append, fresh, not_false_eq_true, true_and]
      by_cases same : added.body = body <;> simp [same]

/-! ## One instruction -/

theorem backLinks_foldl_register :
    ∀ {bodies : List FinallyBody} {registry : Registry},
      (bodies.foldl (fun registry body => registry.register ⟨body, index, transfer⟩)
          registry).backLinks body =
        registry.backLinks body ++
          if body ∈ bodies ∧ (body, index) ∉ registry.seen then [⟨body, index, transfer⟩] else [] := by
  intro bodies
  induction bodies with
  | nil => simp
  | cons first rest induction =>
      intro registry
      rw [List.foldl_cons, induction, backLinks_register, List.append_assoc]
      congr 1
      simp only [mem_seen_register, BackLink.key, Prod.mk.injEq, and_true, List.mem_cons]
      -- the first body is registered here, and passed over if it is listed again
      by_cases same : body = first
      · subst same
        by_cases known : (body, index) ∈ registry.seen <;> simp [known]
      · simp [same, Ne.symm same]

theorem backLinks_link :
    (registry.link instruction).backLinks body =
      registry.backLinks body ++
        if instruction.transfer.traps.Enters body ∧ (body, instruction.index) ∉ registry.seen then
          [⟨body, instruction.index, instruction.transfer⟩]
        else [] := by
  rw [Registry.link, linkTransfer, backLinks_foldl_register]
  simp only [TrapStack.mem_entered_iff]

/-- Follows the registrations of one instruction, body by body. -/
theorem link_induction {motive : Registry → Prop} (start : motive registry)
    (step : ∀ current body, instruction.transfer.traps.Enters body → motive current →
      motive (current.register ⟨body, instruction.index, instruction.transfer⟩)) :
    motive (registry.link instruction) := by
  refine List.foldlRecOn _ _ start ?_
  intro current holds body listed
  exact step current body (TrapStack.mem_entered_iff.mp listed) holds

theorem InStep.link (inStep : registry.InStep) : (registry.link instruction).InStep :=
  link_induction inStep fun _ _ _ => InStep.register

theorem allocated_link : (registry.link instruction).allocated = registry.allocated := by
  refine link_induction (motive := fun current => current.allocated = registry.allocated) rfl ?_
  intro current body _ same
  rw [← same, register]
  split <;> rfl

/-- An instruction that is registered with all its bodies is not registered again. -/
theorem link_eq_self
    (known : ∀ body, instruction.transfer.traps.Enters body →
      (body, instruction.index) ∈ registry.seen) :
    registry.link instruction = registry := by
  refine link_induction (motive := fun current => current = registry) rfl ?_
  rintro current body enters rfl
  exact if_pos (known body enters)

/-! ## Calls -/

/-- One use of a registry while code is built. -/
inductive Call where
  | allocate (kind : BodyKind) (jump : Offset)
  | link (instruction : Instruction)
  | linkTransfer (index : Offset) (transfer : Continuation)
deriving DecidableEq

/-- The instruction that the call registers. -/
def Call.linked? : Call → Option Instruction
  | .allocate _ _ => none
  | .link instruction => some instruction
  | .linkTransfer index transfer => some ⟨index, transfer⟩

/-- The call registers the index with a transfer that enters the body. -/
def Call.Links (call : Call) (body : FinallyBody) (index : Offset) : Prop :=
  ∃ instruction ∈ call.linked?,
    instruction.index = index ∧ instruction.transfer.traps.Enters body

instance (call : Call) (body : FinallyBody) (index : Offset) : Decidable (call.Links body index) :=
  inferInstanceAs (Decidable (∃ instruction ∈ call.linked?, _))

/-- The entry that the call answers, and the registry after it. -/
def perform (registry : Registry) : Call → Option FinallyEntry × Registry
  | .allocate kind jump => (registry.allocate kind jump).map some id
  | .link instruction => (none, registry.link instruction)
  | .linkTransfer index transfer => (none, registry.linkTransfer index transfer)

def after (registry : Registry) (calls : List Call) : Registry :=
  calls.foldl (fun registry call => (registry.perform call).2) registry

/-- The entries that the calls answer, in their order. -/
def issued (registry : Registry) : List Call → List FinallyEntry
  | [] => []
  | call :: calls =>
      (registry.perform call).1.toList ++ (registry.perform call).2.issued calls

variable {call : Call} {calls : List Call}

theorem perform_of_linked (linked : call.linked? = some instruction) :
    registry.perform call = (none, registry.link instruction) := by
  cases call <;> cases linked <;> rfl

theorem perform_of_unlinked (unlinked : call.linked? = none) :
    ∃ entry, entry.body = ⟨registry.allocated⟩ ∧
      registry.perform call =
        (some entry, { registry with allocated := registry.allocated + 1 }) := by
  cases call with
  | allocate kind jump => exact ⟨⟨⟨registry.allocated⟩, kind, jump⟩, rfl, rfl⟩
  | link instruction => contradiction
  | linkTransfer index transfer => contradiction

/-! ## The links of one body -/

/-- The links of a body tell which instructions the calls have registered with it:
each once, in the order of the first calls and with the transfers of those. -/
structure Recounts (calls : List Call) (body : FinallyBody) (links : List BackLink) : Prop where
  distinct : (links.map BackLink.instruction).Nodup
  mem_iff : ∀ index, index ∈ links.map BackLink.instruction ↔ ∃ call ∈ calls, call.Links body index
  first : ∀ link ∈ links, (calls.find? (·.Links body link.instruction)).bind Call.linked? =
    some ⟨link.instruction, link.transfer⟩
  ordered : links.Pairwise fun earlier later =>
    calls.findIdx (·.Links body earlier.instruction) <
      calls.findIdx (·.Links body later.instruction)

variable {links : List BackLink}

theorem recounts_nil : Recounts [] body [] := by
  refine ⟨List.nodup_nil, ?_, nofun, List.Pairwise.nil⟩
  simp

theorem find?_append_of_linked (linked : ∃ call ∈ calls, call.Links body index)
    (more : List Call) :
    (calls ++ more).find? (·.Links body index) = calls.find? (·.Links body index) := by
  have found : (calls.find? (·.Links body index)).isSome := by
    simpa only [List.find?_isSome, decide_eq_true_eq] using linked
  rw [List.find?_append, Option.or_of_isSome found]

theorem findIdx_append_of_linked (linked : ∃ call ∈ calls, call.Links body index)
    (more : List Call) :
    (calls ++ more).findIdx (·.Links body index) = calls.findIdx (·.Links body index) := by
  have found : calls.findIdx (·.Links body index) < calls.length := by
    simpa only [List.findIdx_lt_length, decide_eq_true_eq] using linked
  rw [List.findIdx_append, if_pos found]

namespace Recounts

theorem linked_of_mem (recounts : Recounts calls body links) {link : BackLink}
    (member : link ∈ links) : ∃ call ∈ calls, call.Links body link.instruction :=
  (recounts.mem_iff link.instruction).mp (List.mem_map_of_mem member)

theorem first_append (recounts : Recounts calls body links) (more : List Call) :
    ∀ link ∈ links,
      ((calls ++ more).find? (·.Links body link.instruction)).bind Call.linked? =
        some ⟨link.instruction, link.transfer⟩ := by
  intro link member
  rw [find?_append_of_linked (recounts.linked_of_mem member)]
  exact recounts.first link member

theorem ordered_append (recounts : Recounts calls body links) (more : List Call) :
    links.Pairwise fun earlier later =>
      (calls ++ more).findIdx (·.Links body earlier.instruction) <
        (calls ++ more).findIdx (·.Links body later.instruction) := by
  refine recounts.ordered.imp_of_mem ?_
  intro earlier later earlierMember laterMember before
  rw [findIdx_append_of_linked (recounts.linked_of_mem earlierMember),
    findIdx_append_of_linked (recounts.linked_of_mem laterMember)]
  exact before

/-- A call that brings no new instruction to the body. -/
theorem keep (recounts : Recounts calls body links)
    (known : ∀ index, call.Links body index → index ∈ links.map BackLink.instruction) :
    Recounts (calls ++ [call]) body links where
  distinct := recounts.distinct
  mem_iff := by
    intro index
    constructor
    · intro member
      obtain ⟨earlier, inCalls, isLinked⟩ := (recounts.mem_iff index).mp member
      exact ⟨earlier, List.mem_append_left [call] inCalls, isLinked⟩
    · rintro ⟨earlier, inCalls, isLinked⟩
      rcases List.mem_append.mp inCalls with old | new
      · exact (recounts.mem_iff index).mpr ⟨earlier, old, isLinked⟩
      · cases List.mem_singleton.mp new
        exact known index isLinked
  first := recounts.first_append [call]
  ordered := recounts.ordered_append [call]

/-- The first call that registers an instruction with the body. -/
theorem add (recounts : Recounts calls body links) (linked : call.linked? = some instruction)
    (enters : instruction.transfer.traps.Enters body)
    (fresh : instruction.index ∉ links.map BackLink.instruction) :
    Recounts (calls ++ [call]) body
      (links ++ [⟨body, instruction.index, instruction.transfer⟩]) := by
  have linksOnly : ∀ index, call.Links body index ↔ index = instruction.index := by
    intro index
    simp [Call.Links, linked, enters, eq_comm]
  have notBefore : ∀ earlier ∈ calls, ¬ earlier.Links body instruction.index := by
    intro earlier inCalls isLinked
    exact fresh ((recounts.mem_iff instruction.index).mpr ⟨earlier, inCalls, isLinked⟩)
  refine ⟨?_, ?_, ?_, ?_⟩
  · rw [List.map_append, List.map_singleton, ← List.concat_eq_append]
    exact recounts.distinct.concat fresh
  · intro index
    simp only [List.map_append, List.map_cons, List.map_nil, List.mem_append, List.mem_singleton,
      recounts.mem_iff, or_and_right, exists_or, exists_eq_left, linksOnly]
  · intro link member
    rcases List.mem_append.mp member with old | new
    · exact recounts.first_append [call] link old
    · cases List.mem_singleton.mp new
      have absent : calls.find? (·.Links body instruction.index) = none := by
        simpa only [List.find?_eq_none, decide_eq_true_eq] using notBefore
      simp [List.find?_append, absent, linksOnly, linked]
  · refine List.pairwise_append.mpr ⟨recounts.ordered_append [call], List.pairwise_singleton _ _, ?_⟩
    intro link member new isNew
    cases List.mem_singleton.mp isNew
    have before : calls.findIdx (·.Links body link.instruction) < calls.length := by
      simpa only [List.findIdx_lt_length, decide_eq_true_eq] using recounts.linked_of_mem member
    have last : calls.findIdx (·.Links body instruction.index) = calls.length := by
      simpa only [List.findIdx_eq_length, decide_eq_false_iff_not] using notBefore
    rw [findIdx_append_of_linked (recounts.linked_of_mem member), List.findIdx_append, last]
    simp only [Nat.lt_irrefl, if_false]
    omega

end Recounts

/-! ## All calls -/

/-- What a registry holds after the calls. -/
structure Records (registry : Registry) (calls : List Call) : Prop where
  inStep : registry.InStep
  recounts : ∀ body, Recounts calls body (registry.backLinks body)

theorem records_empty : empty.Records [] := ⟨.nil, fun _ => recounts_nil⟩

theorem Records.mem_seen_iff (records : registry.Records calls) :
    (body, index) ∈ registry.seen ↔ ∃ call ∈ calls, call.Links body index := by
  rw [records.inStep.mem_seen_iff]
  exact (records.recounts body).mem_iff index

theorem Records.perform (records : registry.Records calls) (call : Call) :
    (registry.perform call).2.Records (calls ++ [call]) := by
  cases linked : call.linked? with
  | none =>
      obtain ⟨entry, _, performs⟩ := registry.perform_of_unlinked linked
      rw [performs]
      refine ⟨records.inStep, fun body => (records.recounts body).keep ?_⟩
      rintro index ⟨instruction, isLinked, _⟩
      rw [linked] at isLinked
      contradiction
  | some instruction =>
      rw [perform_of_linked linked]
      refine ⟨records.inStep.link, fun body => ?_⟩
      rw [backLinks_link]
      split
      · next isNew =>
          rw [records.inStep.mem_seen_iff] at isNew
          exact (records.recounts body).add linked isNew.1 isNew.2
      · next notNew =>
          rw [List.append_nil]
          refine (records.recounts body).keep ?_
          rintro index ⟨other, isLinked, rfl, enters⟩
          cases Option.some.inj (linked.symm.trans isLinked)
          rw [← records.inStep.mem_seen_iff]
          exact Decidable.byContradiction fun fresh => notNew ⟨enters, fresh⟩

theorem Records.after :
    ∀ {calls past : List Call} {registry : Registry}, registry.Records past →
      (registry.after calls).Records (past ++ calls) := by
  intro calls
  induction calls with
  | nil =>
      intro past registry records
      simpa [Registry.after] using records
  | cons call calls induction =>
      intro past registry records
      have later := induction (records.perform call)
      rw [List.append_assoc] at later
      exact later

theorem records_after (calls : List Call) : (empty.after calls).Records calls :=
  records_empty.after

theorem prefix_backLinks_perform (registry : Registry) (call : Call) (body : FinallyBody) :
    registry.backLinks body <+: (registry.perform call).2.backLinks body := by
  cases linked : call.linked? with
  | none =>
      obtain ⟨entry, _, performs⟩ := registry.perform_of_unlinked linked
      rw [performs]
      exact List.prefix_refl _
  | some instruction =>
      rw [perform_of_linked linked, backLinks_link]
      exact List.prefix_append _ _

theorem prefix_backLinks_after (body : FinallyBody) :
    ∀ {calls : List Call} {registry : Registry},
      registry.backLinks body <+: (registry.after calls).backLinks body := by
  intro calls
  induction calls with
  | nil =>
      intro registry
      exact List.prefix_refl _
  | cons call calls induction =>
      intro registry
      exact (registry.prefix_backLinks_perform call body).trans induction

theorem Records.perform_eq_self (records : registry.Records calls) (repeated : call ∈ calls)
    (linked : call.linked? = some instruction) : (registry.perform call).2 = registry := by
  rw [perform_of_linked linked]
  apply link_eq_self
  intro body enters
  exact records.mem_seen_iff.mpr ⟨call, repeated, instruction, linked, rfl, enters⟩

/-! ## Numbers -/

/-- Bodies are numbered one after the other. -/
theorem issued_numbered :
    ∀ {calls : List Call} {registry : Registry},
      (registry.issued calls).map (·.body.index) =
          List.range' registry.allocated (registry.issued calls).length ∧
        (registry.after calls).allocated =
          registry.allocated + (registry.issued calls).length := by
  intro calls
  induction calls with
  | nil =>
      intro registry
      exact ⟨rfl, rfl⟩
  | cons call calls induction =>
      intro registry
      simp only [issued, after, List.foldl_cons]
      cases linked : call.linked? with
      | none =>
          obtain ⟨entry, isBody, performs⟩ := registry.perform_of_unlinked linked
          obtain ⟨numbered, counted⟩ :=
            @induction { registry with allocated := registry.allocated + 1 }
          rw [performs]
          refine ⟨?_, ?_⟩
          · simp [isBody, numbered, List.range'_succ]
          · rw [after] at counted
            simp only [counted, Option.toList_some, List.singleton_append, List.length_cons]
            omega
      | some instruction =>
          obtain ⟨numbered, counted⟩ := @induction (registry.link instruction)
          rw [allocated_link] at numbered counted
          rw [perform_of_linked linked]
          exact ⟨numbered, counted⟩

theorem length_ofBody_cons (link : BackLink) (rest : BackLinks) (body : FinallyBody) :
    (BackLinks.ofBody (link :: rest) body).length =
      (if link.body = body then 1 else 0) + (rest.ofBody body).length := by
  by_cases same : link.body = body <;> simp [BackLinks.ofBody, same, Nat.add_comm]

theorem finite_support_ofBody (links : BackLinks) :
    (Function.support fun body => (links.ofBody body).length).Finite := by
  refine (links.map BackLink.body).finite_toSet.subset ?_
  intro body nonempty
  obtain ⟨link, member⟩ := List.exists_mem_of_length_pos (Nat.pos_of_ne_zero nonempty)
  obtain ⟨inLinks, isBody⟩ := List.mem_filter.mp member
  exact List.mem_map.mpr ⟨link, inLinks, of_decide_eq_true isBody⟩

/-- Every link belongs to one body. -/
theorem finsum_length_ofBody (links : BackLinks) :
    ∑ᶠ body, (links.ofBody body).length = links.length := by
  induction links with
  | nil => simp [BackLinks.ofBody]
  | cons link rest induction =>
      have here : (Function.support fun body => if link.body = body then 1 else 0).Finite := by
        refine (Set.finite_singleton link.body).subset ?_
        intro body nonzero
        by_contra other
        exact nonzero (if_neg fun same => other same.symm)
      have one : ∑ᶠ body, (if link.body = body then 1 else 0) = 1 := by
        rw [finsum_eq_single _ link.body fun body other => if_neg (Ne.symm other)]
        exact if_pos rfl
      rw [finsum_congr (length_ofBody_cons link rest),
        finsum_add_distrib here (finite_support_ofBody rest), one, induction, List.length_cons,
        Nat.add_comm]

/-- After any calls: no two issued entries share a body, and their bodies have the
numbers below that of the entries; the links of each body recount the calls, a
further call only adds to their end, and a repeated one changes nothing.  The number
of links that is shown is that of the links of all bodies, and the table has the
same links. -/
theorem construction_recounts_calls (calls : List Call) :
    let registry := empty.after calls
    let entries := empty.issued calls
    (entries.map FinallyEntry.body).Nodup ∧
      (∀ entry ∈ entries, entry.body.index < entries.length) ∧
      (∀ body, Recounts calls body (registry.backLinks body)) ∧
      (∀ call body, registry.backLinks body <+: (registry.perform call).2.backLinks body) ∧
      (∀ call ∈ calls, call.linked? ≠ none → (registry.perform call).2 = registry) ∧
      Inspect.registry registry =
        Inspect.record "BackLinkRegistry"
          [("finally_entries", toString entries.length),
            ("back_links", toString (∑ᶠ body, (registry.backLinks body).length))] ∧
      ∀ entry : FinallyEntry,
        registry.freeze.backLinks entry.body = registry.backLinks entry.body := by
  intro registry entries
  have records : registry.Records calls := records_after calls
  have numbered : entries.map (·.body.index) = List.range entries.length := by
    rw [List.range_eq_range']
    exact issued_numbered.1
  have allocated : registry.allocated = entries.length :=
    issued_numbered.2.trans (Nat.zero_add entries.length)
  have count : registry.seen.length = ∑ᶠ body, (registry.backLinks body).length := by
    rw [records.inStep.length_eq, List.length_map]
    exact (finsum_length_ofBody registry.links).symm
  refine ⟨?_, ?_, records.recounts, registry.prefix_backLinks_perform, ?_, ?_, fun _ => rfl⟩
  · apply List.Nodup.of_map FinallyBody.index
    rw [List.map_map]
    exact numbered ▸ List.nodup_range
  · intro entry member
    have listed : entry.body.index ∈ entries.map (·.body.index) := List.mem_map_of_mem member
    rw [numbered] at listed
    exact List.mem_range.mp listed
  · intro call repeated isLink
    obtain ⟨instruction, linked⟩ := Option.ne_none_iff_exists'.mp isLink
    exact records.perform_eq_self repeated linked
  · rw [Inspect.registry, count, allocated]

/-- A stack that enters one body twice and another one that was never issued, with
one index registered for two transfers. -/
theorem construction_recounts_relinked :
    let entry : FinallyEntry := ⟨⟨0⟩, .always, ⟨50⟩⟩
    let unissued : FinallyEntry := ⟨⟨7⟩, .resource, ⟨70⟩⟩
    let traps : TrapStack :=
      [⟨0, ⟨0⟩, .enters entry⟩, ⟨0, ⟨0⟩, .enters entry⟩, ⟨1, ⟨1⟩, .enters unissued⟩]
    let returning : Instruction := ⟨⟨5⟩, .ret, traps⟩
    let calls : List Call :=
      [.allocate .always ⟨50⟩, .link returning, .linkTransfer ⟨5⟩ ⟨.jump ⟨90⟩ [], traps⟩]
    let registry := empty.after calls
    empty.issued calls = [entry] ∧
      registry.backLinks ⟨0⟩ = [⟨⟨0⟩, ⟨5⟩, .ret, traps⟩] ∧
      registry.backLinks ⟨7⟩ = [⟨⟨7⟩, ⟨5⟩, .ret, traps⟩] ∧
      (calls.find? (·.Links ⟨7⟩ ⟨5⟩)).bind Call.linked? = some returning ∧
      (registry.perform (.link returning)).2 = registry := by
  intro entry unissued traps returning calls registry
  obtain ⟨_, _, recounts, _, repeats, _⟩ := construction_recounts_calls calls
  have links : registry.backLinks ⟨7⟩ = [⟨⟨7⟩, ⟨5⟩, .ret, traps⟩] := by decide
  have first := (recounts ⟨7⟩).first ⟨⟨7⟩, ⟨5⟩, .ret, traps⟩ (links ▸ List.mem_singleton_self _)
  exact ⟨by decide, by decide, links, first, repeats (.link returning) (by simp [calls]) nofun⟩

end Registry

end Unwind
