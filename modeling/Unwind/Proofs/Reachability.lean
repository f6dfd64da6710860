import Mathlib.Data.Set.Lattice
import Unwind.Reach

/-!
# Reachability through back-links

What the end of a finally body can lead to is defined by equations: the traps and
the targets of all transfers linked to the body, less the start of the body.  The
links may be cyclic, so the equations may have many solutions, and the least one
is meant.

The traversal expands no body that is being expanded already.  `Leads` is what it
finds in this way, and `leads_or_resumes` is the reason why nothing is lost: a
way that comes back to a body can be cut at its last visit there, and the shorter
way meets fewer starts of bodies.  `targetOffsets_isLeast` puts the two together.
-/

set_option autoImplicit false

namespace Unwind

theorem TrapStack.mem_offsets_iff {traps : TrapStack} {offset : Offset} :
    offset ∈ traps.offsets ↔ ∃ trap ∈ traps, offset ∈ trap.value.possibleOffsets := by
  simp [offsets, contents, Trap.possibleOffsets]

namespace LinkTable

variable {table : LinkTable} {path : List FinallyBody} {target : Target} {offset : Offset}
  {body : FinallyBody} {entry : FinallyEntry}

/-- The family gives every target the offsets that the links of the table ask
for. -/
structure Solves (table : LinkTable) (family : Target → Set Offset) : Prop where
  jump : ∀ offset flush, family (.jump offset flush) = {offset}
  exception : ∀ thrown, family (.exception thrown) = ∅
  ret : family .ret = ∅
  exitFinally : ∀ entry, family (.exitFinally entry) =
    (⋃ link ∈ table.backLinks entry.body,
      (⋃ trap ∈ link.transfer.traps, {offset | offset ∈ trap.value.possibleOffsets}) ∪
        family link.transfer.target) \ {entry.jump}

/-! ## Ways that expand no body twice -/

/-- A target leads to an offset, and no body of the path is expanded on the way,
nor any body twice. -/
inductive Leads (table : LinkTable) : List FinallyBody → Target → Offset → Prop
  | jump {path : List FinallyBody} {offset : Offset} {flush : List String} :
      Leads table path (.jump offset flush) offset
  | trap {path : List FinallyBody} {entry : FinallyEntry} {link : BackLink} {offset : Offset} :
      entry.body ∉ path → link ∈ table.backLinks entry.body →
        offset ∈ link.transfer.traps.offsets → offset ≠ entry.jump →
          Leads table path (.exitFinally entry) offset
  | target {path : List FinallyBody} {entry : FinallyEntry} {link : BackLink} {offset : Offset} :
      entry.body ∉ path → link ∈ table.backLinks entry.body →
        Leads table (entry.body :: path) link.transfer.target offset → offset ≠ entry.jump →
          Leads table path (.exitFinally entry) offset

/-- A transfer linked to the body leads to the offset without the body itself. -/
def Resumes (table : LinkTable) (path : List FinallyBody) (body : FinallyBody)
    (offset : Offset) : Prop :=
  ∃ link ∈ table.backLinks body, offset ∈ link.transfer.traps.offsets ∨
    table.Leads (body :: path) link.transfer.target offset

@[simp] theorem leads_jump_iff {destination : Offset} {flush : List String} :
    table.Leads path (.jump destination flush) offset ↔ offset = destination := by
  constructor
  · intro leads
    cases leads
    rfl
  · rintro rfl
    exact .jump

@[simp] theorem not_leads_exception {thrown : Constraint} :
    ¬ table.Leads path (.exception thrown) offset := nofun

@[simp] theorem not_leads_ret : ¬ table.Leads path .ret offset := nofun

theorem leads_exitFinally_iff :
    table.Leads path (.exitFinally entry) offset ↔
      entry.body ∉ path ∧ table.Resumes path entry.body offset ∧ offset ≠ entry.jump := by
  constructor
  · intro leads
    cases leads with
    | trap fresh linked atTrap other => exact ⟨fresh, ⟨_, linked, .inl atTrap⟩, other⟩
    | target fresh linked leads other => exact ⟨fresh, ⟨_, linked, .inr leads⟩, other⟩
  · rintro ⟨fresh, ⟨link, linked, atTrap | leads⟩, other⟩
    · exact .trap fresh linked atTrap other
    · exact .target fresh linked leads other

theorem leads_of_subset (leads : table.Leads path target offset) :
    ∀ {fewer : List FinallyBody}, fewer ⊆ path → table.Leads fewer target offset := by
  induction leads with
  | jump =>
      intro fewer _
      exact .jump
  | trap fresh linked atTrap other =>
      intro fewer subset
      exact .trap (fun member => fresh (subset member)) linked atTrap other
  | target fresh linked _ other induction =>
      intro fewer subset
      exact .target (fun member => fresh (subset member)) linked
        (induction (List.cons_subset_cons _ subset)) other

/-- Either a way never expands the body, or its last part starts there. -/
theorem leads_or_resumes (body : FinallyBody) (leads : table.Leads path target offset) :
    table.Leads (body :: path) target offset ∨ table.Resumes path body offset := by
  induction leads with
  | jump => exact .inl .jump
  | @trap path entry link offset fresh linked atTrap other =>
      by_cases same : entry.body = body
      · exact .inr ⟨link, same ▸ linked, .inl atTrap⟩
      · exact .inl (.trap (by simp [same, fresh]) linked atTrap other)
  | @target path entry link offset fresh linked leads other induction =>
      by_cases same : entry.body = body
      · exact .inr ⟨link, same ▸ linked, .inr (same ▸ leads)⟩
      · -- the way expands another body first, and the cut is made in what follows
        rcases induction with avoids | ⟨last, lastLinked, lastLeads⟩
        · have swapped : entry.body :: body :: path ⊆ body :: entry.body :: path :=
            (List.Perm.swap body entry.body path).subset
          exact .inl (.target (by simp [same, fresh]) linked (leads_of_subset avoids swapped) other)
        · have dropped : body :: path ⊆ body :: entry.body :: path :=
            List.cons_subset_cons body (List.subset_cons_self entry.body path)
          exact .inr ⟨last, lastLinked, lastLeads.imp_right (leads_of_subset · dropped)⟩

/-- From outside all bodies, the ways through a body are those of the transfers
linked to it. -/
theorem leads_nil_exitFinally_iff :
    table.Leads [] (.exitFinally entry) offset ↔
      (∃ link ∈ table.backLinks entry.body, offset ∈ link.transfer.traps.offsets ∨
        table.Leads [] link.transfer.target offset) ∧ offset ≠ entry.jump := by
  rw [leads_exitFinally_iff]
  constructor
  · rintro ⟨_, ⟨link, linked, leads⟩, other⟩
    exact ⟨⟨link, linked, leads.imp_right (leads_of_subset · (List.nil_subset _))⟩, other⟩
  · rintro ⟨⟨link, linked, leads⟩, other⟩
    refine ⟨List.not_mem_nil, ?_, other⟩
    rcases leads with atTrap | leads
    · exact ⟨link, linked, .inl atTrap⟩
    · -- where the way comes back to the body, a later link of the same body takes its place
      rcases leads_or_resumes entry.body leads with avoids | resumes
      · exact ⟨link, linked, .inr avoids⟩
      · exact resumes

/-! ## The traversal -/

/-- The bodies of the table that are not being expanded. -/
def unexpanded (table : LinkTable) (path : List FinallyBody) : List FinallyBody :=
  table.bodies.filter (· ∉ path)

theorem mem_bodies_of_linked {link : BackLink} (linked : link ∈ table.backLinks body) :
    body ∈ table.bodies := by
  obtain ⟨inLinks, isBody⟩ := List.mem_filter.mp linked
  rw [bodies, List.mem_eraseDups, List.mem_append]
  exact .inr (List.mem_map.mpr ⟨link, inLinks, of_decide_eq_true isBody⟩)

theorem length_unexpanded_lt (known : body ∈ table.bodies) (fresh : body ∉ path) :
    (table.unexpanded (body :: path)).length < (table.unexpanded path).length := by
  have filtered : table.unexpanded (body :: path) =
      (table.unexpanded path).filter (· ≠ body) := by
    simp only [unexpanded, List.filter_filter, List.mem_cons, not_or, Bool.decide_and]
  rw [filtered, List.length_filter_lt_length_iff_exists]
  exact ⟨body, List.mem_filter.mpr ⟨known, decide_eq_true fresh⟩, by simp⟩

end LinkTable

/-- The second walk is back on the path of the first, with further offsets. -/
structure Walk.Adds (walk : Walk) (added : Offset → Prop) (after : Walk) : Prop where
  path : after.path = walk.path
  found : ∀ offset, offset ∈ after.found ↔ offset ∈ walk.found ∨ added offset

theorem Walk.adds_foldl {path : List FinallyBody} {next : Walk → BackLink → Walk}
    {added : BackLink → Offset → Prop} :
    ∀ {links : List BackLink} {walk : Walk}, walk.path = path →
      (∀ link ∈ links, ∀ walk : Walk, walk.path = path → walk.Adds (added link) (next walk link)) →
        walk.Adds (fun offset => ∃ link ∈ links, added link offset) (links.foldl next walk) := by
  intro links
  induction links with
  | nil =>
      intro walk _ _
      exact ⟨rfl, by simp⟩
  | cons link links induction =>
      intro walk onPath adds
      have first := adds link List.mem_cons_self walk onPath
      have later := induction (first.path.trans onPath) fun other member =>
        adds other (List.mem_cons_of_mem link member)
      refine ⟨later.path.trans first.path, ?_⟩
      intro offset
      rw [List.foldl_cons, later.found, first.found, or_assoc]
      simp only [List.mem_cons, exists_eq_or_imp]

namespace LinkTable

variable {table : LinkTable} {target : Target} {offset : Offset} {entry : FinallyEntry}

/-- What one link contributes to the expansion of its body. -/
def followLink (table : LinkTable) (nested : Nat) (walk : Walk) (link : BackLink) : Walk :=
  table.follow nested link.transfer.target
    { walk with found := walk.found ∪ .ofList link.transfer.traps.offsets }

theorem follow_exitFinally {nested : Nat} {walk : Walk} (fresh : entry.body ∉ walk.path) :
    let inner := (table.backLinks entry.body).foldl (table.followLink nested)
      ⟨entry.body :: walk.path, ∅⟩
    table.follow (nested + 1) (.exitFinally entry) walk =
      ⟨inner.path.erase entry.body, walk.found ∪ inner.found.erase entry.jump⟩ := by
  rw [follow, if_neg fresh]
  rfl

/-- Expanding a body adds what its links lead to, once the traversal of each of
them does. -/
theorem adds_follow_exitFinally {nested : Nat} {walk : Walk} (fresh : entry.body ∉ walk.path)
    (follows : ∀ link ∈ table.backLinks entry.body, ∀ inner : Walk,
      inner.path = entry.body :: walk.path →
        inner.Adds (table.Leads inner.path link.transfer.target)
          (table.follow nested link.transfer.target inner)) :
    walk.Adds (table.Leads walk.path (.exitFinally entry))
      (table.follow (nested + 1) (.exitFinally entry) walk) := by
  have inner : Walk.Adds ⟨entry.body :: walk.path, ∅⟩ (table.Resumes walk.path entry.body)
      ((table.backLinks entry.body).foldl (table.followLink nested)
        ⟨entry.body :: walk.path, ∅⟩) := by
    apply Walk.adds_foldl rfl
    intro link linked inner onPath
    have adds := follows link linked
      { inner with found := inner.found ∪ .ofList link.transfer.traps.offsets } onPath
    refine ⟨adds.path, ?_⟩
    intro offset
    rw [followLink, adds.found, IndexSet.mem_union, IndexSet.mem_ofList, or_assoc, onPath]
  rw [follow_exitFinally fresh]
  refine ⟨?_, ?_⟩
  · rw [inner.path, List.erase_cons_head]
  · intro offset
    simp only [IndexSet.mem_union, IndexSet.mem_erase, inner.found, IndexSet.not_mem_empty,
      false_or, leads_exitFinally_iff, fresh, not_false_eq_true, true_and]

theorem adds_follow :
    ∀ {nested : Nat} {target : Target} {walk : Walk},
      (table.unexpanded walk.path).length < nested →
        walk.Adds (table.Leads walk.path target) (table.follow nested target walk) := by
  intro nested
  -- each expansion takes one body of the table away from those that are left
  induction nested with
  | zero =>
      intro target walk enough
      exact absurd enough (Nat.not_lt_zero _)
  | succ nested induction =>
      intro target walk enough
      cases target with
      | exception thrown => exact ⟨rfl, by simp [follow]⟩
      | ret => exact ⟨rfl, by simp [follow]⟩
      | jump destination flush => exact ⟨rfl, by simp [follow, or_comm]⟩
      | exitFinally entry =>
          by_cases visited : entry.body ∈ walk.path
          · have unchanged : table.follow (nested + 1) (.exitFinally entry) walk = walk := by
              rw [follow, if_pos visited]
            rw [unchanged]
            exact ⟨rfl, by simp [leads_exitFinally_iff, visited]⟩
          · apply adds_follow_exitFinally visited
            intro link linked inner onPath
            have fewer := length_unexpanded_lt (mem_bodies_of_linked linked) visited
            rw [← onPath] at fewer
            exact induction (by omega)

theorem mem_targetOffsets_iff :
    offset ∈ table.targetOffsets target ↔ table.Leads [] target offset := by
  -- the one expansion more is for a body that the table does not know
  have enough : (table.unexpanded []).length < table.size + 1 :=
    Nat.lt_succ_of_le (List.length_filter_le _ _)
  have adds : Walk.Adds ⟨[], ∅⟩ (table.Leads [] target)
      (table.follow (table.size + 1) target ⟨[], ∅⟩) := adds_follow enough
  rw [targetOffsets, adds.found]
  simp

theorem mem_targetOffsets_exitFinally_iff :
    offset ∈ table.targetOffsets (.exitFinally entry) ↔
      (∃ link ∈ table.backLinks entry.body, offset ∈ link.transfer.traps.offsets ∨
        offset ∈ table.targetOffsets link.transfer.target) ∧ offset ≠ entry.jump := by
  simp only [mem_targetOffsets_iff]
  exact leads_nil_exitFinally_iff

/-! ## The least solution -/

theorem mem_of_leads {family : Target → Set Offset} {path : List FinallyBody}
    (solves : table.Solves family) (leads : table.Leads path target offset) :
    offset ∈ family target := by
  induction leads with
  | jump => rw [solves.jump]; rfl
  | trap _ linked atTrap other =>
      obtain ⟨trap, member, possible⟩ := TrapStack.mem_offsets_iff.mp atTrap
      rw [solves.exitFinally]
      refine ⟨?_, other⟩
      simp only [Set.mem_iUnion]
      exact ⟨_, linked, .inl (by simpa using ⟨trap, member, possible⟩)⟩
  | target _ linked _ other induction =>
      rw [solves.exitFinally]
      refine ⟨?_, other⟩
      simp only [Set.mem_iUnion]
      exact ⟨_, linked, .inr induction⟩

/-- The traversal solves the equations of the links, and everything it finds is in
every solution: the bodies that it does not expand again lose no offset and add
none. -/
theorem targetOffsets_isLeast (table : LinkTable) :
    IsLeast {family | table.Solves family}
      fun target => {offset | offset ∈ table.targetOffsets target} := by
  refine ⟨⟨?_, ?_, ?_, ?_⟩, ?_⟩
  · intro destination flush
    ext offset
    simp [mem_targetOffsets_iff]
  · intro thrown
    ext offset
    simp [mem_targetOffsets_iff]
  · ext offset
    simp [mem_targetOffsets_iff]
  · intro entry
    ext offset
    simp [mem_targetOffsets_exitFinally_iff, TrapStack.mem_offsets_iff]
  · intro family solves target offset found
    exact mem_of_leads solves (mem_targetOffsets_iff.mp found)

-- Two bodies that end in each other: what one links to is found from the other as well.
example :
    let first : FinallyEntry := ⟨⟨0⟩, .always, ⟨50⟩⟩
    let second : FinallyEntry := ⟨⟨1⟩, .always, ⟨60⟩⟩
    let table : LinkTable := ⟨2, [⟨first.body, ⟨5⟩, .exitFinally second, []⟩,
      ⟨second.body, ⟨6⟩, .exitFinally first, []⟩, ⟨first.body, ⟨7⟩, .jump ⟨90⟩ [], []⟩]⟩
    table.targetOffsets (.exitFinally second) = .ofList [⟨90⟩] := by decide

end LinkTable

end Unwind
