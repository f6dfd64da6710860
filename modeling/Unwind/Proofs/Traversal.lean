import Unwind.Proofs.Reachability

/-!
# Traversals end and leave their path as it was

The traversal of a table calls itself for the links of every body that it expands,
and one walk is handed from call to call: a body is put on the path before its
links are followed and taken off after them.  `Traverses` is this recursion without
a budget.  It keeps account of how many expansions may lie inside one another, but
it has no rule for a body that is met when none is left.

No body is expanded inside itself, and a body that the table does not know has no
links.  A traversal therefore needs no more nested expansions than there are bodies
of the table off its path, and one for a last body outside the table.  Then it is
the only traversal, it is back on its path, and what it adds to the offsets found
depends on the path and the target alone.
-/

set_option autoImplicit false

namespace Unwind

/-- What a traversal has before it: a target, or the transfers of links in turn. -/
inductive Pending where
  | target (target : Target)
  | links (links : List BackLink)

theorem Walk.Adds.eq_union {walk after : Walk} {added : Offset → Prop} {offsets : IndexSet Offset}
    (adds : walk.Adds added after) (members : ∀ offset, offset ∈ offsets ↔ added offset) :
    after = ⟨walk.path, walk.found ∪ offsets⟩ := by
  obtain ⟨path, found⟩ := after
  have samePath : path = walk.path := adds.path
  have sameFound : found = walk.found ∪ offsets := by
    apply IndexSet.eq_of_mem_iff
    intro offset
    rw [IndexSet.mem_union, members]
    exact adds.found offset
  rw [samePath, sameFound]

namespace LinkTable

variable {table : LinkTable} {nested : Nat} {pending : Pending} {target : Target}
  {path : List FinallyBody} {found : IndexSet Offset} {walk after : Walk}

/-- The traversal of what is pending takes one walk to the other, with at most the
given number of expansions inside one another. -/
inductive Traverses (table : LinkTable) : Nat → Pending → Walk → Walk → Prop
  | exception {nested : Nat} {thrown : Constraint} {walk : Walk} :
      Traverses table nested (.target (.exception thrown)) walk walk
  | ret {nested : Nat} {walk : Walk} : Traverses table nested (.target .ret) walk walk
  | jump {nested : Nat} {offset : Offset} {flush : List String} {walk : Walk} :
      Traverses table nested (.target (.jump offset flush)) walk
        { walk with found := walk.found.insert offset }
  | visited {nested : Nat} {entry : FinallyEntry} {walk : Walk} :
      entry.body ∈ walk.path → Traverses table nested (.target (.exitFinally entry)) walk walk
  | expand {nested : Nat} {entry : FinallyEntry} {walk inner : Walk} :
      entry.body ∉ walk.path →
        Traverses table nested (.links (table.backLinks entry.body))
          ⟨entry.body :: walk.path, ∅⟩ inner →
        Traverses table (nested + 1) (.target (.exitFinally entry)) walk
          ⟨inner.path.erase entry.body, walk.found ∪ inner.found.erase entry.jump⟩
  | done {nested : Nat} {walk : Walk} : Traverses table nested (.links []) walk walk
  | next {nested : Nat} {link : BackLink} {links : List BackLink} {walk middle after : Walk} :
      Traverses table nested (.target link.transfer.target)
        { walk with found := walk.found ∪ .ofList link.transfer.traps.offsets } middle →
        Traverses table nested (.links links) middle after →
          Traverses table nested (.links (link :: links)) walk after

theorem Traverses.unique (traverses : table.Traverses nested pending walk after) :
    ∀ {otherNested : Nat} {other : Walk},
      table.Traverses otherNested pending walk other → other = after := by
  induction traverses with
  | exception =>
      intro otherNested other again
      cases again
      rfl
  | ret =>
      intro otherNested other again
      cases again
      rfl
  | jump =>
      intro otherNested other again
      cases again
      rfl
  | visited onPath =>
      intro otherNested other again
      cases again with
      | visited => rfl
      | expand fresh => exact absurd onPath fresh
  | expand fresh _ induction =>
      intro otherNested other again
      cases again with
      | visited onPath => exact absurd onPath fresh
      | expand _ links => rw [induction links]
  | done =>
      intro otherNested other again
      cases again
      rfl
  | next _ _ first later =>
      intro otherNested other again
      cases again with
      | next otherFirst otherLater =>
          obtain rfl := first otherFirst
          exact later otherLater

/-! ## The budget is enough -/

/-- The links of a body are traversed in turn, as long as each of them leaves the
path as it was. -/
theorem traverses_foldl :
    ∀ {links : List BackLink} {walk : Walk}, walk.path = path →
      (∀ link ∈ links, ∀ inner : Walk, inner.path = path →
        table.Traverses nested (.target link.transfer.target) inner
            (table.follow nested link.transfer.target inner) ∧
          (table.follow nested link.transfer.target inner).path = path) →
        table.Traverses nested (.links links) walk (links.foldl (table.followLink nested) walk) := by
  intro links
  induction links with
  | nil =>
      intro walk _ _
      exact .done
  | cons link links induction =>
      intro walk onPath follows
      obtain ⟨first, backOnPath⟩ := follows link List.mem_cons_self
        { walk with found := walk.found ∪ .ofList link.transfer.traps.offsets } onPath
      refine .next first (induction backOnPath ?_)
      intro other member
      exact follows other (List.mem_cons_of_mem link member)

theorem traverses_follow :
    ∀ {nested : Nat} {target : Target} {walk : Walk},
      (table.unexpanded walk.path).length < nested →
        table.Traverses nested (.target target) walk (table.follow nested target walk) := by
  intro nested
  induction nested with
  | zero =>
      intro target walk enough
      exact absurd enough (Nat.not_lt_zero _)
  | succ nested induction =>
      intro target walk enough
      cases target with
      | exception thrown => exact .exception
      | ret => exact .ret
      | jump destination flush => exact .jump
      | exitFinally entry =>
          by_cases onPath : entry.body ∈ walk.path
          · rw [follow, if_pos onPath]
            exact .visited onPath
          · rw [follow_exitFinally onPath]
            refine .expand onPath (traverses_foldl rfl ?_)
            -- a body that has a link is one of the table, and is no longer among those left
            intro link linked inner (atBody : inner.path = entry.body :: walk.path)
            have fewer := length_unexpanded_lt (mem_bodies_of_linked linked) onPath
            rw [← atBody] at fewer
            have enoughInside : (table.unexpanded inner.path).length < nested := by omega
            exact ⟨induction enoughInside, (adds_follow enoughInside).path.trans atBody⟩

/-- What a traversal on a path adds to the offsets that are found already. -/
def offsetsBeyond (table : LinkTable) (path : List FinallyBody) (target : Target) :
    IndexSet Offset :=
  (table.follow ((table.unexpanded path).length + 1) target ⟨path, ∅⟩).found

theorem follow_eq (enough : (table.unexpanded path).length < nested) :
    table.follow nested target ⟨path, found⟩ = ⟨path, found ∪ table.offsetsBeyond path target⟩ := by
  have adds : Walk.Adds ⟨path, found⟩ (table.Leads path target)
      (table.follow nested target ⟨path, found⟩) := adds_follow enough
  have fromNothing : Walk.Adds ⟨path, ∅⟩ (table.Leads path target)
      (table.follow ((table.unexpanded path).length + 1) target ⟨path, ∅⟩) :=
    adds_follow (Nat.lt_succ_self _)
  apply adds.eq_union
  intro offset
  rw [offsetsBeyond, fromNothing.found]
  simp

/-- Whatever the links, the bodies on the path and the offsets found before, a
traversal ends, and it needs at most one nested expansion more than there are bodies
of the table off the path.  It ends in one way only: on the path where it began, with
offsets added that do not depend on those found before.  A budget of that many
expansions or more changes nothing about it. -/
theorem traversal_ends_on_its_path (table : LinkTable) (target : Target)
    (path : List FinallyBody) :
    ∃ added : IndexSet Offset, ∀ found : IndexSet Offset,
      table.Traverses ((table.unexpanded path).length + 1) (.target target)
          ⟨path, found⟩ ⟨path, found ∪ added⟩ ∧
        (∀ after, (∃ nested, table.Traverses nested (.target target) ⟨path, found⟩ after) ↔
          after = ⟨path, found ∪ added⟩) ∧
        ∀ spare, table.follow ((table.unexpanded path).length + 1 + spare) target ⟨path, found⟩ =
          ⟨path, found ∪ added⟩ := by
  refine ⟨table.offsetsBeyond path target, ?_⟩
  intro found
  have ends : table.Traverses ((table.unexpanded path).length + 1) (.target target)
      ⟨path, found⟩ ⟨path, found ∪ table.offsetsBeyond path target⟩ := by
    have enough := Nat.lt_succ_self (table.unexpanded path).length
    rw [← follow_eq enough]
    exact traverses_follow enough
  refine ⟨ends, ?_, ?_⟩
  · intro after
    constructor
    · rintro ⟨nested, traverses⟩
      exact ends.unique traverses
    · rintro rfl
      exact ⟨_, ends⟩
  · intro spare
    exact follow_eq (by omega)

-- A body that ends in itself is on the path again inside its own expansion.
example :
    let entry : FinallyEntry := ⟨⟨0⟩, .always, ⟨50⟩⟩
    let table : LinkTable := ⟨1, [⟨entry.body, ⟨60⟩, .exitFinally entry,
      [⟨0, ⟨0⟩, .enters entry⟩, ⟨1, ⟨0⟩, .catchAll ⟨7⟩⟩]⟩]⟩
    table.follow 2 (.exitFinally entry) ⟨[⟨3⟩], .ofList [⟨90⟩]⟩ =
      ⟨[⟨3⟩], .ofList [⟨7⟩, ⟨90⟩]⟩ := by
  decide

end LinkTable

end Unwind
