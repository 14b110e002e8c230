import Mathlib.Data.List.Infix
import Mathlib.Tactic.Common

namespace Carrick
namespace Foundation

/-!
# A linked list with gaps

A node is appended by taking over the last place and storing the link from the
node before it afterwards.  Between the two the list has a gap: the nodes are in
order, and a link is missing that someone is about to store.

`Linked` describes such a list from its first node to its last, for any reading
`next` of the links and any account `pending` of the links to be stored.
-/

universe u

variable {Node : Type u}

/-- Each node links to the one behind it, or a pending store will; the last
node links nowhere. -/
def Linked (null : Node) (next : Node -> Node) (pending : Node -> Node -> Prop) :
    List Node -> Prop
  | [] => True
  | [last] => next last = null
  | first :: second :: rest =>
    (next first = second ∨ next first = null ∧ pending first second) ∧
      Linked null next pending (second :: rest)

/-- `after` stands right behind `before`. -/
def Adjoins (nodes : List Node) (before after : Node) : Prop :=
  [before, after] <:+: nodes

section Places

variable {nodes rest chain : List Node} {first before after other : Node}

theorem infix_of_cons (inside : before :: chain <:+: first :: rest) (different : before ≠ first) :
    before :: chain <:+: rest := by
  rcases List.infix_cons_iff.mp inside with start | later
  · rcases List.cons_prefix_cons.mp start with ⟨same, _⟩
    exact absurd same different
  · exact later

/-- What stands behind the first node of an infix is not the first node of a
list without repetitions. -/
theorem not_first_of_inside (distinct : (first :: rest).Nodup)
    (inside : before :: chain <:+: first :: rest) : first ∉ chain := by
  intro listed
  rcases List.infix_cons_iff.mp inside with start | later
  · rcases List.cons_prefix_cons.mp start with ⟨_, within⟩
    exact (List.nodup_cons.mp distinct).1 (within.subset listed)
  · exact (List.nodup_cons.mp distinct).1 (later.subset (List.mem_cons_of_mem _ listed))

theorem adjoins_first (first second : Node) (rest : List Node) :
    Adjoins (first :: second :: rest) first second :=
  (List.prefix_append [first, second] rest).isInfix

theorem Adjoins.unique (distinct : nodes.Nodup) (one : Adjoins nodes before after)
    (two : Adjoins nodes before other) : after = other := by
  induction nodes with
  | nil =>
    have none := List.infix_nil.mp one
    cases none
  | cons first rest ih =>
    have fewer := (List.nodup_cons.mp distinct)
    rcases List.infix_cons_iff.mp one with start | later
    · rcases List.cons_prefix_cons.mp start with ⟨same, firstAfter⟩
      rcases List.infix_cons_iff.mp two with startTwo | laterTwo
      · rcases List.cons_prefix_cons.mp startTwo with ⟨_, secondAfter⟩
        cases rest with
        | nil =>
          have none := List.prefix_nil.mp firstAfter
          cases none
        | cons second more =>
          rw [(List.cons_prefix_cons.mp firstAfter).1, (List.cons_prefix_cons.mp secondAfter).1]
      · exact absurd (laterTwo.subset (by simp)) (same ▸ fewer.1)
    · rcases List.infix_cons_iff.mp two with startTwo | laterTwo
      · rcases List.cons_prefix_cons.mp startTwo with ⟨same, _⟩
        exact absurd (later.subset (by simp)) (same ▸ fewer.1)
      · exact ih fewer.2 later laterTwo

theorem Adjoins.not_last {front : List Node} {last : Node} (distinct : (front ++ [last]).Nodup)
    (follows : Adjoins (front ++ [last]) before after) : before ≠ last := by
  induction front with
  | nil =>
    intro same
    rcases List.infix_cons_iff.mp follows with start | later
    · have none := List.prefix_nil.mp (List.cons_prefix_cons.mp start).2
      cases none
    · have none := List.infix_nil.mp later
      cases none
  | cons first rest ih =>
    have fewer := List.nodup_cons.mp distinct
    rcases List.infix_cons_iff.mp follows with start | later
    · rintro same
      rw [(List.cons_prefix_cons.mp start).1] at same
      exact fewer.1 (by simp [same])
    · exact ih fewer.2 later

end Places

/-! ## Reading and changing a list with gaps -/

namespace Linked

variable {null : Node} {next later : Node -> Node} {pending awaited : Node -> Node -> Prop}
  {nodes rest chain front : List Node} {first second last before after : Node}

theorem tail (linked : Linked null next pending (first :: rest)) :
    Linked null next pending rest := by
  cases rest with
  | nil => trivial
  | cons second more => exact linked.2

theorem behind (linked : Linked null next pending (first :: rest)) (stored : next first ≠ null) :
    ∃ more, rest = next first :: more := by
  cases rest with
  | nil => exact absurd linked stored
  | cons second more =>
    rcases linked.1 with link | gap
    · rw [link]
      exact ⟨more, rfl⟩
    · exact absurd gap.1 stored

theorem gap (linked : Linked null next pending (first :: second :: rest)) (nonnull : second ≠ null)
    (missing : next first = null) : pending first second := by
  rcases linked.1 with link | gap
  · rw [missing] at link
    exact absurd link.symm nonnull
  · exact gap.2

theorem last_next (linked : Linked null next pending (front ++ [last])) : next last = null := by
  induction front with
  | nil => exact linked
  | cons first rest ih => exact ih linked.tail

theorem weaken (linked : Linked null next pending nodes)
    (same : ∀ node ∈ nodes, later node = next node)
    (implies : ∀ before after, before ∈ nodes -> pending before after ->
      awaited before after) : Linked null later awaited nodes := by
  induction nodes with
  | nil => trivial
  | cons first rest ih =>
    have onward := ih linked.tail
      (fun node listed => same node (List.mem_cons_of_mem _ listed))
      (fun before after listed => implies before after (List.mem_cons_of_mem _ listed))
    have here := same first (by simp)
    cases rest with
    | nil => exact here.trans linked
    | cons second more =>
      refine ⟨?_, onward⟩
      rcases linked.1 with link | gap
      · exact .inl (here.trans link)
      · exact .inr ⟨here.trans gap.1, implies first second (by simp) gap.2⟩

/-- A chain appended behind the last node, with the link to it pending. -/
theorem append (linked : Linked null next pending (front ++ [last]))
    (chained : Linked null next pending (first :: chain)) (awaits : pending last first) :
    Linked null next pending (front ++ [last] ++ first :: chain) := by
  induction front with
  | nil => exact ⟨.inr ⟨linked, awaits⟩, chained⟩
  | cons node rest ih =>
    have onward := ih linked.tail
    cases rest with
    | nil => exact ⟨linked.1, onward⟩
    | cons second more => exact ⟨linked.1, onward⟩

theorem store (linked : Linked null next pending nodes) (distinct : nodes.Nodup)
    (follows : Adjoins nodes before after) (stored : later before = after)
    (same : ∀ node, node ≠ before -> later node = next node)
    (implies : ∀ node behind, node ≠ before -> pending node behind -> awaited node behind) :
    Linked null later awaited nodes := by
  induction nodes with
  | nil => trivial
  | cons first rest ih =>
    have fewer := List.nodup_cons.mp distinct
    by_cases here : before = first
    · subst here
      have onward : Linked null later awaited rest := by
        refine linked.tail.weaken ?_ ?_
        · intro node listed
          refine same node ?_
          rintro rfl
          exact fewer.1 listed
        · intro node behind listed waits
          refine implies node behind ?_ waits
          rintro rfl
          exact fewer.1 listed
      cases rest with
      | nil =>
        have none := List.prefix_nil.mp (List.cons_prefix_cons.mp
          ((List.infix_cons_iff.mp follows).resolve_right (fun wrong => by
            have none := List.infix_nil.mp wrong
            cases none))).2
        cases none
      | cons second more =>
        have behind := Adjoins.unique distinct follows (adjoins_first before second more)
        exact ⟨.inl (stored.trans behind), onward⟩
    · have onward := ih linked.tail fewer.2 (infix_of_cons follows here)
      have kept := same first (fun wrong => here wrong.symm)
      cases rest with
      | nil => exact kept.trans linked
      | cons second more =>
        refine ⟨?_, onward⟩
        rcases linked.1 with link | gap
        · exact .inl (kept.trans link)
        · exact .inr ⟨kept.trans gap.1, implies first second (fun wrong => here wrong.symm) gap.2⟩

end Linked

end Foundation
end Carrick
