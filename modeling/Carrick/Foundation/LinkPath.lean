import Mathlib.Data.List.Basic
import Mathlib.Tactic.Common

namespace Carrick
namespace Foundation

/-!
# Paths along stored links

An intrusive list is a start node, a reading `next` of the links and the nodes met
on the way to a stop node.  A doubly linked list is a path forward and a path back
over the same nodes; removing a node redirects one link on each of them, and
appending one extends the first and starts the second anew.
-/

universe u

variable {Node : Type u}

/-- Following `next` from `start` meets `nodes` and arrives at `stop`. -/
def Path (next : Node -> Node) : Node -> List Node -> Node -> Prop
  | start, [], stop => start = stop
  | start, node :: rest, stop => start = node ∧ Path next (next node) rest stop

namespace Path

variable {next later : Node -> Node} {start middle stop other node : Node}
  {nodes front back : List Node}

theorem append (first : Path next start front middle) (second : Path next middle back stop) :
    Path next start (front ++ back) stop := by
  induction front generalizing start with
  | nil =>
    have same : start = middle := first
    rw [same]
    exact second
  | cons head rest ih => exact ⟨first.1, ih first.2⟩

theorem split (path : Path next start (front ++ back) stop) :
    ∃ middle, Path next start front middle ∧ Path next middle back stop := by
  induction front generalizing start with
  | nil => exact ⟨start, rfl, path⟩
  | cons head rest ih =>
    rcases ih path.2 with ⟨middle, first, second⟩
    exact ⟨middle, ⟨path.1, first⟩, second⟩

theorem split_at (path : Path next start (front ++ node :: back) stop) :
    Path next start front node ∧ Path next (next node) back stop := by
  rcases path.split with ⟨middle, first, second⟩
  rw [second.1] at first
  exact ⟨first, second.2⟩

theorem snoc (path : Path next start front node) (links : next node = stop) :
    Path next start (front ++ [node]) stop :=
  path.append ⟨rfl, links⟩

theorem snoc_inv (path : Path next start (front ++ [node]) stop) :
    Path next start front node ∧ next node = stop := by
  rcases path.split_at with ⟨first, second⟩
  exact ⟨first, second⟩

theorem frame (path : Path next start nodes stop)
    (same : ∀ node ∈ nodes, later node = next node) : Path later start nodes stop := by
  induction nodes generalizing start with
  | nil => exact path
  | cons head rest ih =>
    refine ⟨path.1, ?_⟩
    rw [same head (by simp)]
    exact ih path.2 (fun node listed => same node (List.mem_cons_of_mem _ listed))

theorem redirect (path : Path next start (front ++ [node]) stop) (links : later node = other)
    (same : ∀ node ∈ front, later node = next node) :
    Path later start (front ++ [node]) other :=
  (path.snoc_inv.1.frame same).snoc links

theorem start_eq (path : Path next start nodes stop) : start = nodes.head?.getD stop := by
  cases nodes with
  | nil => exact path
  | cons head rest => exact path.1

/-- A node leaves a path when the link before it leads to the node behind it. -/
theorem bypass {entrance : Node} (path : Path next start (front ++ node :: back) stop)
    (enters : entrance = if front.isEmpty then next node else start)
    (link : ∀ last, front.getLast? = some last -> later last = next node)
    (same : ∀ other ∈ front ++ back, front.getLast? ≠ some other ->
      later other = next other) (once : (front ++ back).Nodup) :
    Path later entrance (front ++ back) stop := by
  rcases path.split_at with ⟨before, behind⟩
  have apart := (List.nodup_append.mp once).2.2
  have kept : Path later (next node) back stop := by
    apply behind.frame
    intro other listed
    refine same other (List.mem_append_right _ listed) ?_
    intro last
    exact apart other (List.mem_of_getLast? last) other listed rfl
  rcases List.eq_nil_or_concat front with none | ⟨earlier, last, shape⟩
  · subst none
    rw [enters]
    exact kept
  rw [List.concat_eq_append] at shape
  subst shape
  rw [if_neg (by simp)] at enters
  rw [enters]
  refine (before.redirect (link last (by simp)) ?_).append kept
  intro other listed
  have onceInFront := (List.nodup_append.mp once).1
  refine same other (by simp [listed]) ?_
  intro wrong
  have equal : last = other := by simpa using wrong
  exact (List.nodup_append.mp onceInFront).2.2 other listed last (by simp) equal.symm

theorem extend {entrance : Node} (path : Path next start nodes stop)
    (enters : entrance = if nodes.isEmpty then node else start) (ends : later node = stop)
    (link : ∀ last, nodes.getLast? = some last -> later last = node)
    (same : ∀ other ∈ nodes, nodes.getLast? ≠ some other ->
      later other = next other) (once : nodes.Nodup) :
    Path later entrance (nodes ++ [node]) stop := by
  rcases List.eq_nil_or_concat nodes with none | ⟨earlier, last, shape⟩
  · subst none
    exact ⟨enters, ends⟩
  rw [List.concat_eq_append] at shape
  subst shape
  rw [if_neg (by simp)] at enters
  rw [enters]
  refine (path.redirect (link last (by simp)) ?_).snoc ends
  intro other listed
  refine same other (by simp [listed]) ?_
  intro wrong
  have equal : last = other := by simpa using wrong
  exact (List.nodup_append.mp once).2.2 other listed last (by simp) equal.symm

end Path

end Foundation
end Carrick
