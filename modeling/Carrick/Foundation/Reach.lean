import Mathlib.Logic.Relation
import Mathlib.Data.Finset.Card
import Mathlib.Algebra.BigOperators.Group.Finset.Basic
import Mathlib.Tactic.Common

namespace Carrick
namespace Foundation

open Relation

/-!
# Depth-first search of a finitely branching graph

The search keeps a set of visited nodes and a stack of nodes still to look at.
It stops at the goal or when the stack is empty.  Its answer is reachability,
whatever order the successors are listed in, and the work it can do is bounded
by the nodes that have successors at all.
-/

universe u

variable {Node : Type u}

/-- `target` is listed among the successors of `source`. -/
def Follows (next : Node -> List Node) (source target : Node) : Prop := target ∈ next source

/-- The search with its stack's top first; no answer when the fuel ends before
the search does. -/
def search [DecidableEq Node] (next : Node -> List Node) (goal : Node) :
    Nat -> List Node -> List Node -> Option Bool
  | 0, _, _ => none
  | _ + 1, _, [] => some false
  | fuel + 1, visited, node :: rest =>
    if node = goal then some true
    else if node ∈ visited then search next goal fuel visited rest
    else search next goal fuel (node :: visited) ((next node).reverse ++ rest)

section Explored

variable {next : Node -> List Node} {goal : Node}

/-- What the loop keeps true of the visited nodes: none is the goal, and each
of their successors is visited or waits on the stack. -/
def Explored (next : Node -> List Node) (goal : Node) (visited frontier : List Node) : Prop :=
  ∀ node ∈ visited, node ≠ goal ∧
    ∀ target ∈ next node, target ∈ visited ∨ target ∈ frontier

theorem Explored.skip {visited rest : List Node} {node : Node}
    (explored : Explored next goal visited (node :: rest)) (seen : node ∈ visited) :
    Explored next goal visited rest := by
  intro other listed
  refine ⟨(explored other listed).1, ?_⟩
  intro target successor
  rcases (explored other listed).2 target successor with before | waiting
  · exact .inl before
  · rcases List.mem_cons.mp waiting with same | later
    · exact .inl (same ▸ seen)
    · exact .inr later

theorem Explored.visit {visited rest : List Node} {node : Node}
    (explored : Explored next goal visited (node :: rest)) (missed : node ≠ goal) :
    Explored next goal (node :: visited) ((next node).reverse ++ rest) := by
  intro other listed
  rcases List.mem_cons.mp listed with same | before
  · subst same
    refine ⟨missed, ?_⟩
    intro target successor
    exact .inr (by simp [successor])
  refine ⟨(explored other before).1, ?_⟩
  intro target successor
  rcases (explored other before).2 target successor with earlier | waiting
  · exact .inl (by simp [earlier])
  · rcases List.mem_cons.mp waiting with same | later
    · exact .inl (by simp [same])
    · exact .inr (by simp [later])

theorem Explored.reaches {closed : List Node} (final : Explored next goal closed [])
    {node target : Node} (listed : node ∈ closed)
    (path : ReflTransGen (Follows next) node target) : target ∈ closed := by
  induction path with
  | refl => exact listed
  | tail _ edge ih =>
    rcases (final _ ih).2 _ edge with inside | impossible
    · exact inside
    · cases impossible

end Explored

section Answer

variable [DecidableEq Node] {next : Node -> List Node} {goal : Node}

theorem search_true_reaches (fuel : Nat) : ∀ (visited frontier : List Node),
    search next goal fuel visited frontier = some true ->
      ∃ node ∈ frontier, ReflTransGen (Follows next) node goal := by
  induction fuel with
  | zero =>
    intro visited frontier found
    cases found
  | succ fuel ih =>
    intro visited frontier found
    cases frontier with
    | nil => cases found
    | cons node rest =>
      unfold search at found
      by_cases arrived : node = goal
      · exact ⟨node, by simp, arrived ▸ ReflTransGen.refl⟩
      rw [if_neg arrived] at found
      by_cases seen : node ∈ visited
      · rw [if_pos seen] at found
        rcases ih _ _ found with ⟨other, listed, path⟩
        exact ⟨other, by simp [listed], path⟩
      rw [if_neg seen] at found
      rcases ih _ _ found with ⟨other, listed, path⟩
      rcases List.mem_append.mp listed with successor | waiting
      · exact ⟨node, by simp, ReflTransGen.head (List.mem_reverse.mp successor) path⟩
      · exact ⟨other, by simp [waiting], path⟩

/-- A search that ends without the goal leaves a closed set of nodes. -/
theorem search_false_closed (fuel : Nat) : ∀ (visited frontier : List Node),
    Explored next goal visited frontier ->
    search next goal fuel visited frontier = some false ->
      ∃ closed : List Node, (∀ node ∈ frontier, node ∈ closed) ∧
        (∀ node ∈ visited, node ∈ closed) ∧
        Explored next goal closed [] := by
  induction fuel with
  | zero =>
    intro visited frontier _ ended
    cases ended
  | succ fuel ih =>
    intro visited frontier explored ended
    cases frontier with
    | nil => exact ⟨visited, by simp, fun _ listed => listed, explored⟩
    | cons node rest =>
      unfold search at ended
      by_cases arrived : node = goal
      · rw [if_pos arrived] at ended
        cases ended
      rw [if_neg arrived] at ended
      by_cases seen : node ∈ visited
      · rw [if_pos seen] at ended
        rcases ih _ _ (explored.skip seen) ended with
          ⟨closed, waiting, kept, final⟩
        refine ⟨closed, ?_, kept, final⟩
        intro other listed
        rcases List.mem_cons.mp listed with same | later
        · exact kept other (same ▸ seen)
        · exact waiting other later
      rw [if_neg seen] at ended
      rcases ih _ _ (explored.visit arrived) ended with
        ⟨closed, waiting, kept, final⟩
      refine ⟨closed, ?_, fun other listed => kept other (by simp [listed]), final⟩
      intro other listed
      rcases List.mem_cons.mp listed with same | later
      · exact kept other (by simp [same])
      · exact waiting other (by simp [later])

theorem search_iff_reaches {fuel : Nat} {node : Node} {answer : Bool}
    (ended : search next goal fuel [] [node] = some answer) :
    answer = true <-> ReflTransGen (Follows next) node goal := by
  constructor
  · intro found
    subst found
    rcases search_true_reaches fuel [] [node] ended with ⟨other, listed, path⟩
    rw [List.mem_singleton.mp listed] at path
    exact path
  intro path
  cases answer with
  | true => rfl
  | false =>
    have start : Explored next goal [] [node] := by
      intro other listed
      cases listed
    rcases search_false_closed fuel [] [node] start ended with ⟨closed, waiting, _, final⟩
    have inside := final.reaches (waiting node (by simp)) path
    exact absurd rfl (final goal inside).1

/-! ## Termination -/

/-- The successors the search may still push: those of the unvisited sources. -/
def unspent (next : Node -> List Node) (sources : Finset Node) (visited : List Node) : Nat :=
  ∑ node ∈ sources.filter (fun node => node ∉ visited), (next node).length

theorem unspent_visit {sources : Finset Node} {visited : List Node} {node : Node}
    (bounded : next node ≠ [] -> node ∈ sources) (fresh : node ∉ visited) :
    unspent next sources (node :: visited) + (next node).length = unspent next sources visited := by
  have erased : sources.filter (fun other => other ∉ node :: visited) =
      (sources.filter (fun other => other ∉ visited)).erase node := by
    ext other
    simp only [Finset.mem_filter, Finset.mem_erase, List.mem_cons, not_or]
    tauto
  unfold unspent
  rw [erased]
  by_cases listed : node ∈ sources
  · exact Finset.sum_erase_add _ _ (by simp [listed, fresh])
  have leaf : next node = [] := by
    by_contra branching
    exact listed (bounded branching)
  rw [Finset.erase_eq_of_notMem (by simp [listed]), leaf]
  rfl

/-- The search ends once its fuel exceeds the stack and the successors that
the unvisited sources can still push. -/
theorem search_ends (sources : Finset Node)
    (bounded : ∀ node, next node ≠ [] -> node ∈ sources) (fuel : Nat) :
    ∀ (visited frontier : List Node),
      frontier.length + unspent next sources visited < fuel ->
      ∃ answer, search next goal fuel visited frontier = some answer := by
  induction fuel with
  | zero =>
    intro visited frontier enough
    cases enough
  | succ fuel ih =>
    intro visited frontier enough
    cases frontier with
    | nil => exact ⟨false, rfl⟩
    | cons node rest =>
      rw [List.length_cons] at enough
      unfold search
      by_cases arrived : node = goal
      · exact ⟨true, by rw [if_pos arrived]⟩
      rw [if_neg arrived]
      by_cases seen : node ∈ visited
      · rw [if_pos seen]
        exact ih visited rest (by omega)
      rw [if_neg seen]
      have spent := unspent_visit (bounded node) seen
      refine ih (node :: visited) ((next node).reverse ++ rest) ?_
      rw [List.length_append, List.length_reverse]
      omega

end Answer

/-! ## Edges given as a list of pairs -/

section Edges

variable [DecidableEq Node]

/-- The targets of a node's edges, in the order they are listed. -/
def targets (edges : List (Node × Node)) (node : Node) : List Node :=
  (edges.filter (fun edge => edge.1 = node)).map Prod.snd

theorem mem_targets {edges : List (Node × Node)} {source target : Node} :
    target ∈ targets edges source <-> (source, target) ∈ edges := by
  unfold targets
  rw [List.mem_map]
  constructor
  · rintro ⟨edge, listed, same⟩
    rw [List.mem_filter] at listed
    have first : edge.1 = source := by simpa using listed.2
    rw [<- same, <- first]
    exact listed.1
  · intro listed
    exact ⟨(source, target), by simp [listed], rfl⟩

theorem unspent_targets (edges : List (Node × Node)) :
    unspent (targets edges) (edges.map Prod.fst).toFinset [] = edges.length := by
  have counted : ∀ node, (targets edges node).length = (edges.map Prod.fst).count node := by
    intro node
    unfold targets
    rw [List.length_map, List.count_eq_countP, List.countP_map, List.countP_eq_length_filter]
    congr 1
  unfold unspent
  simp only [List.not_mem_nil, not_false_eq_true, Finset.filter_true, counted]
  rw [List.sum_toFinset_count_eq_length, List.length_map]

theorem search_targets_ends (edges : List (Node × Node)) (goal node : Node) {fuel : Nat}
    (enough : edges.length + 2 <= fuel) :
    ∃ answer, search (targets edges) goal fuel [] [node] = some answer := by
  refine search_ends (edges.map Prod.fst).toFinset ?_ fuel [] [node] ?_
  · intro source branching
    rcases List.exists_mem_of_ne_nil _ branching with ⟨target, listed⟩
    rw [List.mem_toFinset, List.mem_map]
    exact ⟨(source, target), mem_targets.mp listed, rfl⟩
  · rw [unspent_targets, List.length_singleton]
    omega

end Edges

/-! ## Acyclic relations -/

/-- No node comes back to itself. -/
def Acyclic (relation : Node -> Node -> Prop) : Prop := ∀ node, ¬ TransGen relation node node

theorem Acyclic.mono {small large : Node -> Node -> Prop} (acyclic : Acyclic large)
    (included : ∀ source target, small source target -> large source target) :
    Acyclic small :=
  fun node cycle => acyclic node (TransGen.mono included node node cycle)

/-- A path with one more edge allowed either avoids it or leads to its source
and away from its target. -/
theorem transGen_add_edge {relation : Node -> Node -> Prop} {source target first last : Node}
    (path : TransGen (fun x y => relation x y ∨ (x = source ∧ y = target)) first last) :
    TransGen relation first last ∨
      (ReflTransGen relation first source ∧ ReflTransGen relation target last) := by
  induction path with
  | single edge =>
    rcases edge with old | ⟨atSource, atTarget⟩
    · exact .inl (TransGen.single old)
    · subst atSource atTarget
      exact .inr ⟨.refl, .refl⟩
  | tail _ edge ih =>
    rcases edge with old | ⟨atSource, atTarget⟩
    · rcases ih with avoided | ⟨before, after⟩
      · exact .inl (avoided.tail old)
      · exact .inr ⟨before, after.tail old⟩
    · subst atSource atTarget
      rcases ih with avoided | ⟨before, _⟩
      · exact .inr ⟨avoided.to_reflTransGen, .refl⟩
      · exact .inr ⟨before, .refl⟩

/-- An edge whose target does not lead back to its source closes no cycle. -/
theorem Acyclic.add_edge {relation : Node -> Node -> Prop} (acyclic : Acyclic relation)
    {source target : Node} (apart : ¬ ReflTransGen relation target source) :
    Acyclic (fun x y => relation x y ∨ (x = source ∧ y = target)) := by
  intro node cycle
  rcases transGen_add_edge cycle with old | ⟨before, after⟩
  · exact acyclic node old
  · exact apart (after.trans before)

end Foundation
end Carrick
