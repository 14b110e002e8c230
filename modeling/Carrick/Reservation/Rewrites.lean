import Carrick.Reservation.Calls
import Carrick.Reservation.Edits

namespace Carrick
namespace Reservation

open Foundation
open Command

/-!
# Rewriting the nodes of a range

A protection or attribute edit walks a range that was cut at both ends and
replaces one node after the other by an edited copy, which may coalesce with
its neighbours.  The walk can meet a node that it edited already, because the
copy absorbed the next node; such a node is a fixed point of the edit.
-/

/-- An edit of the protection and the attributes that does nothing the second
time. -/
structure Recolour where
  prot : ReservationProtection -> ReservationProtection
  flags : ReservationNodeFlags -> ReservationNodeFlags
  prot_again : ∀ old, prot (prot old) = prot old
  flags_again : ∀ old, flags (flags old) = flags old

def Recolour.cell (change : Recolour) (cell : Cell) : Cell :=
  { cell with prot := change.prot cell.prot, flags := change.flags cell.flags }

def Recolour.node (change : Recolour) (node : Node) : Node :=
  { node with prot := change.prot node.prot, flags := change.flags node.flags }

/-- The edit does nothing to this node. -/
def Recolour.Fixes (change : Recolour) (node : Node) : Prop :=
  change.prot node.prot = node.prot ∧ change.flags node.flags = node.flags

theorem Recolour.Fixes.cell_eq {change : Recolour} {node : Node} (fixed : change.Fixes node)
    (address : Nat) : change.cell (node.cell address) = node.cell address := by
  unfold Recolour.cell Node.cell
  dsimp only
  rw [fixed.1, fixed.2]

section Walk

variable {change : Recolour} {range : ReservationRange}

/-- The map after a walk has reached the cursor: edited below it, old above.  A
node across the cursor is one that the edit leaves alone. -/
structure RewrittenTo (change : Recolour) (range : ReservationRange) (cursor : Nat)
    (before after : MappingTree) : Prop where
  tidy : Tidy after
  started : range.start <= cursor
  cells_eq : ∀ address, cells after address =
    if range.start <= address ∧ address < cursor then (cells before address).map change.cell
    else cells before address
  straddler : ∀ node ∈ after.toList, node.start < cursor -> cursor < node.stop ->
    change.Fixes node
  stop_cut : cursor < range.stop -> Cut after range.stop
  sources : Reaching before -> Reaching after ∧ ∀ name, total after name = total before name

variable {tree : MappingTree}

theorem RewrittenTo.start (tidy : Tidy tree) (cutStart : Cut tree range.start)
    (cutStop : Cut tree range.stop) : RewrittenTo change range range.start tree tree := by
  refine ⟨tidy, le_rfl, ?_, ?_, fun _ => cutStop, fun reaching => ⟨reaching, fun _ => rfl⟩⟩
  · intro address
    rw [if_neg (by omega)]
  · intro node member below above
    rcases cutStart node member with low | high <;> omega

variable {cursor : Nat} {before : MappingTree}

/-- Between the cursor and the first node above it nothing is mapped, so the
walk may be taken to have passed it. -/
theorem RewrittenTo.skip_hole {reached : Nat} (walk : RewrittenTo change range cursor before tree)
    (ahead : cursor <= reached)
    (hole : ∀ node ∈ tree.toList, node.stop <= cursor ∨ reached <= node.start) :
    RewrittenTo change range reached before tree := by
  have started := walk.started
  refine ⟨walk.tidy, by omega, ?_, ?_, fun _ => walk.stop_cut (by omega), walk.sources⟩
  · intro address
    rw [walk.cells_eq]
    by_cases low : range.start <= address ∧ address < cursor
    · rw [if_pos low, if_pos (by omega)]
    rw [if_neg low]
    by_cases passed : range.start <= address ∧ address < reached
    · rw [if_pos passed]
      have absent : cells tree address = none := by
        rw [cells_eq_none_iff]
        intro node member covers
        unfold Node.covers at covers
        rcases hole node member with below | above <;> omega
      have here := walk.cells_eq address
      rw [if_neg low, absent] at here
      rw [<- here]
      rfl
    · rw [if_neg passed]
  · intro node member below above
    rcases hole node member with low | high <;> omega

theorem RewrittenTo.skip_node {node : Node} (walk : RewrittenTo change range cursor before tree)
    (member : node ∈ tree.toList) (here : node.start <= cursor) (ahead : cursor < node.stop)
    (fixed : change.Fixes node) :
    RewrittenTo change range node.stop before tree := by
  have started := walk.started
  refine ⟨walk.tidy, by omega, ?_, ?_, fun more => walk.stop_cut (by omega), walk.sources⟩
  · intro address
    rw [walk.cells_eq]
    by_cases low : range.start <= address ∧ address < cursor
    · rw [if_pos low, if_pos (by omega)]
    rw [if_neg low]
    by_cases passed : range.start <= address ∧ address < node.stop
    · rw [if_pos passed]
      have covers : node.covers address := by
        unfold Node.covers
        omega
      have found := walk.cells_eq address
      rw [if_neg low, cells_of_mem walk.tidy member covers] at found
      rw [<- found, Option.map_some, fixed.cell_eq]
    · rw [if_neg passed]
  · intro other otherMember below above
    rcases walk.tidy.disjoint otherMember member with rfl | low | high <;> omega

theorem rewriteNode_spec (change : Recolour) (root : Root) (tidy : Tidy root.tree) {node : Node}
    (member : node ∈ root.tree.toList) :
    ∃ tree merged, insertCoalescing (change.node node)
        { root with tree := eraseNode node.start root.tree } = (.ok (), { root with tree := tree }) ∧
      Coalesced (eraseNode node.start root.tree) (change.node node) tree merged ∧
      (∀ address, cells tree address =
        if node.covers address then some (change.cell (node.cell address))
        else cells root.tree address) ∧
      (Reaching root.tree -> Reaching tree ∧
        ∀ name, total tree name = total root.tree name) := by
  have formed := tidy.formed node member
  have editedFormed : (change.node node).WellFormed :=
    ⟨formed.ordered, formed.start_aligned, formed.stop_aligned, formed.in_word⟩
  have free := free_erase tidy member
  rcases insertCoalescing_spec { root with tree := eraseNode node.start root.tree } (tidy.erase _)
    editedFormed free with ⟨tree, merged, ran, coalesced⟩
  refine ⟨tree, merged, ran, coalesced, ?_, ?_⟩
  · intro address
    rw [coalesced.recut.cells_eq, cells_insert (tidy.erase _) editedFormed free,
      cells_erase tidy member]
    have coverage : (change.node node).covers address <-> node.covers address := Iff.rfl
    rw [if_congr coverage rfl rfl]
    split <;> rfl
  intro reaching
  have reaches : (change.node node).Reaches := reaching node member
  rcases coalesced.recut.sources ((reaching.erase tidy _).insert reaches) with ⟨after, totals⟩
  refine ⟨after, fun name => ?_⟩
  have weight : (change.node node).weight name = node.weight name := rfl
  rw [totals, total_insert, total_erase tidy member, weight]

variable {root : Root}

theorem RewrittenTo.rewrite {node : Node}
    (walk : RewrittenTo change range cursor before root.tree) (inside : cursor < range.stop)
    (member : node ∈ root.tree.toList) (here : node.start <= cursor) (ahead : cursor < node.stop) :
    ∃ tree, insertCoalescing (change.node node)
        { root with tree := eraseNode node.start root.tree } = (.ok (), { root with tree := tree }) ∧
      RewrittenTo change range node.stop before tree := by
  have tidy := walk.tidy
  have started := walk.started
  have cutStop := walk.stop_cut inside
  rcases rewriteNode_spec change root tidy member with
    ⟨tree, merged, ran, coalesced, cellsAfter, sourcesAfter⟩
  refine ⟨tree, ran, coalesced.recut.tidy, by omega, ?_, ?_, ?_, ?_⟩
  · intro address
    rw [cellsAfter, walk.cells_eq]
    by_cases covers : node.covers address
    · have low : node.start <= address := covers.1
      have high : address < node.stop := covers.2
      have found := walk.cells_eq address
      rw [cells_of_mem tidy member covers] at found
      rw [if_pos covers]
      by_cases reached : cursor <= address
      · rw [if_neg (by omega)] at found
        rw [if_pos (by omega), <- found, Option.map_some]
      · rw [(walk.straddler node member (by omega) ahead).cell_eq, found]
        by_cases above : range.start <= address
        · rw [if_pos (by omega), if_pos (by omega)]
        · rw [if_neg (by omega), if_neg (by omega)]
    · rw [if_neg covers]
      have apart : address < node.start ∨ node.stop <= address := by
        unfold Node.covers at covers
        omega
      by_cases below : range.start <= address ∧ address < cursor
      · rw [if_pos below, if_pos (by omega)]
      · rw [if_neg below, if_neg (by omega)]
  · intro other otherMember below above
    rcases coalesced.members other otherMember with rfl | old
    · refine ⟨?_, ?_⟩
      · rw [coalesced.prot_eq]
        exact change.prot_again node.prot
      · rw [coalesced.flags_eq]
        exact change.flags_again node.flags
    rcases (mem_eraseNode tidy member).mp old with ⟨kept, different⟩
    rcases tidy.disjoint kept member with same | low | high
    · exact absurd same different
    · omega
    · omega
  · intro more other otherMember
    rcases coalesced.members other otherMember with rfl | old
    · rcases coalesced.stop_eq with same | ⟨right, rightMember, meet, stop⟩
      · have stopEq : other.stop = node.stop := same
        exact .inl (by omega)
      · have meetEq : right.start = node.stop := meet
        rcases cutStop right ((mem_eraseNode tidy member).mp rightMember).1 with low | high <;> omega
    · exact cutStop other ((mem_eraseNode tidy member).mp old).1
  · intro reaching
    rcases walk.sources reaching with ⟨middle, totals⟩
    rcases sourcesAfter middle with ⟨after, later⟩
    exact ⟨after, fun name => (later name).trans (totals name)⟩

/-- The walk, with its cursor on a page boundary, once it has found the first
node that ends above the cursor. -/
theorem RewrittenTo.found {node : Node} (walk : RewrittenTo change range cursor before root.tree)
    (inside : cursor < range.stop) (found : root.next cursor = some node)
    (starts : node.start < range.stop) (aligned : cursor % pageSize = 0) :
    node ∈ root.tree.toList ∧ node.stop <= range.stop ∧ cursor + pageSize <= node.stop ∧
      node.stop % pageSize = 0 ∧
      RewrittenTo change range (max cursor node.start) before root.tree ∧
      node.start <= max cursor node.start ∧ max cursor node.start < node.stop ∧
      max cursor node.start < range.stop := by
  rcases next_eq_some walk.tidy found with ⟨member, reaches, others⟩
  have formed := walk.tidy.formed node member
  have ordered := formed.ordered
  have stopAligned := formed.stop_aligned
  have below : node.stop <= range.stop := by
    rcases walk.stop_cut inside node member with low | high <;> omega
  have paged : cursor + pageSize <= node.stop := by
    unfold pageSize at *
    omega
  refine ⟨member, below, paged, stopAligned, ?_, Nat.le_max_right _ _, by omega, by omega⟩
  by_cases straddling : node.start <= cursor
  · rw [Nat.max_eq_left straddling]
    exact walk
  rw [Nat.max_eq_right (by omega)]
  refine walk.skip_hole (by omega) ?_
  intro other otherMember
  by_cases same : other = node
  · exact .inr (Nat.le_of_eq (congrArg Node.start same.symm))
  · rcases others other otherMember same with low | high
    · exact .inl low.1
    · exact .inr (by omega)

theorem RewrittenTo.exhausted (walk : RewrittenTo change range cursor before root.tree)
    (within : cursor <= range.stop)
    (none : (root.next cursor).filter (fun node => decide (node.start < range.stop)) = none) :
    RewrittenTo change range range.stop before root.tree := by
  refine walk.skip_hole within ?_
  intro node member
  cases found : root.next cursor with
  | none => exact .inl (next_eq_none walk.tidy found node member)
  | some first =>
    rw [found, Option.filter_some] at none
    have beyond : range.stop <= first.start := by
      by_contra inside
      rw [if_pos (decide_eq_true (by omega))] at none
      cases none
    rcases next_eq_some walk.tidy found with ⟨firstMember, _, others⟩
    have ordered := (walk.tidy.formed first firstMember).ordered
    by_cases same : node = first
    · exact .inr (same ▸ beyond)
    · rcases others node member same with low | high
      · exact .inl low.1
      · exact .inr (by omega)

end Walk

/-! ## The two walks -/

def protectAs (prot : ReservationProtection) : Recolour where
  prot := fun _ => prot
  flags := id
  prot_again := fun _ => rfl
  flags_again := fun _ => rfl

theorem union_difference_again (old set clear : ReservationNodeFlags) :
    ((((old.union set).difference clear).union set).difference clear) =
      (old.union set).difference clear := by
  unfold ReservationNodeFlags.union ReservationNodeFlags.difference
  ext index
  simp only [BitVec.getElem_and, BitVec.getElem_or, BitVec.getElem_not]
  cases old[index] <;> cases set[index] <;> cases clear[index] <;> rfl

def attributesAs (set clear : ReservationNodeFlags) : Recolour where
  prot := id
  flags := fun old => (old.union set).difference clear
  prot_again := fun _ => rfl
  flags_again := fun old => union_difference_again old set clear

theorem reprotectNodes_spec (range : ReservationRange) (prot : ReservationProtection) (fuel : Nat)
    (root : Root) {cursor : Nat} {before : MappingTree}
    (walk : RewrittenTo (protectAs prot) range cursor before root.tree)
    (within : cursor <= range.stop) (aligned : cursor % pageSize = 0)
    (enough : range.stop <= cursor + fuel * pageSize) :
    ∃ tree, reprotectNodes range prot fuel cursor root = (.ok (), { root with tree := tree }) ∧
      RewrittenTo (protectAs prot) range range.stop before tree := by
  induction fuel generalizing cursor root with
  | zero =>
    have reached : cursor = range.stop := by omega
    exact ⟨root.tree, rfl, reached ▸ walk⟩
  | succ fuel ih =>
    rw [reprotectNodes]
    by_cases inside : cursor < range.stop
    · rw [if_pos inside, observe_bind_apply]
      cases found : (root.next cursor).filter (fun node => decide (node.start < range.stop)) with
      | none => exact ⟨root.tree, rfl, walk.exhausted within found⟩
      | some node =>
        rcases Option.filter_eq_some_iff.mp found with ⟨searched, starts⟩
        rcases walk.found inside searched (of_decide_eq_true starts) aligned with
          ⟨member, below, paged, stopAligned, ready, low, high, before⟩
        rcases ready.rewrite before member low high with ⟨tree, ran, rewritten⟩
        have remaining : range.stop <= node.stop + fuel * pageSize := by
          unfold pageSize at *
          omega
        rcases ih { root with tree := tree } rewritten below stopAligned
          remaining with ⟨last, ranRest, done⟩
        exact ⟨last, (bind_of_ok ran).trans ranRest, done⟩
    · rw [if_neg inside]
      have reached : cursor = range.stop := by omega
      exact ⟨root.tree, rfl, reached ▸ walk⟩

theorem reprotectRange_spec (range : ReservationRange) (prot : ReservationProtection)
    (spares : List SpareNode) {root : Root} (tidy : Tidy root.tree) :
    ∃ answer tree, reprotectRange range prot spares root = (answer, { root with tree := tree }) ∧
      Tidy tree ∧
      (∀ reason, answer = .error reason -> ∀ address, cells tree address =
        cells root.tree address) ∧
      (∀ rest, answer = .ok rest -> ∀ address, cells tree address =
        if range.contains address = true then (cells root.tree address).map (protectAs prot).cell
        else cells root.tree address) ∧
      (root.splitsNeeded range <= spares.length -> Counted root ->
        (∃ rest, answer = .ok rest) ∧ Counted { root with tree := tree }) := by
  rcases splitBounds_spec range spares tidy with ⟨cutTree, answer, ran, recut, _, done, enough⟩
  unfold reprotectRange
  cases answer with
  | error reason =>
    refine ⟨.error reason, cutTree, bind_of_error ran, recut.tidy, fun _ _ => recut.cells_eq,
      nofun, ?_⟩
    intro room _
    rcases enough room with ⟨rest, wrong⟩
    cases wrong
  | ok rest =>
    rcases done rest rfl with ⟨cutStart, cutStop, _⟩
    rcases reprotectNodes_spec range prot range.pages { root with tree := cutTree }
      (RewrittenTo.start recut.tidy cutStart cutStop) (Nat.le_of_lt range.ordered)
      range.start_aligned range.le_pages with ⟨tree, walked, rewritten⟩
    refine ⟨.ok rest, tree, ?_, rewritten.tidy, nofun, ?_, ?_⟩
    · rw [bind_of_ok ran, bind_of_ok walked]
      rfl
    · intro _ _ address
      rw [rewritten.cells_eq, recut.cells_eq]
      exact if_congr ReservationRange.contains_iff.symm rfl rfl
    intro _ counted
    have middle := counted.recut recut
    rcases rewritten.sources middle.reaching with ⟨reaching, totals⟩
    refine ⟨⟨rest, rfl⟩, middle.index.congr ⟨rfl, rfl⟩, reaching, fun name => ?_⟩
    rw [totals]
    exact middle.counts name

theorem rewriteFlags_spec (range : ReservationRange) (set clear : ReservationNodeFlags)
    (fuel : Nat) (root : Root) {cursor : Nat} {before : MappingTree}
    (walk : RewrittenTo (attributesAs set clear) range cursor before root.tree)
    (within : cursor <= range.stop) (aligned : cursor % pageSize = 0)
    (enough : range.stop <= cursor + fuel * pageSize)
    (covered : ∀ address, range.contains address = true -> cells before address ≠ none) :
    ∃ tree, rewriteFlags range set clear fuel cursor root =
        (.ok (), { root with tree := tree }) ∧
      RewrittenTo (attributesAs set clear) range range.stop before tree := by
  induction fuel generalizing cursor root with
  | zero =>
    have reached : cursor = range.stop := by omega
    exact ⟨root.tree, rfl, reached ▸ walk⟩
  | succ fuel ih =>
    rw [rewriteFlags]
    by_cases inside : cursor < range.stop
    · have started := walk.started
      have held : cells root.tree cursor ≠ none := by
        have here := walk.cells_eq cursor
        rw [if_neg (by omega)] at here
        rw [here]
        exact covered cursor (ReservationRange.contains_iff.mpr ⟨started, inside⟩)
      rw [if_pos inside, observe_bind_apply]
      cases searched : root.next cursor with
      | none =>
        refine absurd (cells_eq_none_iff.mpr ?_) held
        intro node member covers
        have low := next_eq_none walk.tidy searched node member
        have high := covers.2
        omega
      | some node =>
        have starts : node.start <= cursor := by
          rcases next_eq_some walk.tidy searched with ⟨_, _, others⟩
          by_contra above
          refine held (cells_eq_none_iff.mpr ?_)
          intro other member covers
          have low := covers.1
          have high := covers.2
          by_cases same : other = node
          · rw [same] at low
            omega
          · rcases others other member same with below | beyond <;> omega
        rcases walk.found inside searched (by omega) aligned with
          ⟨member, below, paged, stopAligned, ready, low, high, beforeStop⟩
        have remaining : range.stop <= node.stop + fuel * pageSize := by
          unfold pageSize at *
          omega
        have moved : min node.stop range.stop = node.stop := Nat.min_eq_left below
        dsimp only
        rw [moved]
        by_cases unchanged : (node.flags.union set).difference clear = node.flags
        · have passed := ready.skip_node member low high ⟨rfl, unchanged⟩
          rcases ih root passed below stopAligned remaining with
            ⟨last, ranRest, done⟩
          refine ⟨last, ?_, done⟩
          rw [if_neg (not_not.mpr unchanged)]
          exact ranRest
        rcases ready.rewrite beforeStop member low high with ⟨tree, ran, rewritten⟩
        rcases ih { root with tree := tree } rewritten below stopAligned
          remaining with ⟨last, ranRest, done⟩
        refine ⟨last, ?_, done⟩
        rw [if_pos unchanged]
        exact (bind_of_ok ran).trans ranRest
    · rw [if_neg inside]
      have reached : cursor = range.stop := by omega
      exact ⟨root.tree, rfl, reached ▸ walk⟩

end Reservation
end Carrick
