import Carrick.Reservation.Runs

namespace Carrick
namespace Reservation

open Foundation
open Command

/-!
# Seams between committed nodes

A seam is an address where one node ends and another goes on with the same
mapping and the same incarnation, so that one node would do.  Whether two
pages belong together is said by the map alone; a seam is a place where they
do and the tree is cut nevertheless.  Each edit is described by the seams it
can leave.  Splitting leaves new ones at the bounds of its range only, and
putting a node back removes the two at its own bounds.  So an edit that puts
back what it cut leaves none; the attribute edit, which puts back only the
nodes it changes, may.
-/

/-! ## Pages that belong together -/

/-- The page above goes on with the mapping and the incarnation of the one
below it. -/
structure Cell.Follows (lower upper : Cell) : Prop where
  prot_eq : lower.prot = upper.prot
  flags_eq : lower.flags = upper.flags
  incarnation_eq : lower.incarnation = upper.incarnation
  source : lower.source = none ∧ upper.source = none ∨
    ∃ first second, lower.source = some first ∧ upper.source = some second ∧
      first.advance pageSize = some second

/-- The pages below and above an address belong together: one node could hold
them both. -/
structure Joined (map : Nat -> Option Cell) (address : Nat) : Prop where
  aligned : address % pageSize = 0
  follows : ∃ below lower upper, below + pageSize = address ∧ map below = some lower ∧
    map address = some upper ∧ lower.Follows upper

/-- Two pages that belong together lie in different nodes, so that the tree is
cut where the map is not. -/
structure Seam (tree : MappingTree) (address : Nat) : Prop where
  joined : Joined (cells tree) address
  cut : Cut tree address

def Seamless (tree : MappingTree) : Prop := ∀ address, ¬ Seam tree address

variable {address : Nat}

theorem Joined.congr {first second : Nat -> Option Cell} (joined : Joined first address)
    (below : ∀ other, other + pageSize = address -> second other = first other)
    (here : second address = first address) : Joined second address := by
  rcases joined.follows with ⟨other, lower, upper, step, atLower, atUpper, follows⟩
  exact ⟨joined.aligned, other, lower, upper, step, (below other step).trans atLower,
    here.trans atUpper, follows⟩

variable {node : Node}

theorem Node.WellFormed.page_le (formed : node.WellFormed) :
    node.start + pageSize <= node.stop := by
  have ordered := formed.ordered
  have startAligned := formed.start_aligned
  have stopAligned := formed.stop_aligned
  unfold pageSize at *
  omega

theorem Node.Reaches.advance (reaches : node.Reaches) {backing : HostBackingIdentity}
    (has : node.hostBacking = some backing) {bytes : Nat} (within : bytes + pageSize <= node.len) :
    ∃ moved, backing.advance bytes = some moved := by
  have bound := reaches backing has
  refine Option.isSome_iff_exists.mp (HostBackingIdentity.advance_isSome_iff.mpr ?_)
  omega

theorem Node.cell_start_source (node : Node) : (node.cell node.start).source = node.hostBacking := by
  unfold Node.cell
  dsimp only
  rw [Nat.sub_self]
  cases node.hostBacking with
  | none => rfl
  | some backing => exact backing.advance_zero

theorem Node.last_page_source (reaches : node.Reaches) {below : Nat} (inside : node.start <= below)
    (last : below + pageSize = node.stop) {backing : HostBackingIdentity}
    (has : node.hostBacking = some backing) :
    ∃ moved, (node.cell below).source = some moved ∧
      moved.advance pageSize = backing.advance (node.stop - node.start) := by
  have room : below - node.start + pageSize = node.len := by
    unfold Node.len
    omega
  rcases reaches.advance has (Nat.le_of_eq room) with ⟨moved, advanced⟩
  refine ⟨moved, ?_, ?_⟩
  · unfold Node.cell
    rw [has]
    exact advanced
  · have whole := backing.advance_bind (below - node.start) pageSize
    rw [advanced, Option.bind_some, room] at whole
    exact whole

/-- The cells on both sides of the address where two nodes meet follow each
other exactly when the nodes continue each other. -/
theorem follows_iff_continues {lower upper : Node} {below : Nat} (reaches : lower.Reaches)
    (inside : lower.start <= below) (last : below + pageSize = lower.stop)
    (meet : lower.stop = upper.start) :
    (lower.cell below).Follows (upper.cell upper.start) <-> Continues lower upper := by
  constructor
  · rintro ⟨prot, flags, incarnation, sources⟩
    refine ⟨meet, prot, flags, incarnation, ?_⟩
    rw [upper.cell_start_source] at sources
    cases has : lower.hostBacking with
    | none =>
      rcases sources with ⟨_, absent⟩ | ⟨first, second, wrong, _⟩
      · exact .inl ⟨rfl, absent⟩
      · unfold Node.cell at wrong
        rw [has] at wrong
        cases wrong
    | some backing =>
      rcases Node.last_page_source reaches inside last has with ⟨moved, source, advanced⟩
      rw [source] at sources
      rw [meet] at advanced
      rcases sources with ⟨wrong, _⟩ | ⟨first, second, same, hasSecond, further⟩
      · cases wrong
      · cases same
        exact .inr ⟨backing, second, rfl, hasSecond, advanced.symm.trans further⟩
  · rintro ⟨_, prot, flags, incarnation, sources⟩
    refine ⟨prot, flags, incarnation, ?_⟩
    rw [upper.cell_start_source]
    rcases sources with ⟨noFirst, noSecond⟩ | ⟨first, second, hasFirst, hasSecond, advanced⟩
    · refine .inl ⟨?_, noSecond⟩
      unfold Node.cell
      rw [noFirst]
      rfl
    · rcases Node.last_page_source reaches inside last hasFirst with ⟨moved, source, further⟩
      rw [meet] at further
      exact .inr ⟨moved, second, source, hasSecond, further.trans advanced⟩

variable {tree : MappingTree}

theorem Continues.seam (tidy : Tidy tree) (reaching : Reaching tree) {lower upper : Node}
    (lowerMember : lower ∈ tree.toList) (upperMember : upper ∈ tree.toList)
    (continues : Continues lower upper) : Seam tree upper.start := by
  have lowerFormed := tidy.formed lower lowerMember
  have upperFormed := tidy.formed upper upperMember
  have upperOrdered := upperFormed.ordered
  have meet := continues.meet
  rcases Nat.exists_eq_add_of_le lowerFormed.page_le with ⟨more, shape⟩
  have last : lower.start + more + pageSize = lower.stop := by omega
  have inside : lower.start <= lower.start + more := Nat.le_add_right _ _
  have page : 0 < pageSize := by decide
  refine ⟨⟨upperFormed.start_aligned, lower.start + more, lower.cell (lower.start + more),
    upper.cell upper.start, last.trans meet, ?_, ?_, ?_⟩, ?_⟩
  · exact cells_of_mem tidy lowerMember ⟨inside, by omega⟩
  · exact cells_of_mem tidy upperMember ⟨le_rfl, upperOrdered⟩
  · exact (follows_iff_continues (reaching lower lowerMember) inside last meet).mpr continues
  intro other member
  rcases tidy.disjoint member upperMember with rfl | below | above
  · exact .inr le_rfl
  · exact .inl below
  · exact .inr (by omega)

theorem Seam.continues (tidy : Tidy tree) (reaching : Reaching tree) (seam : Seam tree address) :
    ∃ lower upper, lower ∈ tree.toList ∧ upper ∈ tree.toList ∧ upper.start = address ∧
      Continues lower upper := by
  have aligned := seam.joined.aligned
  rcases seam.joined.follows with ⟨below, _, _, step, atLower, atUpper, follows⟩
  rcases exists_of_cells atLower with ⟨lower, lowerMember, lowerCovers, rfl⟩
  rcases exists_of_cells atUpper with ⟨upper, upperMember, upperCovers, rfl⟩
  have lowerFormed := tidy.formed lower lowerMember
  have stopAligned := lowerFormed.stop_aligned
  unfold Node.covers at lowerCovers upperCovers
  have starts : upper.start = address := by
    rcases seam.cut upper upperMember with low | high <;> omega
  have stops : lower.stop = address := by
    rcases seam.cut lower lowerMember with low | high
    · unfold pageSize at *
      omega
    · unfold pageSize at *
      omega
  subst starts
  exact ⟨lower, upper, lowerMember, upperMember, rfl, (follows_iff_continues
    (reaching lower lowerMember) lowerCovers.1 (step.trans stops.symm) stops).mp follows⟩

/-! ## Putting a node back -/

variable {left : Node}

theorem Continues.joins_left (continues : Continues left node) (ordered : left.start < left.stop) :
    left.joins node = true := by
  have meet := continues.meet
  have lower : left.start <= node.start := by omega
  unfold Node.joins Node.sameMapping
  rw [continues.prot_eq, continues.flags_eq, continues.incarnation_eq]
  rcases continues.source with ⟨noFirst, noSecond⟩ | ⟨first, second, hasFirst, hasSecond, advanced⟩
  · simp [noFirst, noSecond]
  · simp [hasFirst, hasSecond, lower, advanced]

variable {right : Node}

theorem Continues.joins_right (continues : Continues node right)
    (ordered : node.start < node.stop) : right.joins node = true := by
  have meet := continues.meet
  have higher : ¬ right.start <= node.start := by omega
  unfold Node.joins Node.sameMapping
  rw [continues.prot_eq, continues.flags_eq, continues.incarnation_eq]
  rcases continues.source with ⟨noFirst, noSecond⟩ | ⟨first, second, hasFirst, hasSecond, advanced⟩
  · simp [noFirst, noSecond]
  · simp [hasFirst, hasSecond, higher, advanced]

variable {root : Root}

theorem leftNeighbour_of_mem (tidy : Tidy root.tree) (member : left ∈ root.tree.toList)
    (meet : left.stop = node.start) :
    root.leftNeighbour node = some left := by
  have ordered := (tidy.formed left member).ordered
  unfold Root.leftNeighbour
  rw [if_neg (by omega)]
  cases found : root.next (node.start - 1) with
  | none =>
    have low := next_eq_none tidy found left member
    omega
  | some first =>
    rcases next_eq_some tidy found with ⟨_, above, others⟩
    have same : left = first := by
      by_contra different
      rcases others left member different with low | high <;> omega
    rw [<- same, Option.filter_some, if_pos (decide_eq_true meet)]

theorem rightNeighbour_of_mem (tidy : Tidy root.tree) (member : right ∈ root.tree.toList)
    (meet : node.stop = right.start) :
    root.rightNeighbour node = some right := by
  have ordered := (tidy.formed right member).ordered
  unfold Root.rightNeighbour
  cases found : root.next node.stop with
  | none =>
    have low := next_eq_none tidy found right member
    omega
  | some first =>
    rcases next_eq_some tidy found with ⟨_, above, others⟩
    have same : right = first := by
      by_contra different
      rcases others right member different with low | high <;> omega
    rw [<- same, Option.filter_some, if_pos (decide_eq_true meet.symm)]

/-- A node absorbs its left neighbour exactly when that one continues into it. -/
theorem joinLeft_cases (root : Root) (tidy : Tidy root.tree) (node : Node) :
    (joinLeft node root = (.ok node, root) ∧
      ∀ left ∈ root.tree.toList, ¬ Continues left node) ∨
    ∃ left ∈ root.tree.toList, Continues left node ∧
      joinLeft node root =
        (.ok (left.upTo node), { root with tree := eraseNode left.start root.tree }) := by
  unfold joinLeft
  rw [observe_bind_apply]
  cases found : (root.leftNeighbour node).filter (fun left => left.joins node) with
  | none =>
    refine .inl ⟨rfl, fun left member continues => ?_⟩
    have joins := continues.joins_left (tidy.formed left member).ordered
    rw [leftNeighbour_of_mem tidy member continues.meet, Option.filter_some, if_pos joins] at found
    cases found
  | some left =>
    rcases Option.filter_eq_some_iff.mp found with ⟨searched, joins⟩
    rcases leftNeighbour_eq_some tidy searched with ⟨member, meet⟩
    have continues := Continues.of_left meet (tidy.formed left member).ordered joins
    refine .inr ⟨left, member, continues, ?_⟩
    unfold Node.upTo
    rw [continues.prot_eq, continues.flags_eq, continues.incarnation_eq]
    rfl

theorem joinRight_cases (root : Root) (tidy : Tidy root.tree) (formed : node.WellFormed) :
    (joinRight node root = (.ok node, root) ∧
      ∀ right ∈ root.tree.toList, ¬ Continues node right) ∨
    ∃ right ∈ root.tree.toList, Continues node right ∧
      joinRight node root =
        (.ok (node.upTo right), { root with tree := eraseNode right.start root.tree }) := by
  unfold joinRight
  rw [observe_bind_apply]
  cases found : (root.rightNeighbour node).filter (fun right => right.joins node) with
  | none =>
    refine .inl ⟨rfl, fun right member continues => ?_⟩
    have joins := continues.joins_right formed.ordered
    rw [rightNeighbour_of_mem tidy member continues.meet, Option.filter_some, if_pos joins] at found
    cases found
  | some right =>
    rcases Option.filter_eq_some_iff.mp found with ⟨searched, joins⟩
    rcases rightNeighbour_eq_some tidy searched with ⟨member, meet⟩
    exact .inr ⟨right, member, Continues.of_right meet.symm formed.ordered joins, rfl⟩

/-- A node that absorbed its left neighbour continues where it did before. -/
theorem Continues.through (ordered : left.start < left.stop)
    (nodeOrdered : node.start < node.stop) (lower : Continues left node)
    (upper : Continues node right) : Continues (left.upTo node) right := by
  have lowerMeet := lower.meet
  have upperMeet := upper.meet
  refine ⟨upper.meet, lower.prot_eq.trans upper.prot_eq, lower.flags_eq.trans upper.flags_eq,
    lower.incarnation_eq.trans upper.incarnation_eq, ?_⟩
  have distance : right.start - left.start =
      node.start - left.start + (right.start - node.start) := by omega
  rcases lower.source with ⟨noFirst, noSecond⟩ | ⟨first, second, hasFirst, hasSecond, advanced⟩
  · rcases upper.source with ⟨_, noThird⟩ | ⟨other, third, hasOther, _⟩
    · exact .inl ⟨noFirst, noThird⟩
    · rw [noSecond] at hasOther
      cases hasOther
  rcases upper.source with ⟨wrong, _⟩ | ⟨other, third, hasOther, hasThird, further⟩
  · rw [hasSecond] at wrong
    cases wrong
  rw [hasSecond] at hasOther
  cases hasOther
  refine .inr ⟨first, third, hasFirst, hasThird, ?_⟩
  change first.advance (right.start - left.start) = some third
  rw [distance, <- first.advance_bind, advanced]
  exact further

/-- What coalescing does to the old nodes: each is kept or lies inside the
merged node, which reaches over every node that continues the inserted one. -/
structure Merging (before : MappingTree) (node : Node) (after : MappingTree) (merged : Node) :
    Prop where
  member : merged ∈ after.toList
  start_le : merged.start <= node.start
  le_stop : node.stop <= merged.stop
  kept : ∀ other ∈ before.toList,
    other ∈ after.toList ∨ merged.start <= other.start ∧ other.stop <= merged.stop
  left : ∀ other ∈ before.toList, Continues other node -> merged.start <= other.start
  right : ∀ other ∈ before.toList, Continues node other -> other.stop <= merged.stop

theorem mem_eraseNode_or (tidy : Tidy tree) {other : Node} (member : node ∈ tree.toList)
    (otherMember : other ∈ tree.toList) :
    other = node ∨ other ∈ (eraseNode node.start tree).toList := by
  by_cases same : other = node
  · exact .inl same
  · exact .inr ((mem_eraseNode tidy member).mpr ⟨otherMember, same⟩)

theorem insertCoalescing_merging (root : Root) (tidy : Tidy root.tree)
    (formed : node.WellFormed) :
    ∃ tree merged, insertCoalescing node root = (.ok (), { root with tree := tree }) ∧
      Merging root.tree node tree merged := by
  have ordered := formed.ordered
  have kept : ∀ {tree : MappingTree} {merged other : Node},
      other ∈ tree.toList -> other ∈ (insertNode merged tree).toList :=
    fun member => mem_insertNode.mpr (.inr member)
  unfold insertCoalescing
  rcases joinLeft_cases root tidy node with ⟨ranLeft, noLeft⟩ | ⟨left, leftMember, leftContinues, ranLeft⟩
  · rw [bind_of_ok ranLeft]
    rcases joinRight_cases root tidy formed with
      ⟨ranRight, noRight⟩ | ⟨right, rightMember, rightContinues, ranRight⟩
    · rw [bind_of_ok ranRight]
      refine ⟨insertNode node root.tree, node, rfl, mem_insertNode.mpr (.inl rfl), le_rfl,
        le_rfl, fun other member => .inl (kept member), ?_, ?_⟩
      · exact fun other member continues => absurd continues (noLeft other member)
      · exact fun other member continues => absurd continues (noRight other member)
    rw [bind_of_ok ranRight]
    have meet := rightContinues.meet
    have rightOrdered := (tidy.formed right rightMember).ordered
    refine ⟨_, node.upTo right, rfl, mem_insertNode.mpr (.inl rfl), le_rfl, ?_, ?_, ?_, ?_⟩
    · change node.stop <= right.stop
      omega
    · intro other member
      rcases mem_eraseNode_or tidy rightMember member with rfl | other
      · refine .inr ⟨?_, le_rfl⟩
        change node.start <= other.start
        omega
      · exact .inl (kept other)
    · exact fun other member continues => absurd continues (noLeft other member)
    · intro other member continues
      have same := tidy.eq_of_start member rightMember (continues.meet.symm.trans meet)
      rw [same]
      exact le_rfl
  rw [bind_of_ok ranLeft]
  have leftMeet := leftContinues.meet
  have leftOrdered := (tidy.formed left leftMember).ordered
  have onlyLeft : ∀ other ∈ root.tree.toList, Continues other node -> other = left := by
    intro other member continues
    have otherMeet := continues.meet
    have otherOrdered := (tidy.formed other member).ordered
    rcases tidy.disjoint member leftMember with same | low | high
    · exact same
    · omega
    · omega
  have wholeFormed := leftContinues.upTo_formed (tidy.formed left leftMember) formed
  rcases joinRight_cases { root with tree := eraseNode left.start root.tree } (tidy.erase _)
    wholeFormed with ⟨ranRight, noRight⟩ | ⟨right, rightMember, rightContinues, ranRight⟩
  · rw [bind_of_ok ranRight]
    refine ⟨_, left.upTo node, rfl, mem_insertNode.mpr (.inl rfl), ?_, le_rfl, ?_, ?_, ?_⟩
    · change left.start <= node.start
      omega
    · intro other member
      rcases mem_eraseNode_or tidy leftMember member with rfl | other
      · refine .inr ⟨le_rfl, ?_⟩
        change other.stop <= node.stop
        omega
      · exact .inl (kept other)
    · intro other member continues
      rw [onlyLeft other member continues]
      exact le_rfl
    intro other member continues
    have further := leftContinues.through leftOrdered ordered continues
    have otherMeet := continues.meet
    rcases mem_eraseNode_or tidy leftMember member with rfl | rest
    · omega
    · exact absurd further (noRight other rest)
  rw [bind_of_ok ranRight]
  have rightMeet : node.stop = right.start := rightContinues.meet
  have rightOld := ((mem_eraseNode tidy leftMember).mp rightMember).1
  have rightOrdered := (tidy.formed right rightOld).ordered
  refine ⟨_, (left.upTo node).upTo right, rfl, mem_insertNode.mpr (.inl rfl), ?_, ?_, ?_, ?_, ?_⟩
  · change left.start <= node.start
    omega
  · change node.stop <= right.stop
    omega
  · intro other member
    change other ∈ _ ∨ left.start <= other.start ∧ other.stop <= right.stop
    rcases mem_eraseNode_or tidy leftMember member with rfl | rest
    · exact .inr ⟨le_rfl, by omega⟩
    · rcases mem_eraseNode_or (tidy.erase _) rightMember rest with rfl | last
      · exact .inr ⟨by omega, le_rfl⟩
      · exact .inl (kept last)
  · intro other member continues
    rw [onlyLeft other member continues]
    exact le_rfl
  · intro other member continues
    have same := tidy.eq_of_start member rightOld (continues.meet.symm.trans rightMeet)
    rw [same]
    exact le_rfl

/-- The seams of a tree after an edit, in terms of those before it. -/
def LeavesSeams (before after : MappingTree) (left : Nat -> Prop) : Prop :=
  ∀ address, Seam after address -> Seam before address ∧ left address

/-- Outside a node that was put into the tree, pages belong together as before. -/
theorem Joined.of_insert (tidy : Tidy tree) (formed : node.WellFormed)
    (free : Free tree node.start node.stop)
    (joined : Joined (cells (insertNode node tree)) address)
    (outside : address < node.start ∨ node.stop < address) : Joined (cells tree) address := by
  have aligned := joined.aligned
  have stopAligned := formed.stop_aligned
  have ordered := formed.ordered
  have uncovered : ∀ other, ¬ node.covers other ->
      cells tree other = cells (insertNode node tree) other := by
    intro other missed
    rw [cells_insert tidy formed free, if_neg missed]
  refine joined.congr (fun other step => uncovered other ?_) (uncovered address ?_)
  · unfold Node.covers
    unfold pageSize at *
    omega
  · unfold Node.covers
    omega

/-- Coalescing insertion leaves no seam at the bounds of its node, and no new
one elsewhere. -/
theorem insertCoalescing_seams (root : Root) (tidy : Tidy root.tree)
    (reaching : Reaching root.tree) (formed : node.WellFormed) (reaches : node.Reaches)
    (free : Free root.tree node.start node.stop)
    (ran : insertCoalescing node root = (.ok (), { root with tree := tree })) :
    LeavesSeams root.tree tree (fun address => address ≠ node.start ∧ address ≠ node.stop) := by
  rcases insertCoalescing_spec root tidy formed free with ⟨_, _, ranSpec, coalesced⟩
  rcases insertCoalescing_merging root tidy formed with ⟨_, merged, ranMerging, merging⟩
  rw [ran] at ranSpec ranMerging
  cases ranSpec
  cases ranMerging
  have tidyInserted := tidy.insert formed free
  have reachingInserted := reaching.insert reaches
  have ordered := formed.ordered
  have startLe := merging.start_le
  have leStop := merging.le_stop
  intro address seam
  have joined : Joined (cells (insertNode node root.tree)) address :=
    seam.joined.congr (fun other _ => (coalesced.recut.cells_eq other).symm)
      (coalesced.recut.cells_eq address).symm
  have outside := seam.cut merged merging.member
  have cutOld : Cut root.tree address := by
    intro other member
    rcases merging.kept other member with stays | ⟨low, high⟩
    · exact seam.cut other stays
    · omega
  have seamInserted : Seam (insertNode node root.tree) address := by
    refine ⟨joined, fun other member => ?_⟩
    rcases mem_insertNode.mp member with rfl | old
    · omega
    · exact cutOld other old
  rcases seamInserted.continues tidyInserted reachingInserted with
    ⟨lower, upper, lowerMember, upperMember, starts, continues⟩
  have meet := continues.meet
  have lowerOrdered := (tidyInserted.formed lower lowerMember).ordered
  have upperOrdered := (tidyInserted.formed upper upperMember).ordered
  have notStart : address ≠ node.start := by
    intro same
    have upperIs : upper = node :=
      tidyInserted.eq_of_start upperMember (mem_insertNode.mpr (.inl rfl)) (starts.trans same)
    rcases mem_insertNode.mp lowerMember with rfl | old
    · omega
    · have absorbed := merging.left lower old (upperIs ▸ continues)
      omega
  have notStop : address ≠ node.stop := by
    intro same
    have upperOld : upper ∈ root.tree.toList := by
      rcases mem_insertNode.mp upperMember with rfl | old
      · omega
      · exact old
    rcases mem_insertNode.mp lowerMember with rfl | old
    · have absorbed := merging.right upper upperOld continues
      omega
    · rcases free lower old with low | high <;> omega
  exact ⟨⟨joined.of_insert tidy formed free (by omega), cutOld⟩, notStart, notStop⟩

theorem eraseNode_seams (tidy : Tidy tree) (member : node ∈ tree.toList) :
    LeavesSeams tree (eraseNode node.start tree) (fun _ => True) := by
  intro address seam
  rcases seam.joined.follows with ⟨below, lower, upper, step, atLower, atUpper, follows⟩
  have kept : ∀ other cell, cells (eraseNode node.start tree) other = some cell ->
      ¬ node.covers other ∧ cells tree other = some cell := by
    intro other cell found
    rw [cells_erase tidy member] at found
    split at found
    · cases found
    · exact ⟨by assumption, found⟩
  have missed := (kept address upper atUpper).1
  have missedBelow := (kept below lower atLower).1
  have formed := tidy.formed node member
  have ordered := formed.ordered
  have startAligned := formed.start_aligned
  have aligned := seam.joined.aligned
  refine ⟨⟨⟨aligned, below, lower, upper, step, (kept below lower atLower).2,
    (kept address upper atUpper).2, follows⟩, ?_⟩, trivial⟩
  intro other otherMember
  rcases mem_eraseNode_or tidy member otherMember with rfl | rest
  · unfold Node.covers at missed missedBelow
    unfold pageSize at *
    omega
  · exact seam.cut other rest

/-- Replacing a node by an edited copy removes the seams at its bounds. -/
theorem rewriteNode_seams (change : Recolour) (root : Root) (tidy : Tidy root.tree)
    (reaching : Reaching root.tree) (member : node ∈ root.tree.toList)
    (ran : insertCoalescing (change.node node) { root with tree := eraseNode node.start root.tree
      } = (.ok (), { root with tree := tree })) :
    LeavesSeams root.tree tree (fun address => address ≠ node.start ∧ address ≠ node.stop) := by
  have formed := tidy.formed node member
  have editedFormed : (change.node node).WellFormed :=
    ⟨formed.ordered, formed.start_aligned, formed.stop_aligned, formed.in_word⟩
  intro address seam
  have put := insertCoalescing_seams { root with tree := eraseNode node.start root.tree }
    (tidy.erase _) (reaching.erase tidy _) editedFormed (reaching node member)
    (free_erase tidy member) ran address seam
  exact ⟨(eraseNode_seams tidy member address put.1).1, put.2⟩

/-! ## Cutting and removing -/

/-- A tidy tree whose sources reach and that has no seam. -/
structure Stitched (tree : MappingTree) : Prop where
  tidy : Tidy tree
  reaching : Reaching tree
  seamless : Seamless tree

variable {after : Root} {spares rest : List SpareNode}

theorem splitAt_newCuts (tidy : Tidy root.tree)
    (ran : splitAt address spares root = (.ok rest, after)) {other : Nat}
    (cut : Cut after.tree other) : other = address ∨ Cut root.tree other := by
  unfold splitAt at ran
  rw [observe_bind_apply] at ran
  cases found : (root.next address).filter (fun node => decide (node.start < address)) with
  | none =>
    rw [found] at ran
    cases ran
    exact .inr cut
  | some node =>
    rw [found] at ran
    cases spares with
    | nil => cases ran
    | cons spare others =>
      cases ran
      rcases Option.filter_eq_some_iff.mp found with ⟨searched, _⟩
      have member := (next_eq_some tidy searched).1
      have low := cut (node.lowHalf address)
        (mem_insertNode.mpr (.inr (mem_insertNode.mpr (.inl rfl))))
      have high := cut (node.highHalf address) (mem_insertNode.mpr (.inl rfl))
      dsimp only [Node.lowHalf, Node.highHalf] at low high
      by_cases here : other = address
      · exact .inl here
      · refine .inr (fun kept keptMember => ?_)
        rcases mem_eraseNode_or tidy member keptMember with rfl | old
        · omega
        · exact cut kept (mem_insertNode.mpr (.inr (mem_insertNode.mpr (.inr old))))

/-- The tree after cutting a stitched one at both bounds of a range: whatever
seams it has lie at the bounds, where the old tree was not cut. -/
structure CutAtBounds (range : ReservationRange) (before after : MappingTree) : Prop where
  recut : Recut before after
  reaching : Reaching after
  start_cut : Cut after range.start
  stop_cut : Cut after range.stop
  newCuts : ∀ address, Cut after address ->
    address = range.start ∨ address = range.stop ∨ Cut before address

variable {before : MappingTree}

variable {range : ReservationRange}

theorem CutAtBounds.seams {after : MappingTree}
    (bounds : CutAtBounds range before after) (seamless : Seamless before)
    (seam : Seam after address) :
    (address = range.start ∨ address = range.stop) ∧ ¬ Cut before address := by
  have joined : Joined (cells before) address :=
    seam.joined.congr (fun other _ => (bounds.recut.cells_eq other).symm)
      (bounds.recut.cells_eq address).symm
  have uncut : ¬ Cut before address := fun cut => seamless address ⟨joined, cut⟩
  rcases bounds.newCuts address seam.cut with start | stop | old
  · exact ⟨.inl start, uncut⟩
  · exact ⟨.inr stop, uncut⟩
  · exact absurd old uncut

theorem splitBounds_cuts (tidy : Tidy root.tree)
    (reaching : Reaching root.tree) (ran : splitBounds range spares root = (.ok rest, after)) :
    CutAtBounds range root.tree after.tree := by
  rcases splitBounds_spec range spares tidy with ⟨tree, answer, ranSpec, recut, _, done, _⟩
  rw [ran] at ranSpec
  cases ranSpec
  rcases done rest rfl with ⟨cutStart, cutStop, _⟩
  refine ⟨recut, (recut.sources reaching).1, cutStart, cutStop, fun address cut => ?_⟩
  unfold splitBounds at ran
  rcases bind_eq_ok ran with ⟨afterStart, middle, ranStart, ranStop⟩
  have tidyMiddle : Tidy middle.tree := by
    rcases splitAt_spec root tidy range.start_aligned spares with ⟨refused, _⟩ | ⟨first, split, cutting, _⟩
    · rw [ranStart] at refused
      cases refused
    · rw [ranStart] at split
      cases split
      exact cutting.tidy
  rcases splitAt_newCuts tidyMiddle ranStop cut with stop | earlier
  · exact .inr (.inl stop)
  · rcases splitAt_newCuts tidy ranStart earlier with start | old
    · exact .inl start
    · exact .inr (.inr old)

/-- The nodes left are some of those before. -/
def Fewer (before after : Root) : Prop :=
  Tidy before.tree -> Tidy after.tree ∧ ∀ node ∈ after.tree.toList,
    node ∈ before.tree.toList

theorem Fewer.refl (root : Root) : Fewer root root := fun tidy => ⟨tidy, fun _ member => member⟩

theorem Fewer.trans (first second third : Root) (earlier : Fewer first second)
    (later : Fewer second third) : Fewer first third := by
  intro tidy
  rcases earlier tidy with ⟨middleTidy, fewer⟩
  rcases later middleTidy with ⟨lastTidy, fewest⟩
  exact ⟨lastTidy, fun node member => fewer node (fewest node member)⟩

instance : IsPreorder Root Fewer where
  refl := Fewer.refl
  trans := Fewer.trans

theorem removeNodes_fewer (range : ReservationRange) (fuel : Nat) :
    Relates Fewer (removeNodes range fuel) := by
  induction fuel with
  | zero => exact Relates.pure _
  | succ fuel ih =>
    refine Relates.observing (fun found => ?_)
    split
    · exact Relates.pure _
    rename_i node
    split
    · exact Relates.pure _
    refine Relates.bind ?_ (fun _ => Relates.bind ?_
      (fun _ => ih))
    · intro root tidy
      exact ⟨tidy.erase _, fun other member => ((SearchTree.mem_erase tidy.sorted).mp member).1⟩
    · intro root tidy
      rw [(SameMap.kept.release node root).tree]
      exact ⟨tidy, fun _ member => member⟩

/-- Removing a range leaves no seam: what is left of the nodes that it cut
has nothing beside it. -/
theorem removeRange_stitched (stitched : Stitched root.tree)
    (ran : removeRange range spares root = (.ok rest, after)) : Stitched after.tree := by
  rcases removeRange_spec range spares stitched.tidy with ⟨answer, _, ranSpec, emptied, cleared, _⟩
  rw [ran] at ranSpec
  cases ranSpec
  have gone := (cleared rest rfl).1
  unfold removeRange at ran
  rcases bind_eq_ok ran with ⟨left, middle, ranSplit, ranRest⟩
  have bounds := splitBounds_cuts stitched.tidy stitched.reaching ranSplit
  rw [observe_bind_apply] at ranRest
  rcases bind_eq_ok ranRest with ⟨_, last, ranRemove, ranReturn⟩
  cases ranReturn
  have fewer := removeNodes_fewer range middle.tree.toList.length middle bounds.recut.tidy
  rw [ranRemove] at fewer
  refine ⟨emptied.tidy, fun node member => bounds.reaching node (fewer.2 node member), ?_⟩
  intro address seam
  rcases seam.joined.follows with ⟨below, lower, upper, step, atLower, atUpper, follows⟩
  have kept : ∀ other cell, cells after.tree other = some cell ->
      range.contains other = false ∧ cells root.tree other = some cell := by
    intro other cell found
    have outside : range.contains other = false := by
      by_contra inside
      rw [gone other (by simpa using inside)] at found
      cases found
    rcases emptied.cells_or other with same | ⟨inside, _⟩
    · exact ⟨outside, same.symm.trans found⟩
    · rw [outside] at inside
      cases inside
  rcases kept below lower atLower with ⟨belowOutside, oldLower⟩
  rcases kept address upper atUpper with ⟨outside, oldUpper⟩
  refine stitched.seamless address ⟨⟨seam.joined.aligned, below, lower, upper, step, oldLower,
    oldUpper, follows⟩, ?_⟩
  have rangeOrdered := range.ordered
  have apart : address < range.start ∨ range.stop < address := by
    have startAligned := range.start_aligned
    have stopAligned := range.stop_aligned
    have aligned := seam.joined.aligned
    unfold ReservationRange.contains at outside belowOutside
    simp only [Bool.and_eq_false_iff, decide_eq_false_iff_not] at outside belowOutside
    unfold pageSize at *
    omega
  have cutMiddle : Cut middle.tree address := by
    intro node member
    have formed := bounds.recut.tidy.formed node member
    have ordered := formed.ordered
    by_contra straddles
    -- The node lies on one side of the range, so that its first byte is still mapped.
    have startOutside : range.contains node.start = false := by
      by_contra inside
      have within := ReservationRange.contains_iff.mp (by simpa using inside)
      rcases bounds.stop_cut node member with low | high <;> omega
    have mapped : cells after.tree node.start = some (node.cell node.start) := by
      have before : cells root.tree node.start = some (node.cell node.start) := by
        rw [<- bounds.recut.cells_eq]
        exact cells_of_mem bounds.recut.tidy member ⟨le_rfl, ordered⟩
      rcases emptied.cells_or node.start with same | ⟨inside, _⟩
      · exact same.trans before
      · rw [startOutside] at inside
        cases inside
    rcases exists_of_cells mapped with ⟨holder, holderMember, covers, _⟩
    have same := bounds.recut.tidy.holder_unique (fewer.2 holder holderMember) member covers
      ⟨le_rfl, ordered⟩
    exact straddles (seam.cut node (same ▸ holderMember))
  rcases bounds.newCuts address cutMiddle with start | stop | old
  · omega
  · omega
  · exact old

theorem createNode_stitched (stitched : Stitched root.tree) (formed : node.WellFormed)
    (reaches : node.Reaches) (free : Free root.tree node.start node.stop)
    (ran : createNode node root = (.ok (), after)) : Stitched after.tree := by
  unfold createNode at ran
  rcases bind_eq_ok ran with ⟨incarnation, minted, ranIncarnation, ranRest⟩
  rcases bind_eq_ok ranRest with ⟨_, charged, ranCharge, ranInsert⟩
  have mintedTree : minted.tree = root.tree := by
    rcases incarnationFor_spec stitched.tidy node with ⟨_, _, ranSpec, _⟩
    rw [ranIncarnation] at ranSpec
    cases ranSpec
    rfl
  have sameTree : charged.tree = root.tree := by
    have same := (SameMap.kept.charge node minted).tree
    rw [ranCharge] at same
    exact same.trans mintedTree
  have placedFormed : ({ node with incarnation := incarnation } : Node).WellFormed :=
    ⟨formed.ordered, formed.start_aligned, formed.stop_aligned, formed.in_word⟩
  have placedReaches : ({ node with incarnation := incarnation } : Node).Reaches := reaches
  rw [<- sameTree] at stitched free
  rcases insertCoalescing_spec charged stitched.tidy placedFormed free with
    ⟨tree, merged, ranSpec, coalesced⟩
  have seams := insertCoalescing_seams charged stitched.tidy stitched.reaching placedFormed
    placedReaches free ranSpec
  rw [ranInsert] at ranSpec
  cases ranSpec
  exact ⟨coalesced.recut.tidy,
    (coalesced.recut.sources (stitched.reaching.insert placedReaches)).1,
    fun address seam => stitched.seamless address (seams address seam).1⟩

/-! ## Rewriting a range -/

section Walk

variable {change : Recolour}

/-- The seams while a walk is at its cursor: the one at the start of the range
until the first node is put back, and the one at its end until the last is. -/
structure Stitching (change : Recolour) (range : ReservationRange) (cursor : Nat)
    (before after : MappingTree) : Prop extends RewrittenTo change range cursor before after where
  reaching : Reaching after
  seams : LeavesSeams before after (fun address =>
    address = range.start ∧ cursor = range.start ∨ address = range.stop ∧ cursor < range.stop)

theorem CutAtBounds.stitching {after : MappingTree} (bounds : CutAtBounds range before after)
    (seamless : Seamless before) : Stitching change range range.start after after := by
  refine ⟨RewrittenTo.start bounds.recut.tidy bounds.start_cut bounds.stop_cut, bounds.reaching,
    fun address seam => ⟨seam, ?_⟩⟩
  rcases (bounds.seams seamless seam).1 with start | stop
  · exact .inl ⟨start, rfl⟩
  · exact .inr ⟨stop, range.ordered⟩

theorem Stitching.finished {after : MappingTree}
    (walk : Stitching change range range.stop before after) : Stitched after := by
  have ordered := range.ordered
  refine ⟨walk.tidy, walk.reaching, fun address seam => ?_⟩
  rcases (walk.seams address seam).2 with ⟨_, wrong⟩ | ⟨_, wrong⟩ <;> omega

variable {cursor : Nat}

theorem next_of_mapped (tidy : Tidy root.tree) {address : Nat} {cell : Cell}
    (ahead : cursor <= address) (mapped : cells root.tree address = some cell) :
    ∃ node, root.next cursor = some node ∧ node.start <= address := by
  rcases exists_of_cells mapped with ⟨holder, member, covers, _⟩
  unfold Node.covers at covers
  cases found : root.next cursor with
  | none =>
    have low := next_eq_none tidy found holder member
    omega
  | some node =>
    refine ⟨node, rfl, ?_⟩
    rcases next_eq_some tidy found with ⟨nodeMember, _, others⟩
    have ordered := (tidy.formed node nodeMember).ordered
    by_cases same : holder = node
    · rw [<- same]
      exact covers.1
    · rcases others holder member same with low | high <;> omega

/-- The seam at the end of the range lies at the end of a page still ahead. -/
theorem Seam.last_page {tree : MappingTree} (seam : Seam tree range.stop)
    (inside : cursor < range.stop) (aligned : cursor % pageSize = 0) :
    ∃ below cell, below + pageSize = range.stop ∧ cursor <= below ∧ cells tree below = some cell := by
  rcases seam.joined.follows with ⟨below, lower, _, step, atLower, _⟩
  refine ⟨below, lower, step, ?_, atLower⟩
  have stopAligned := range.stop_aligned
  unfold pageSize at *
  omega

theorem Stitching.first_node (walk : Stitching change range range.start before root.tree)
    (found : root.next range.start = some node) (seam : Seam root.tree range.start) :
    node.start = range.start := by
  rcases seam.joined.follows with ⟨_, _, upper, _, _, atUpper, _⟩
  rcases next_of_mapped walk.tidy le_rfl atUpper with ⟨other, foundOther, low⟩
  rw [found] at foundOther
  cases foundOther
  rcases next_eq_some walk.tidy found with ⟨member, above, _⟩
  rcases seam.cut node member with below | high <;> omega

theorem Stitching.rewrite (walk : Stitching change range cursor before root.tree)
    (inside : cursor < range.stop) (found : root.next cursor = some node)
    (starts : node.start < range.stop) (aligned : cursor % pageSize = 0) :
    ∃ tree, insertCoalescing (change.node node)
        { root with tree := eraseNode node.start root.tree } = (.ok (), { root with tree := tree }) ∧
      Stitching change range node.stop before tree := by
  rcases walk.toRewrittenTo.found inside found starts aligned with
    ⟨member, below, _, _, ready, low, high, beforeStop⟩
  rcases ready.rewrite beforeStop member low high with ⟨tree, ran, rewritten⟩
  have dropped := rewriteNode_seams change root walk.tidy walk.reaching member ran
  rcases rewriteNode_spec change root walk.tidy member with ⟨_, _, ranSpec, _, _, sources⟩
  rw [ran] at ranSpec
  cases ranSpec
  refine ⟨tree, ran, rewritten, (sources walk.reaching).1, fun address seam => ?_⟩
  rcases dropped address seam with ⟨earlier, notStart, notStop⟩
  rcases walk.seams address earlier with ⟨original, ⟨rfl, rfl⟩ | ⟨rfl, _⟩⟩
  · exact absurd (walk.first_node found earlier).symm notStart
  · exact ⟨original, .inr ⟨rfl, by omega⟩⟩

/-- The edit changes what the seams at the bounds of the range separate. -/
structure ChangesSeams (change : Recolour) (range : ReservationRange) (tree : MappingTree) : Prop where
  at_start : Seam tree range.start -> ∀ cell, cells tree range.start = some cell ->
    change.cell cell ≠ cell
  at_stop : Seam tree range.stop -> ∀ below cell, below + pageSize = range.stop ->
    cells tree below = some cell -> change.cell cell ≠ cell

theorem Stitching.skip (changes : ChangesSeams change range before)
    (walk : Stitching change range cursor before root.tree) (inside : cursor < range.stop)
    (found : root.next cursor = some node) (here : node.start <= cursor)
    (aligned : cursor % pageSize = 0) (fixed : change.Fixes node) :
    Stitching change range node.stop before root.tree := by
  rcases next_eq_some walk.tidy found with ⟨member, ahead, _⟩
  rcases walk.toRewrittenTo.found inside found (by omega) aligned with ⟨_, below, _⟩
  have unchanged : ∀ other cell, cursor <= other -> node.covers other ->
      cells before other = some cell -> change.cell cell = cell := by
    intro other cell atLeast covers atOther
    have same := walk.cells_eq other
    rw [if_neg (by omega), atOther, cells_of_mem walk.tidy member covers] at same
    cases same
    exact fixed.cell_eq other
  refine ⟨walk.toRewrittenTo.skip_node member here ahead fixed, walk.reaching, fun address seam => ?_⟩
  rcases walk.seams address seam with ⟨original, ⟨rfl, rfl⟩ | ⟨rfl, _⟩⟩
  · rcases original.joined.follows with ⟨_, _, upper, _, _, atUpper, _⟩
    exact absurd (unchanged _ upper le_rfl ⟨here, ahead⟩ atUpper)
      (changes.at_start original upper atUpper)
  refine ⟨original, .inr ⟨rfl, ?_⟩⟩
  by_contra reached
  rcases original.last_page inside aligned with ⟨last, cell, step, atLeast, atLast⟩
  have page : 0 < pageSize := by decide
  refine changes.at_stop original last cell step atLast (unchanged last cell atLeast ?_ atLast)
  exact ⟨by omega, by omega⟩

theorem Stitching.exhausted (walk : Stitching change range cursor before root.tree)
    (within : cursor <= range.stop) (aligned : cursor % pageSize = 0)
    (none : (root.next cursor).filter (fun node => decide (node.start < range.stop)) = none) :
    Stitching change range range.stop before root.tree := by
  have unmapped : ∀ address cell, cursor <= address -> address < range.stop ->
      cells root.tree address ≠ some cell := by
    intro address cell ahead inside mapped
    rcases next_of_mapped walk.tidy ahead mapped with ⟨node, found, low⟩
    rw [found, Option.filter_some, if_pos (decide_eq_true (by omega))] at none
    cases none
  refine ⟨walk.toRewrittenTo.exhausted within none, walk.reaching, fun address seam => ?_⟩
  rcases walk.seams address seam with ⟨_, ⟨rfl, rfl⟩ | ⟨rfl, inside⟩⟩
  · rcases seam.joined.follows with ⟨_, _, upper, _, _, atUpper, _⟩
    exact absurd atUpper (unmapped _ upper le_rfl range.ordered)
  · rcases seam.last_page inside aligned with ⟨last, cell, step, atLeast, atLast⟩
    have page : 0 < pageSize := by decide
    exact absurd atLast (unmapped last cell atLeast (by omega))

end Walk

theorem reprotectNodes_stitches (range : ReservationRange) (prot : ReservationProtection)
    (fuel : Nat) (root : Root) {cursor : Nat}
    (walk : Stitching (protectAs prot) range cursor before root.tree)
    (within : cursor <= range.stop) (aligned : cursor % pageSize = 0)
    (enough : range.stop <= cursor + fuel * pageSize) :
    ∃ tree, reprotectNodes range prot fuel cursor root = (.ok (), { root with tree := tree }) ∧
      Stitched tree := by
  induction fuel generalizing cursor root with
  | zero =>
    have reached : cursor = range.stop := by omega
    exact ⟨root.tree, rfl, (reached ▸ walk).finished⟩
  | succ fuel ih =>
    rw [reprotectNodes]
    by_cases inside : cursor < range.stop
    · rw [if_pos inside, observe_bind_apply]
      cases found : (root.next cursor).filter (fun node => decide (node.start < range.stop)) with
      | none => exact ⟨root.tree, rfl, (walk.exhausted within aligned found).finished⟩
      | some node =>
        rcases Option.filter_eq_some_iff.mp found with ⟨searched, starts⟩
        have started := of_decide_eq_true starts
        rcases walk.toRewrittenTo.found inside searched started aligned with
          ⟨_, below, paged, stopAligned, _⟩
        rcases walk.rewrite inside searched started aligned with ⟨tree, ran, rewritten⟩
        have remaining : range.stop <= node.stop + fuel * pageSize := by
          unfold pageSize at *
          omega
        rcases ih { root with tree := tree } rewritten below stopAligned
          remaining with ⟨last, ranRest, done⟩
        exact ⟨last, (bind_of_ok ran).trans ranRest, done⟩
    · rw [if_neg inside]
      have reached : cursor = range.stop := by omega
      exact ⟨root.tree, rfl, (reached ▸ walk).finished⟩

theorem reprotectRange_stitched {prot : ReservationProtection}
    (stitched : Stitched root.tree)
    (ran : reprotectRange range prot spares root = (.ok rest, after)) : Stitched after.tree := by
  unfold reprotectRange at ran
  rcases bind_eq_ok ran with ⟨left, middle, ranSplit, ranRest⟩
  have bounds := splitBounds_cuts stitched.tidy stitched.reaching ranSplit
  rcases reprotectNodes_stitches range prot range.pages middle
    (bounds.stitching stitched.seamless) (Nat.le_of_lt range.ordered) range.start_aligned
    range.le_pages with ⟨tree, walked, done⟩
  rw [bind_of_ok walked] at ranRest
  cases ranRest
  exact done

/-- The attribute walk over a fully mapped range: a node that it leaves alone
keeps the seams at its bounds, so the edit has to change what they separate. -/
theorem rewriteFlags_stitches (range : ReservationRange) (set clear : ReservationNodeFlags)
    (fuel : Nat) (root : Root) {cursor : Nat}
    (changes : ChangesSeams (attributesAs set clear) range before)
    (walk : Stitching (attributesAs set clear) range cursor before root.tree)
    (within : cursor <= range.stop) (aligned : cursor % pageSize = 0)
    (enough : range.stop <= cursor + fuel * pageSize)
    (covered : ∀ address, range.contains address = true -> cells before address ≠ none) :
    ∃ tree, rewriteFlags range set clear fuel cursor root =
        (.ok (), { root with tree := tree }) ∧ Stitched tree := by
  induction fuel generalizing cursor root with
  | zero =>
    have reached : cursor = range.stop := by omega
    exact ⟨root.tree, rfl, (reached ▸ walk).finished⟩
  | succ fuel ih =>
    rw [rewriteFlags]
    by_cases inside : cursor < range.stop
    · have started := walk.started
      rcases Option.ne_none_iff_exists'.mp
        (covered cursor (ReservationRange.contains_iff.mpr ⟨started, inside⟩)) with ⟨cell, held⟩
      have here := walk.cells_eq cursor
      rw [if_neg (by omega), held] at here
      rcases next_of_mapped walk.tidy le_rfl here with ⟨node, searched, starts⟩
      rcases walk.toRewrittenTo.found inside searched (by omega) aligned with
        ⟨_, below, paged, stopAligned, _⟩
      have remaining : range.stop <= node.stop + fuel * pageSize := by
        unfold pageSize at *
        omega
      rw [if_pos inside, observe_bind_apply, searched]
      dsimp only
      rw [Nat.min_eq_left below]
      by_cases unchanged : (node.flags.union set).difference clear = node.flags
      · have passed := walk.skip changes inside searched starts aligned ⟨rfl, unchanged⟩
        rcases ih root passed below stopAligned remaining with
          ⟨last, ranRest, done⟩
        refine ⟨last, ?_, done⟩
        rw [if_neg (not_not.mpr unchanged)]
        exact ranRest
      rcases walk.rewrite inside searched (by omega) aligned with ⟨tree, ran, rewritten⟩
      rcases ih { root with tree := tree } rewritten below stopAligned
        remaining with ⟨last, ranRest, done⟩
      refine ⟨last, ?_, done⟩
      rw [if_pos unchanged]
      exact (bind_of_ok ran).trans ranRest
    · rw [if_neg inside]
      have reached : cursor = range.stop := by omega
      exact ⟨root.tree, rfl, (reached ▸ walk).finished⟩

end Reservation
end Carrick
