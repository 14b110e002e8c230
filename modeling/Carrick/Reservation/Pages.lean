import Carrick.Reservation.Root
import Mathlib.Data.List.Pairwise

namespace Carrick
namespace Reservation

open Foundation
open Command

/-!
# The mapping tree as a map from addresses

A tidy tree holds well-formed nodes that do not overlap, so it is a partial
map from addresses: each address is held by at most one node, which gives it a
protection, attributes, an incarnation and a byte source advanced by the
distance from the node's start.  The edits of the tree are described by what
they do to this map.  Splitting and coalescing leave it alone; erasing,
inserting, removing a range and rewriting a range change it exactly where
their nodes lie.
-/

/-- What a committed node says about one address.  A tree means a partial map
from addresses to cells, however it is cut into nodes. -/
structure Cell where
  prot : ReservationProtection
  flags : ReservationNodeFlags
  incarnation : Nat
  source : Option HostBackingIdentity
  deriving DecidableEq

def Node.cell (node : Node) (address : Nat) : Cell where
  prot := node.prot
  flags := node.flags
  incarnation := node.incarnation
  source := node.hostBacking.bind (fun backing => backing.advance (address - node.start))

structure Node.WellFormed (node : Node) : Prop where
  ordered : node.start < node.stop
  start_aligned : node.start % pageSize = 0
  stop_aligned : node.stop % pageSize = 0
  in_word : node.stop < wordLimit

/-- Well-formed nodes in address order without overlaps. -/
structure Tidy (tree : MappingTree) : Prop where
  apart : tree.toList.Pairwise (fun earlier later => earlier.stop <= later.start)
  formed : ∀ node ∈ tree.toList, node.WellFormed

/-- The committed map: what the tree says about an address, if a node holds it. -/
def cells (tree : MappingTree) (address : Nat) : Option Cell :=
  (tree.toList.find? (fun node => decide (node.covers address))).map
    (fun node => node.cell address)

/-! ## Tidy trees -/

theorem Tidy.leaf : Tidy .leaf := ⟨List.Pairwise.nil, nofun⟩

variable {tree : MappingTree}

theorem Tidy.sorted (tidy : Tidy tree) :
    SearchTree.Sorted Node.start tree := by
  refine List.Pairwise.imp_of_mem ?_ tidy.apart
  intro earlier later earlierMember _ disjoint
  exact Nat.lt_of_lt_of_le (tidy.formed earlier earlierMember).ordered disjoint

variable {first second : Node}

/-- Of two nodes, the one that starts lower ends before the other starts. -/
theorem Tidy.disjoint (tidy : Tidy tree) (firstMember : first ∈ tree.toList)
    (secondMember : second ∈ tree.toList) :
    first = second ∨ first.stop <= second.start ∨ second.stop <= first.start := by
  by_cases same : first = second
  · exact .inl same
  have symmetric : tree.toList.Pairwise (fun earlier later =>
      earlier.stop <= later.start ∨ later.stop <= earlier.start) :=
    List.Pairwise.imp .inl tidy.apart
  have swap : Std.Symm (fun earlier later : Node =>
      earlier.stop <= later.start ∨ later.stop <= earlier.start) :=
    ⟨fun _ _ order => Or.symm order⟩
  exact .inr (symmetric.forall firstMember secondMember same)

variable {address : Nat}

theorem Tidy.holder_unique (tidy : Tidy tree)
    (firstMember : first ∈ tree.toList) (secondMember : second ∈ tree.toList)
    (firstCovers : first.covers address) (secondCovers : second.covers address) :
    first = second := by
  unfold Node.covers at firstCovers secondCovers
  rcases tidy.disjoint firstMember secondMember with same | below | above
  · exact same
  · omega
  · omega

theorem Tidy.eq_of_start (tidy : Tidy tree)
    (firstMember : first ∈ tree.toList) (secondMember : second ∈ tree.toList)
    (same : first.start = second.start) : first = second := by
  have firstOrdered := (tidy.formed first firstMember).ordered
  have secondOrdered := (tidy.formed second secondMember).ordered
  exact tidy.holder_unique firstMember secondMember ⟨le_rfl, firstOrdered⟩
    ⟨Nat.le_of_eq same.symm, same ▸ secondOrdered⟩

variable {node : Node}

theorem cells_of_mem (tidy : Tidy tree) (member : node ∈ tree.toList)
    (covers : node.covers address) :
    cells tree address = some (node.cell address) := by
  unfold cells
  cases found : tree.toList.find? (fun node => decide (node.covers address)) with
  | none =>
    have refused := List.find?_eq_none.mp found node member
    simp [covers] at refused
  | some other =>
    have otherCovers : other.covers address := by simpa using List.find?_some found
    have same := tidy.holder_unique (List.mem_of_find?_eq_some found) member otherCovers covers
    rw [Option.map_some, same]

theorem exists_of_cells {cell : Cell}
    (found : cells tree address = some cell) :
    ∃ node ∈ tree.toList, node.covers address ∧ node.cell address = cell := by
  unfold cells at found
  rcases Option.map_eq_some_iff.mp found with ⟨node, holds, same⟩
  exact ⟨node, List.mem_of_find?_eq_some holds, by simpa using List.find?_some holds, same⟩

theorem cells_eq_none_iff :
    cells tree address = none <-> ∀ node ∈ tree.toList, ¬ node.covers address := by
  unfold cells
  rw [Option.map_eq_none_iff, List.find?_eq_none]
  simp

/-! ## Erasing and inserting a node -/

theorem Tidy.erase (tidy : Tidy tree) (start : Nat) :
    Tidy (eraseNode start tree) := by
  unfold eraseNode
  refine ⟨?_, ?_⟩
  · rw [SearchTree.toList_erase tidy.sorted]
    exact tidy.apart.filter _
  · intro node member
    exact tidy.formed node ((SearchTree.mem_erase tidy.sorted).mp member).1

theorem mem_eraseNode (tidy : Tidy tree) {other : Node}
    (member : node ∈ tree.toList) :
    other ∈ (eraseNode node.start tree).toList <-> other ∈ tree.toList ∧ other ≠ node := by
  unfold eraseNode
  rw [SearchTree.mem_erase tidy.sorted]
  constructor
  · rintro ⟨otherMember, different⟩
    exact ⟨otherMember, fun same => different (by rw [same])⟩
  · rintro ⟨otherMember, different⟩
    exact ⟨otherMember, fun same => different (tidy.eq_of_start otherMember member same)⟩

theorem cells_erase (tidy : Tidy tree) (member : node ∈ tree.toList)
    (address : Nat) :
    cells (eraseNode node.start tree) address =
      if node.covers address then none else cells tree address := by
  split
  · rename_i covers
    rw [cells_eq_none_iff]
    intro other otherMember otherCovers
    rcases (mem_eraseNode tidy member).mp otherMember with ⟨kept, different⟩
    exact different (tidy.holder_unique kept member otherCovers covers)
  rename_i outside
  cases found : cells tree address with
  | none =>
    rw [cells_eq_none_iff] at found ⊢
    exact fun other otherMember => found other ((mem_eraseNode tidy member).mp otherMember).1
  | some cell =>
    rcases exists_of_cells found with ⟨holder, holderMember, covers, rfl⟩
    refine cells_of_mem (tidy.erase _) ?_ covers
    refine (mem_eraseNode tidy member).mpr ⟨holderMember, ?_⟩
    rintro rfl
    exact outside covers

/-- The range of a node meets no node of the tree. -/
def Free (tree : MappingTree) (start stop : Nat) : Prop :=
  ∀ node ∈ tree.toList, node.stop <= start ∨ stop <= node.start

theorem mem_insertNode {other : Node} :
    other ∈ (insertNode node tree).toList <-> other = node ∨ other ∈ tree.toList := by
  unfold insertNode
  rw [(SearchTree.insert_perm node tree).mem_iff, List.mem_cons]

theorem Tidy.insert (tidy : Tidy tree) (formed : node.WellFormed)
    (free : Free tree node.start node.stop) :
    Tidy (insertNode node tree) := by
  have apartFrom : ∀ other ∈ tree.toList,
      other.stop <= node.start ∨ node.stop <= other.start := free
  have fresh : ∀ other ∈ tree.toList, other.start ≠ node.start := by
    intro other member same
    have ordered := (tidy.formed other member).ordered
    have nodeOrdered := formed.ordered
    rcases apartFrom other member with below | above <;> omega
  have sorted : SearchTree.Sorted Node.start (insertNode node tree) := tidy.sorted.insert fresh
  refine ⟨?_, ?_⟩
  · refine List.Pairwise.imp_of_mem ?_ sorted
    intro earlier later earlierMember laterMember before
    rcases mem_insertNode.mp earlierMember with rfl | earlierOld
    · rcases mem_insertNode.mp laterMember with rfl | laterOld
      · omega
      · have ordered := (tidy.formed later laterOld).ordered
        rcases apartFrom later laterOld with below | above <;> omega
    have ordered := (tidy.formed earlier earlierOld).ordered
    rcases mem_insertNode.mp laterMember with rfl | laterOld
    · have laterOrdered := formed.ordered
      rcases apartFrom earlier earlierOld with below | above <;> omega
    · have laterOrdered := (tidy.formed later laterOld).ordered
      rcases tidy.disjoint earlierOld laterOld with rfl | below | above <;> omega
  · intro other member
    rcases mem_insertNode.mp member with rfl | old
    · exact formed
    · exact tidy.formed other old

theorem cells_insert (tidy : Tidy tree) (formed : node.WellFormed)
    (free : Free tree node.start node.stop) (address : Nat) :
    cells (insertNode node tree) address =
      if node.covers address then some (node.cell address) else cells tree address := by
  have tidyAfter := tidy.insert formed free
  split
  · rename_i covers
    exact cells_of_mem tidyAfter (mem_insertNode.mpr (.inl rfl)) covers
  rename_i outside
  cases found : cells tree address with
  | none =>
    rw [cells_eq_none_iff] at found ⊢
    intro other member
    rcases mem_insertNode.mp member with rfl | old
    · exact outside
    · exact found other old
  | some cell =>
    rcases exists_of_cells found with ⟨holder, member, covers, rfl⟩
    exact cells_of_mem tidyAfter (mem_insertNode.mpr (.inr member)) covers

/-! ## Searching -/

variable {root : Root}

theorem next_eq_find? (tidy : Tidy root.tree) (address : Nat) :
    root.next address = root.tree.toList.find? (fun node => decide (address < node.stop)) := by
  refine SearchTree.first_eq_find? _ _ (List.Pairwise.imp_of_mem ?_ tidy.apart)
  intro earlier later _ laterMember disjoint admitted
  have ordered := (tidy.formed later laterMember).ordered
  have reaches := of_decide_eq_true admitted
  exact decide_eq_true (by omega)

theorem next_eq_some (tidy : Tidy root.tree) (found : root.next address = some node) :
    node ∈ root.tree.toList ∧ address < node.stop ∧
      ∀ other ∈ root.tree.toList, other ≠ node ->
        other.stop <= address ∧ other.stop <= node.start ∨ node.stop <= other.start := by
  rw [next_eq_find? tidy] at found
  rcases List.find?_eq_some_iff_append.mp found with ⟨reaches, before, after, shape, passed⟩
  have apart := tidy.apart
  rw [shape, List.pairwise_append, List.pairwise_cons] at apart
  rcases apart with ⟨_, ⟨above, _⟩, across⟩
  refine ⟨by simp [shape], of_decide_eq_true reaches, ?_⟩
  intro other member different
  rw [shape, List.mem_append, List.mem_cons] at member
  rcases member with inBefore | rfl | inAfter
  · have refused := passed other inBefore
    have short : ¬ address < other.stop := by simpa using refused
    exact .inl ⟨Nat.le_of_not_lt short, across other inBefore node List.mem_cons_self⟩
  · exact absurd rfl different
  · exact .inr (above other inAfter)

theorem next_eq_none (tidy : Tidy root.tree) (found : root.next address = none) :
    ∀ node ∈ root.tree.toList, node.stop <= address := by
  rw [next_eq_find? tidy, List.find?_eq_none] at found
  intro node member
  exact Nat.le_of_not_lt (by simpa using found node member)

/-! ## Byte sources of nodes -/

/-- A node's byte source reaches the start of its last page, so that every
page of the node has a source of its own. -/
def Node.Reaches (node : Node) : Prop :=
  ∀ backing, node.hostBacking = some backing ->
    backing.offset + node.len < wordLimit + pageSize

/-- The bytes a node maps from a source. -/
def Node.weight (node : Node) (name : SourceName) : Nat :=
  if node.hostBacking.map HostBackingIdentity.name = some name then node.len else 0

def Reaching (tree : MappingTree) : Prop :=
  ∀ node ∈ tree.toList, node.Reaches

/-- The bytes the committed nodes map from a source. -/
def total (tree : MappingTree) (name : SourceName) : Nat :=
  (tree.toList.map (fun node => node.weight name)).sum

theorem total_insert (tree : MappingTree) (node : Node) (name : SourceName) :
    total (insertNode node tree) name = node.weight name + total tree name := by
  unfold total insertNode
  rw [((SearchTree.insert_perm node tree).map _).sum_nat]
  simp

theorem total_erase (tidy : Tidy tree) (member : node ∈ tree.toList)
    (name : SourceName) :
    total tree name = node.weight name + total (eraseNode node.start tree) name := by
  unfold total eraseNode
  have parts : tree.toList.Perm
      (node :: (tree.erase mappingSummary Node.start node.start).toList) :=
    SearchTree.erase_perm tidy.sorted member
  rw [(parts.map _).sum_nat]
  simp

theorem Reaching.erase (tidy : Tidy tree) (reaching : Reaching tree)
    (start : Nat) : Reaching (eraseNode start tree) :=
  fun node member => reaching node ((SearchTree.mem_erase tidy.sorted).mp member).1

theorem Reaching.insert (reaching : Reaching tree) (reaches : node.Reaches) :
    Reaching (insertNode node tree) := by
  intro other member
  rcases mem_insertNode.mp member with rfl | old
  · exact reaches
  · exact reaching other old

/-! ## Cutting and joining nodes -/

/-- Another way to cut the same map into nodes: no address changes, and no
source is mapped more or less. -/
structure Recut (before after : MappingTree) : Prop where
  tidy : Tidy after
  cells_eq : ∀ address, cells after address = cells before address
  sources : Reaching before -> Reaching after ∧ ∀ name, total after name = total before name

theorem Recut.refl (tidy : Tidy tree) : Recut tree tree :=
  ⟨tidy, fun _ => rfl, fun reaching => ⟨reaching, fun _ => rfl⟩⟩

theorem Recut.trans {first second third : MappingTree} (earlier : Recut first second)
    (later : Recut second third) : Recut first third := by
  refine ⟨later.tidy, ?_, ?_⟩
  · intro address
    rw [later.cells_eq, earlier.cells_eq]
  · intro reaching
    rcases earlier.sources reaching with ⟨middle, firstTotals⟩
    rcases later.sources middle with ⟨last, secondTotals⟩
    exact ⟨last, fun name => (secondTotals name).trans (firstTotals name)⟩

/-- Two adjacent nodes that say the same as one node over both. -/
structure Halves (whole lower upper : Node) : Prop where
  start_eq : lower.start = whole.start
  meet : lower.stop = upper.start
  stop_eq : upper.stop = whole.stop
  lower_cell : ∀ address, lower.covers address -> lower.cell address = whole.cell address
  upper_cell : ∀ address, upper.covers address -> upper.cell address = whole.cell address

section Halves

variable {whole lower upper : Node}

theorem Halves.lower_free (halves : Halves whole lower upper) (upperFormed : upper.WellFormed)
    (free : Free tree whole.start whole.stop) : Free tree lower.start lower.stop := by
  intro node member
  have startEq := halves.start_eq
  have meet := halves.meet
  have stopEq := halves.stop_eq
  have ordered := upperFormed.ordered
  rcases free node member with below | above <;> omega

theorem Halves.upper_free (halves : Halves whole lower upper) (lowerFormed : lower.WellFormed)
    (free : Free tree whole.start whole.stop) :
    Free (insertNode lower tree) upper.start upper.stop := by
  intro node member
  have startEq := halves.start_eq
  have meet := halves.meet
  have stopEq := halves.stop_eq
  have ordered := lowerFormed.ordered
  rcases mem_insertNode.mp member with rfl | old
  · exact .inl (Nat.le_of_eq meet)
  · rcases free node old with below | above <;> omega

theorem Halves.cells_eq (halves : Halves whole lower upper) (tidy : Tidy tree)
    (lowerFormed : lower.WellFormed) (upperFormed : upper.WellFormed)
    (wholeFormed : whole.WellFormed) (free : Free tree whole.start whole.stop) (address : Nat) :
    cells (insertNode upper (insertNode lower tree)) address =
      cells (insertNode whole tree) address := by
  have startEq := halves.start_eq
  have meet := halves.meet
  have stopEq := halves.stop_eq
  have lowerOrdered := lowerFormed.ordered
  have upperOrdered := upperFormed.ordered
  have lowerFree := halves.lower_free upperFormed free
  rw [cells_insert (tidy.insert lowerFormed lowerFree) upperFormed
    (halves.upper_free lowerFormed free), cells_insert tidy lowerFormed lowerFree,
    cells_insert tidy wholeFormed free]
  by_cases inUpper : upper.covers address
  · have inWhole : whole.covers address := by
      unfold Node.covers at inUpper ⊢
      omega
    rw [if_pos inUpper, if_pos inWhole, halves.upper_cell address inUpper]
  rw [if_neg inUpper]
  by_cases inLower : lower.covers address
  · have inWhole : whole.covers address := by
      unfold Node.covers at inLower ⊢
      omega
    rw [if_pos inLower, if_pos inWhole, halves.lower_cell address inLower]
  · have outside : ¬ whole.covers address := by
      unfold Node.covers at inUpper inLower ⊢
      omega
    rw [if_neg inLower, if_neg outside]

theorem Halves.cut (halves : Halves whole lower upper) (tidy : Tidy tree)
    (lowerFormed : lower.WellFormed) (upperFormed : upper.WellFormed)
    (wholeFormed : whole.WellFormed) (free : Free tree whole.start whole.stop)
    (sources : whole.Reaches -> lower.Reaches ∧ upper.Reaches ∧
      ∀ name, whole.weight name = lower.weight name + upper.weight name) :
    Recut (insertNode whole tree) (insertNode upper (insertNode lower tree)) := by
  refine ⟨(tidy.insert lowerFormed (halves.lower_free upperFormed free)).insert upperFormed
    (halves.upper_free lowerFormed free),
    halves.cells_eq tidy lowerFormed upperFormed wholeFormed free, ?_⟩
  intro reaching
  have rest : Reaching tree := fun node member => reaching node (mem_insertNode.mpr (.inr member))
  rcases sources (reaching whole (mem_insertNode.mpr (.inl rfl))) with ⟨low, high, weights⟩
  refine ⟨(rest.insert low).insert high, fun name => ?_⟩
  rw [total_insert, total_insert, total_insert, weights]
  omega

theorem Halves.join (halves : Halves whole lower upper) (tidy : Tidy tree)
    (lowerFormed : lower.WellFormed) (upperFormed : upper.WellFormed)
    (wholeFormed : whole.WellFormed) (free : Free tree whole.start whole.stop)
    (sources : lower.Reaches -> upper.Reaches -> whole.Reaches ∧
      ∀ name, whole.weight name = lower.weight name + upper.weight name) :
    Recut (insertNode upper (insertNode lower tree)) (insertNode whole tree) := by
  refine ⟨tidy.insert wholeFormed free, fun address =>
    (halves.cells_eq tidy lowerFormed upperFormed wholeFormed free address).symm, ?_⟩
  intro reaching
  have low : lower.Reaches :=
    reaching lower (mem_insertNode.mpr (.inr (mem_insertNode.mpr (.inl rfl))))
  have high : upper.Reaches := reaching upper (mem_insertNode.mpr (.inl rfl))
  have rest : Reaching tree := fun node member =>
    reaching node (mem_insertNode.mpr (.inr (mem_insertNode.mpr (.inr member))))
  rcases sources low high with ⟨reaches, weights⟩
  refine ⟨rest.insert reaches, fun name => ?_⟩
  rw [total_insert, total_insert, total_insert, weights]
  omega

end Halves

/-! ### Splitting at an address -/

/-- No node straddles the address. -/
def Cut (tree : MappingTree) (address : Nat) : Prop :=
  ∀ node ∈ tree.toList, node.stop <= address ∨ address <= node.start

theorem Node.halves_of_cut (above : node.start < address) :
    Halves node (node.lowHalf address) (node.highHalf address) := by
  refine ⟨rfl, rfl, rfl, fun _ _ => rfl, ?_⟩
  intro other covers
  have high : address <= other := covers.1
  unfold Node.cell Node.highHalf
  dsimp only
  cases node.hostBacking with
  | none => rfl
  | some backing =>
    have distance : other - node.start = address - node.start + (other - address) := by omega
    rw [Option.bind_some, Option.bind_some, backing.advance_bind, distance]

/-- A source that reaches the last page is advanced to every aligned cut. -/
theorem Node.sources_of_cut (formed : node.WellFormed) (aligned : address % pageSize = 0)
    (above : node.start < address) (below : address < node.stop) (reaches : node.Reaches) :
    (node.lowHalf address).Reaches ∧ (node.highHalf address).Reaches ∧ ∀ name,
      node.weight name = (node.lowHalf address).weight name + (node.highHalf address).weight name := by
  have startAligned := formed.start_aligned
  have stopAligned := formed.stop_aligned
  have lengths : node.len = (node.lowHalf address).len + (node.highHalf address).len := by
    unfold Node.len Node.lowHalf Node.highHalf
    dsimp only
    omega
  have room : address - node.start + pageSize <= node.len := by
    unfold Node.len pageSize at *
    omega
  cases has : node.hostBacking with
  | none =>
    refine ⟨?_, ?_, ?_⟩
    · intro backing hasBacking
      dsimp only [Node.lowHalf] at hasBacking
      rw [has] at hasBacking
      cases hasBacking
    · intro backing hasBacking
      dsimp only [Node.highHalf] at hasBacking
      rw [has] at hasBacking
      cases hasBacking
    · intro name
      simp [Node.weight, Node.lowHalf, Node.highHalf, has]
  | some backing =>
    have whole := reaches backing has
    have inside : backing.offset + (address - node.start) < wordLimit := by omega
    have advanced : backing.advance (address - node.start) = some ⟨backing.name, _, inside⟩ :=
      dif_pos inside
    refine ⟨?_, ?_, ?_⟩
    · intro other hasOther
      dsimp only [Node.lowHalf] at hasOther
      rw [has] at hasOther
      cases hasOther
      omega
    · intro other hasOther
      dsimp only [Node.highHalf] at hasOther
      rw [has, Option.bind_some, advanced] at hasOther
      cases hasOther
      dsimp only
      unfold Node.len Node.highHalf at *
      dsimp only at *
      omega
    intro name
    unfold Node.weight
    rw [show (node.lowHalf address).hostBacking = some backing from has,
      show (node.highHalf address).hostBacking = some ⟨backing.name, _, inside⟩ by
        dsimp only [Node.highHalf]
        rw [has, Option.bind_some, advanced], has, lengths]
    dsimp only [Option.map_some]
    split <;> omega

theorem straddles_iff :
    root.straddles address = true <->
      ∃ node, root.next address = some node ∧ node.start < address := by
  unfold Root.straddles
  cases root.next address with
  | none => simp
  | some node => simp

theorem cut_of_not_straddles (tidy : Tidy root.tree) (whole : root.straddles address = false) :
    Cut root.tree address := by
  intro node member
  cases found : root.next address with
  | none => exact .inl (next_eq_none tidy found node member)
  | some first =>
    have above : address <= first.start := by
      by_contra below
      rw [straddles_iff.mpr ⟨first, found, by omega⟩] at whole
      cases whole
    rcases next_eq_some tidy found with ⟨_, _, others⟩
    by_cases same : node = first
    · exact .inr (same ▸ above)
    · have ordered := (tidy.formed first (next_eq_some tidy found).1).ordered
      rcases others node member same with below | higher <;> omega

theorem not_straddles_of_cut (root : Root) (tidy : Tidy root.tree) (cut : Cut root.tree address) :
    root.straddles address = false := by
  by_contra straddling
  rcases straddles_iff.mp (by simpa using straddling) with ⟨node, found, below⟩
  rcases next_eq_some tidy found with ⟨member, above, _⟩
  rcases cut node member with stopped | started <;> omega

theorem free_erase (tidy : Tidy tree) (member : node ∈ tree.toList) :
    Free (eraseNode node.start tree) node.start node.stop := by
  intro other otherMember
  rcases (mem_eraseNode tidy member).mp otherMember with ⟨kept, different⟩
  rcases tidy.disjoint kept member with same | below | above
  · exact absurd same different
  · exact .inl below
  · exact .inr above

theorem Recut.reinsert (tidy : Tidy tree) (member : node ∈ tree.toList) :
    Recut tree (insertNode node (eraseNode node.start tree)) := by
  have formed := tidy.formed node member
  have free := free_erase tidy member
  refine ⟨(tidy.erase _).insert formed free, ?_, ?_⟩
  · intro address
    rw [cells_insert (tidy.erase _) formed free, cells_erase tidy member]
    split
    · rename_i covers
      rw [cells_of_mem tidy member covers]
    · rfl
  · intro reaching
    refine ⟨(reaching.erase tidy _).insert (reaching node member), fun name => ?_⟩
    rw [total_insert, total_erase tidy member]

/-- Splitting keeps the map, cuts it at the address, and uses a spare exactly
when a node straddles the address. -/
theorem splitAt_spec (root : Root) (tidy : Tidy root.tree) (aligned : address % pageSize = 0)
    (spares : List SpareNode) :
    (splitAt address spares root = (.error .stale, root) ∧ spares = [] ∧
      root.straddles address = true) ∨
    ∃ tree, splitAt address spares root =
        (.ok (spares.drop (root.straddles address).toNat), { root with tree := tree }) ∧
      Recut root.tree tree ∧ Cut tree address ∧
      ∀ other, Cut root.tree other -> Cut tree other := by
  unfold splitAt
  rw [observe_bind_apply]
  cases straddling : root.straddles address with
  | false =>
    have skipped : (root.next address).filter (fun node => decide (node.start < address)) = none := by
      rw [Option.filter_eq_none_iff]
      intro node found below
      rw [straddles_iff.mpr ⟨node, found, by simpa using below⟩] at straddling
      cases straddling
    rw [skipped]
    exact .inr ⟨root.tree, rfl, Recut.refl tidy, cut_of_not_straddles tidy straddling,
      fun _ cut => cut⟩
  | true =>
    rcases straddles_iff.mp straddling with ⟨node, found, below⟩
    rcases next_eq_some tidy found with ⟨member, above, _⟩
    have formed := tidy.formed node member
    rw [found, Option.filter_some, if_pos (decide_eq_true below)]
    cases spares with
    | nil => exact .inl ⟨rfl, rfl, rfl⟩
    | cons spare rest =>
      right
      have lowFormed : (node.lowHalf address).WellFormed :=
        ⟨below, formed.start_aligned, aligned, Nat.lt_trans above formed.in_word⟩
      have highFormed : (node.highHalf address).WellFormed :=
        ⟨above, aligned, formed.stop_aligned, formed.in_word⟩
      refine ⟨_, rfl, (Recut.reinsert tidy member).trans
        ((Node.halves_of_cut below).cut (tidy.erase _) lowFormed highFormed formed
          (free_erase tidy member)
          (Node.sources_of_cut formed aligned below above)), ?_, ?_⟩
      · intro other otherMember
        rcases mem_insertNode.mp otherMember with rfl | otherMember
        · exact .inr le_rfl
        · rcases mem_insertNode.mp otherMember with rfl | old
          · exact .inl le_rfl
          · rcases free_erase tidy member other old with lower | higher <;> omega
      intro place cut other otherMember
      rcases cut node member with lower | higher
      · rcases mem_insertNode.mp otherMember with rfl | otherMember
        · exact .inl lower
        · rcases mem_insertNode.mp otherMember with rfl | old
          · exact .inl (Nat.le_trans (Nat.le_of_lt above) lower)
          · exact cut other ((mem_eraseNode tidy member).mp old).1
      rcases mem_insertNode.mp otherMember with rfl | otherMember
      · exact .inr (Nat.le_trans higher (Nat.le_of_lt below))
      · rcases mem_insertNode.mp otherMember with rfl | old
        · exact .inr higher
        · exact cut other ((mem_eraseNode tidy member).mp old).1

/-! ### Coalescing with the neighbours -/

/-- A node that goes on where a lower one ends, as part of the same mapping
and the same incarnation. -/
structure Continues (lower upper : Node) : Prop where
  meet : lower.stop = upper.start
  prot_eq : lower.prot = upper.prot
  flags_eq : lower.flags = upper.flags
  incarnation_eq : lower.incarnation = upper.incarnation
  source : lower.hostBacking = none ∧ upper.hostBacking = none ∨
    ∃ first second, lower.hostBacking = some first ∧ upper.hostBacking = some second ∧
      first.advance (upper.start - lower.start) = some second

theorem Continues.of_left {left : Node} (meet : left.stop = node.start)
    (ordered : left.start < left.stop) (joins : left.joins node = true) :
    Continues left node := by
  unfold Node.joins Node.sameMapping at joins
  simp only [Bool.and_eq_true, decide_eq_true_eq] at joins
  rcases joins with ⟨⟨⟨protEq, flagsEq⟩, sources⟩, incarnationEq⟩
  refine ⟨meet, protEq, flagsEq, incarnationEq, ?_⟩
  cases leftSource : left.hostBacking with
  | none =>
    cases nodeSource : node.hostBacking with
    | none => exact .inl ⟨rfl, rfl⟩
    | some second => simp [leftSource, nodeSource] at sources
  | some first =>
    cases nodeSource : node.hostBacking with
    | none => simp [leftSource, nodeSource] at sources
    | some second =>
      have lower : left.start <= node.start := by omega
      simp only [leftSource, nodeSource, if_pos lower, decide_eq_true_eq] at sources
      exact .inr ⟨first, second, rfl, rfl, sources⟩

theorem Continues.of_right {right : Node} (meet : node.stop = right.start)
    (ordered : node.start < node.stop) (joins : right.joins node = true) :
    Continues node right := by
  unfold Node.joins Node.sameMapping at joins
  simp only [Bool.and_eq_true, decide_eq_true_eq] at joins
  rcases joins with ⟨⟨⟨protEq, flagsEq⟩, sources⟩, incarnationEq⟩
  refine ⟨meet, protEq.symm, flagsEq.symm, incarnationEq.symm, ?_⟩
  cases nodeSource : node.hostBacking with
  | none =>
    cases rightSource : right.hostBacking with
    | none => exact .inl ⟨rfl, rfl⟩
    | some second => simp [rightSource, nodeSource] at sources
  | some first =>
    cases rightSource : right.hostBacking with
    | none => simp [rightSource, nodeSource] at sources
    | some second =>
      have higher : ¬ right.start <= node.start := by omega
      simp only [rightSource, nodeSource, if_neg higher, decide_eq_true_eq] at sources
      exact .inr ⟨first, second, rfl, rfl, sources⟩

/-- The node over both of two that continue each other. -/
def Node.upTo (lower upper : Node) : Node := { lower with stop := upper.stop }

theorem Continues.halves {lower upper : Node} (continues : Continues lower upper)
    (ordered : lower.start < lower.stop) : Halves (lower.upTo upper) lower upper := by
  refine ⟨rfl, continues.meet, rfl, fun _ _ => rfl, ?_⟩
  intro address covers
  have high : upper.start <= address := covers.1
  have meet := continues.meet
  unfold Node.cell Node.upTo
  dsimp only
  rw [continues.prot_eq, continues.flags_eq, continues.incarnation_eq]
  rcases continues.source with ⟨noFirst, noSecond⟩ | ⟨first, second, hasFirst, hasSecond, advanced⟩
  · rw [noFirst, noSecond]
    rfl
  · have distance : address - lower.start =
        (upper.start - lower.start) + (address - upper.start) := by omega
    rw [hasFirst, hasSecond, Option.bind_some, Option.bind_some, distance, <- first.advance_bind,
      advanced, Option.bind_some]

theorem Continues.sources {lower upper : Node} (continues : Continues lower upper)
    (lowerOrdered : lower.start < lower.stop) (upperOrdered : upper.start < upper.stop)
    (upperReaches : upper.Reaches) :
    (lower.upTo upper).Reaches ∧ ∀ name,
      (lower.upTo upper).weight name = lower.weight name + upper.weight name := by
  have meet := continues.meet
  have lengths : (lower.upTo upper).len = lower.len + upper.len := by
    unfold Node.len Node.upTo
    dsimp only
    omega
  rcases continues.source with ⟨noFirst, noSecond⟩ | ⟨first, second, hasFirst, hasSecond, advanced⟩
  · refine ⟨?_, ?_⟩
    · intro backing has
      rw [show (lower.upTo upper).hostBacking = lower.hostBacking from rfl, noFirst] at has
      cases has
    · intro name
      simp [Node.weight, Node.upTo, noFirst, noSecond]
  rcases HostBackingIdentity.advance_eq_some advanced with ⟨sameName, offset⟩
  have whole := upperReaches second hasSecond
  refine ⟨?_, ?_⟩
  · intro backing has
    rw [show (lower.upTo upper).hostBacking = lower.hostBacking from rfl, hasFirst] at has
    cases has
    rw [lengths]
    unfold Node.len at whole ⊢
    omega
  · intro name
    unfold Node.weight
    rw [show (lower.upTo upper).hostBacking = lower.hostBacking from rfl, hasFirst, hasSecond,
      lengths, Option.map_some, Option.map_some, sameName]
    split <;> omega

theorem leftNeighbour_eq_some (tidy : Tidy root.tree) {left : Node}
    (found : root.leftNeighbour node = some left) :
    left ∈ root.tree.toList ∧ left.stop = node.start := by
  unfold Root.leftNeighbour at found
  split at found
  · cases found
  · rcases Option.filter_eq_some_iff.mp found with ⟨searched, meet⟩
    exact ⟨(next_eq_some tidy searched).1, of_decide_eq_true meet⟩

theorem rightNeighbour_eq_some (tidy : Tidy root.tree) {right : Node}
    (found : root.rightNeighbour node = some right) :
    right ∈ root.tree.toList ∧ right.start = node.stop := by
  unfold Root.rightNeighbour at found
  rcases Option.filter_eq_some_iff.mp found with ⟨searched, meet⟩
  exact ⟨(next_eq_some tidy searched).1, of_decide_eq_true meet⟩

theorem Recut.of_perm {before after : MappingTree} (tidy : Tidy after)
    (same : after.toList.Perm before.toList) : Recut before after := by
  refine ⟨tidy, ?_, ?_⟩
  · intro address
    cases found : cells before address with
    | none =>
      rw [cells_eq_none_iff] at found ⊢
      exact fun node member => found node (same.mem_iff.mp member)
    | some cell =>
      rcases exists_of_cells found with ⟨node, member, covers, rfl⟩
      exact cells_of_mem tidy (same.mem_iff.mpr member) covers
  · intro reaching
    refine ⟨fun node member => reaching node (same.mem_iff.mp member), fun name => ?_⟩
    exact (same.map (fun node => node.weight name)).sum_nat

theorem insertNode_perm (node : Node) (tree : MappingTree) :
    (insertNode node tree).toList.Perm (node :: tree.toList) :=
  SearchTree.insert_perm node tree

theorem eraseNode_perm (tidy : Tidy tree) (member : node ∈ tree.toList) :
    tree.toList.Perm (node :: (eraseNode node.start tree).toList) :=
  SearchTree.erase_perm tidy.sorted member

section Absorb

variable {lower upper : Node}

theorem Continues.upTo_formed (continues : Continues lower upper) (lowerFormed : lower.WellFormed)
    (upperFormed : upper.WellFormed) : (lower.upTo upper).WellFormed := by
  have meet := continues.meet
  have lowerOrdered := lowerFormed.ordered
  have upperOrdered := upperFormed.ordered
  exact ⟨show lower.start < upper.stop by omega, lowerFormed.start_aligned,
    upperFormed.stop_aligned, upperFormed.in_word⟩

/-- Nodes that continue each other are one node beside the rest of a tree. -/
theorem Continues.absorb {before : MappingTree} (continues : Continues lower upper) (tidy : Tidy tree)
    (lowerFormed : lower.WellFormed) (upperFormed : upper.WellFormed)
    (free : Free tree lower.start upper.stop)
    (same : before.toList.Perm (upper :: lower :: tree.toList)) :
    Recut before (insertNode (lower.upTo upper) tree) := by
  have halves := continues.halves lowerFormed.ordered
  have lowerFree := halves.lower_free upperFormed free
  have upperFree := halves.upper_free lowerFormed free
  have apart : Tidy (insertNode upper (insertNode lower tree)) :=
    (tidy.insert lowerFormed lowerFree).insert upperFormed upperFree
  refine (Recut.of_perm apart (List.Perm.trans ?_ same.symm)).trans
    (halves.join tidy lowerFormed upperFormed (continues.upTo_formed lowerFormed upperFormed)
      free (fun _ reaches => continues.sources lowerFormed.ordered upperFormed.ordered reaches))
  exact (insertNode_perm _ _).trans ((insertNode_perm _ _).cons _)

/-- Without a node of the tree, the range beside it is free over that node too. -/
theorem free_beside {node : Node} {start stop : Nat} (tidy : Tidy tree) (member : node ∈ tree.toList)
    (free : Free tree start stop) (_ : start < stop) :
    (node.stop = start -> Free (eraseNode node.start tree) node.start stop) ∧
      (stop = node.start -> Free (eraseNode node.start tree) start node.stop) := by
  have ordered := (tidy.formed node member).ordered
  constructor
  all_goals
    intro meet other kept
    have inTree := ((mem_eraseNode tidy member).mp kept).1
    have otherOrdered := (tidy.formed other inTree).ordered
    have fromNode := free_erase tidy member other kept
    have fromRange := free other inTree
    rcases fromNode with below | above <;> rcases fromRange with under | beyond <;> omega

/-- Taking the lower neighbour in: the tree then has one node for both. -/
theorem Continues.absorb_lower (continues : Continues lower upper) (tidy : Tidy tree)
    (member : lower ∈ tree.toList) (formed : upper.WellFormed)
    (free : Free tree upper.start upper.stop) :
    Free (eraseNode lower.start tree) lower.start upper.stop ∧
      Recut (insertNode upper tree)
        (insertNode (lower.upTo upper) (eraseNode lower.start tree)) := by
  have wholeFree := (free_beside tidy member free formed.ordered).1 continues.meet
  refine ⟨wholeFree, continues.absorb (tidy.erase _) (tidy.formed lower member) formed wholeFree ?_⟩
  exact (insertNode_perm _ _).trans ((eraseNode_perm tidy member).cons _)

theorem Continues.absorb_upper (continues : Continues lower upper) (tidy : Tidy tree)
    (member : upper ∈ tree.toList) (formed : lower.WellFormed)
    (free : Free tree lower.start lower.stop) :
    Free (eraseNode upper.start tree) lower.start upper.stop ∧
      Recut (insertNode lower tree)
        (insertNode (lower.upTo upper) (eraseNode upper.start tree)) := by
  have wholeFree := (free_beside tidy member free formed.ordered).2 continues.meet
  refine ⟨wholeFree, continues.absorb (tidy.erase _) formed (tidy.formed upper member) wholeFree ?_⟩
  refine (insertNode_perm _ _).trans (List.Perm.trans ?_ (List.Perm.swap _ _ _))
  exact (eraseNode_perm tidy member).cons _

end Absorb

/-- What coalescing leaves of a tree around an inserted node: old nodes, and
one node over the inserted one and the neighbours it absorbed. -/
structure Coalesced (before : MappingTree) (node : Node) (after : MappingTree) (merged : Node) :
    Prop where
  recut : Recut (insertNode node before) after
  members : ∀ other ∈ after.toList, other = merged ∨ other ∈ before.toList
  start_le : merged.start <= node.start
  prot_eq : merged.prot = node.prot
  flags_eq : merged.flags = node.flags
  stop_eq : merged.stop = node.stop ∨
    ∃ right ∈ before.toList, right.start = node.stop ∧ merged.stop = right.stop

theorem joinLeft_spec (root : Root) (tidy : Tidy root.tree) (formed : node.WellFormed)
    (free : Free root.tree node.start node.stop) :
    ∃ widened tree, joinLeft node root = (.ok widened, { root with tree := tree }) ∧
      Tidy tree ∧ (∀ other ∈ tree.toList, other ∈ root.tree.toList) ∧
      widened.WellFormed ∧ Free tree widened.start widened.stop ∧
      Recut (insertNode node root.tree) (insertNode widened tree) ∧
      widened.start <= node.start ∧ widened.stop = node.stop ∧ widened.prot = node.prot ∧
      widened.flags = node.flags := by
  unfold joinLeft
  rw [observe_bind_apply]
  cases found : (root.leftNeighbour node).filter (fun left => left.joins node) with
  | none =>
    exact ⟨node, root.tree, rfl, tidy, fun _ member => member, formed, free,
      Recut.refl (tidy.insert formed free), le_rfl, rfl, rfl, rfl⟩
  | some left =>
    rcases Option.filter_eq_some_iff.mp found with ⟨searched, joins⟩
    rcases leftNeighbour_eq_some tidy searched with ⟨member, meet⟩
    have leftFormed := tidy.formed left member
    have ordered := leftFormed.ordered
    have continues := Continues.of_left meet ordered joins
    rcases continues.absorb_lower tidy member formed free with ⟨wholeFree, recut⟩
    have shape : left.upTo node =
        { node with start := left.start, hostBacking := left.hostBacking } := by
      unfold Node.upTo
      rw [continues.prot_eq, continues.flags_eq, continues.incarnation_eq]
    rw [shape] at recut
    have wholeFormed := continues.upTo_formed leftFormed formed
    rw [shape] at wholeFormed
    exact ⟨_, _, rfl, tidy.erase _, fun other kept => ((mem_eraseNode tidy member).mp kept).1,
      wholeFormed, wholeFree, recut, by dsimp only; omega, rfl, rfl, rfl⟩

theorem joinRight_spec (root : Root) (tidy : Tidy root.tree) (formed : node.WellFormed)
    (free : Free root.tree node.start node.stop) :
    ∃ widened tree, joinRight node root = (.ok widened, { root with tree := tree }) ∧
      Tidy tree ∧ (∀ other ∈ tree.toList, other ∈ root.tree.toList) ∧
      widened.WellFormed ∧ Free tree widened.start widened.stop ∧
      Recut (insertNode node root.tree) (insertNode widened tree) ∧
      widened.start = node.start ∧ widened.prot = node.prot ∧ widened.flags = node.flags ∧
      (widened.stop = node.stop ∨
        ∃ right ∈ root.tree.toList, right.start = node.stop ∧ widened.stop = right.stop) := by
  unfold joinRight
  rw [observe_bind_apply]
  cases found : (root.rightNeighbour node).filter (fun right => right.joins node) with
  | none =>
    exact ⟨node, root.tree, rfl, tidy, fun _ member => member, formed, free,
      Recut.refl (tidy.insert formed free), rfl, rfl, rfl, .inl rfl⟩
  | some right =>
    rcases Option.filter_eq_some_iff.mp found with ⟨searched, joins⟩
    rcases rightNeighbour_eq_some tidy searched with ⟨member, meet⟩
    have rightFormed := tidy.formed right member
    have continues := Continues.of_right meet.symm formed.ordered joins
    rcases continues.absorb_upper tidy member formed free with ⟨wholeFree, recut⟩
    exact ⟨_, _, rfl, tidy.erase _, fun other kept => ((mem_eraseNode tidy member).mp kept).1,
      continues.upTo_formed formed rightFormed, wholeFree, recut, rfl, rfl, rfl,
      .inr ⟨right, member, meet, rfl⟩⟩

theorem insertCoalescing_spec (root : Root) (tidy : Tidy root.tree) (formed : node.WellFormed)
    (free : Free root.tree node.start node.stop) :
    ∃ tree merged, insertCoalescing node root = (.ok (), { root with tree := tree }) ∧
      Coalesced root.tree node tree merged := by
  rcases joinLeft_spec root tidy formed free with ⟨widened, leftTree, leftRun, leftTidy, leftOld,
    leftFormed, leftFree, leftRecut, leftStart, leftStop, leftProt, leftFlags⟩
  rcases joinRight_spec { root with tree := leftTree } leftTidy leftFormed leftFree with
    ⟨merged, tree, rightRun, rightTidy, rightOld, mergedFormed, mergedFree, rightRecut, rightStart,
      rightProt, rightFlags, rightStop⟩
  refine ⟨insertNode merged tree, merged, ?_, ⟨leftRecut.trans rightRecut, ?_, ?_,
    rightProt.trans leftProt, rightFlags.trans leftFlags, ?_⟩⟩
  · unfold insertCoalescing
    rw [bind_of_ok leftRun, bind_of_ok rightRun]
    rfl
  · intro other member
    rcases mem_insertNode.mp member with rfl | old
    · exact .inl rfl
    · exact .inr (leftOld other (rightOld other old))
  · omega
  · rcases rightStop with same | ⟨right, member, meet, stop⟩
    · exact .inl (same.trans leftStop)
    · exact .inr ⟨right, leftOld right member, meet.trans leftStop, stop⟩

end Reservation
end Carrick
