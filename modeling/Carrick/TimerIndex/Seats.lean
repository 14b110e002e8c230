import Carrick.TimerIndex.Index
import Mathlib.Order.Interval.Finset.Nat
import Mathlib.Tactic.Positivity

namespace Carrick
namespace TimerIndex

open Foundation

/-!
# Places of the heaps

The nodes of a heap sit at places numbered from 1.  The links of a node lead to
half its place and to twice its place, and the lease of every record in the
heap names the node where its key is.  An exchange of two keys of one heap
keeps all of this and what is known of every record.
-/

/-- The node with the key of another one. -/
def Node.take (node source : Node) : Node :=
  { node with
    record := source.record
    incarnation := source.incarnation
    seq := source.seq
    deadline := source.deadline }

/-- What the index knows of a record: its ticket, and whether it is active. -/
def Index.held (index : Index) (raw : Nat) : Option (Ticket × Bool) :=
  let lease := index.leases raw
  if lease.slot = 0 then none else some (index.key (lease.slot - 1) lease.node, lease.active)

/-- A place of the heap of a slot. -/
def Index.InHeap (index : Index) (slot place : Nat) : Prop := 1 <= place ∧ place <= (index.trees slot).len

/-- Every lease names an allocated node that holds the key of its record. -/
structure Leased (index : Index) : Prop where
  idle : ∀ raw, (index.leases raw).slot = 0 -> (index.leases raw).node = 0
  named : ∀ raw, (index.leases raw).slot ≠ 0 ->
    raw ≠ 0 ∧ raw < zoneRecords ∧ (index.nodes (index.leases raw).node).record = raw
  node : ∀ raw, (index.leases raw).slot ≠ 0 ->
    (index.leases raw).node ≠ 0 ∧ (index.leases raw).node < zoneRecords
  mapped : ∀ node, index.map node = true <->
    ∃ raw, (index.leases raw).slot ≠ 0 ∧ (index.leases raw).node = node
  reserved : ∀ raw, (index.leases raw).slot ≠ 0 -> (index.leases raw).active = false ->
    (index.nodes (index.leases raw).node).deadline = 0

/-- The heaps are complete binary trees over the places of `seat`, and hold
the active leases of their slots. -/
structure Seated (index : Index) (seat : Nat -> Nat -> Nat) : Prop where
  vacant : ∀ slot place, ¬ index.InHeap slot place -> seat slot place = 0
  root : ∀ slot, (index.trees slot).root = seat slot 1
  parent : ∀ slot place, index.InHeap slot place ->
    (index.nodes (seat slot place)).parent = seat slot (place / 2)
  left : ∀ slot place, index.InHeap slot place ->
    (index.nodes (seat slot place)).left = seat slot (2 * place)
  right : ∀ slot place, index.InHeap slot place ->
    (index.nodes (seat slot place)).right = seat slot (2 * place + 1)
  distinct : ∀ slot first second, index.InHeap slot first -> index.InHeap slot second ->
    seat slot first = seat slot second -> first = second
  leased : ∀ slot place, index.InHeap slot place ->
    index.leases (index.nodes (seat slot place)).record = ⟨slot + 1, seat slot place, true⟩
  seats : ∀ raw, (index.leases raw).slot ≠ 0 -> (index.leases raw).active = true ->
    ∃ slot place, index.InHeap slot place ∧ index.leases raw = ⟨slot + 1, seat slot place, true⟩

/-- Everything but the order of the keys: the leases name their nodes, and the
heaps seat them. -/
structure Placed (index : Index) (seat : Nat -> Nat -> Nat) : Prop where
  leased : Leased index
  seated : Seated index seat

/-- The keys of a heap by place. -/
def Index.rankAt (index : Index) (seat : Nat -> Nat -> Nat) (slot place : Nat) :
    Nat ×ₗ Nat ×ₗ Nat ×ₗ Nat :=
  (index.key slot (seat slot place)).rank

/-- The invariant of the index: every key has its lease and its seat, and each
heap is ordered by rank. -/
structure Formed (index : Index) (seat : Nat -> Nat -> Nat) : Prop where
  placed : Placed index seat
  ordered : ∀ slot, HeapOrdered (index.trees slot).len (index.rankAt seat slot)

section Places

variable {index : Index} {seat : Nat -> Nat -> Nat} {slot place : Nat}

theorem Placed.record (placed : Placed index seat) (inHeap : index.InHeap slot place) :
    ∃ record : RecordId, (index.nodes (seat slot place)).record = record.raw ∧
      index.lease record = ⟨slot + 1, seat slot place, true⟩ := by
  have leased := placed.seated.leased slot place inHeap
  rcases placed.leased.named (index.nodes (seat slot place)).record (by rw [leased]; simp) with
    ⟨named, bounded, _⟩
  exact ⟨⟨_, named, bounded⟩, rfl, leased⟩

theorem Placed.seat_node (placed : Placed index seat) (inHeap : index.InHeap slot place) :
    seat slot place ≠ 0 ∧ seat slot place < zoneRecords := by
  have leased := placed.seated.leased slot place inHeap
  have node := placed.leased.node (index.nodes (seat slot place)).record (by rw [leased]; simp)
  rw [leased] at node
  exact node

theorem Placed.seat_eq_zero_iff (placed : Placed index seat) :
    seat slot place = 0 <-> ¬ index.InHeap slot place :=
  ⟨fun zero inHeap => (placed.seat_node inHeap).1 zero, placed.seated.vacant slot place⟩

theorem Placed.seat_inj (placed : Placed index seat) {otherSlot other : Nat}
    (inHeap : index.InHeap slot place) (otherInHeap : index.InHeap otherSlot other)
    (same : seat slot place = seat otherSlot other) : slot = otherSlot ∧ place = other := by
  have leased := placed.seated.leased slot place inHeap
  have otherLeased := placed.seated.leased otherSlot other otherInHeap
  rw [same, otherLeased] at leased
  have sameSlot : slot = otherSlot := by
    have slots := congrArg Lease.slot leased
    dsimp only at slots
    omega
  subst sameSlot
  exact ⟨rfl, placed.seated.distinct slot place other inHeap otherInHeap same⟩

theorem Placed.len_lt (placed : Placed index seat) (slot : Nat) :
    (index.trees slot).len < zoneRecords := by
  have few : (Finset.Icc 1 (index.trees slot).len).card <= (Finset.Ico 1 zoneRecords).card := by
    refine Finset.card_le_card_of_injOn (seat slot) (fun place member => ?_) ?_
    · have inHeap : index.InHeap slot place := Finset.mem_Icc.mp member
      have node := placed.seat_node inHeap
      exact Finset.mem_coe.mpr (Finset.mem_Ico.mpr ⟨Nat.one_le_iff_ne_zero.mpr node.1, node.2⟩)
    · intro first firstMember second secondMember same
      exact placed.seated.distinct slot first second (Finset.mem_Icc.mp firstMember)
        (Finset.mem_Icc.mp secondMember) same
  rw [Nat.card_Icc, Nat.card_Ico] at few
  unfold zoneRecords at few ⊢
  omega

theorem Seated.nodeAt_eq (seated : Seated index seat) (inHeap : index.InHeap slot place) :
    index.nodeAt slot place = seat slot place := by
  have named : place ≠ 0 := Nat.one_le_iff_ne_zero.mp inHeap.1
  have walks : ∀ depth, depth <= Nat.log2 place ->
      (List.range depth).reverse.foldl
        (fun node bit => if place.testBit bit then (index.nodes node).right else (index.nodes node).left)
        (seat slot (place / 2 ^ depth)) = seat slot place := by
    intro depth
    induction depth with
    | zero =>
      intro _
      simp
    | succ depth ih =>
      intro shallow
      have top : 2 ^ (depth + 1) <= place :=
        (Nat.pow_le_pow_right (by omega) shallow).trans (Nat.log2_self_le named)
      have inside : index.InHeap slot (place / 2 ^ (depth + 1)) := by
        refine ⟨(Nat.le_div_iff_mul_le (by positivity)).mpr (by omega), ?_⟩
        exact (Nat.div_le_self _ _).trans inHeap.2
      have halves : place / 2 ^ (depth + 1) = place / 2 ^ depth / 2 := by
        rw [Nat.pow_succ, Nat.div_div_eq_div_mul]
      rw [List.range_succ, List.reverse_append, List.reverse_singleton, List.singleton_append,
        List.foldl_cons, seated.left slot _ inside, seated.right slot _ inside]
      have next : (if place.testBit depth then seat slot (2 * (place / 2 ^ (depth + 1)) + 1)
          else seat slot (2 * (place / 2 ^ (depth + 1)))) = seat slot (place / 2 ^ depth) := by
        rw [halves, Nat.testBit_eq_decide_div_mod_eq]
        split
        · rename_i odd
          rw [decide_eq_true_eq] at odd
          congr 1
          omega
        · rename_i even
          rw [decide_eq_true_eq] at even
          congr 1
          omega
      rw [next]
      exact ih (by omega)
  have whole := walks (Nat.log2 place) (le_refl _)
  have first : place / 2 ^ Nat.log2 place = 1 := by
    have lower := Nat.log2_self_le named
    have upper := @Nat.lt_log2_self place
    rw [Nat.div_eq_of_lt_le]
    · omega
    · rw [Nat.pow_succ] at upper
      omega
  rw [first, <- seated.root slot] at whole
  exact whole

end Places

/-! ## Exchanging keys -/

theorem Index.key_record {index : Index} {node : Nat} {record : RecordId}
    (holds : (index.nodes node).record = record.raw) (slot : Nat) :
    (index.key slot node).record.id = record := by
  unfold key
  dsimp only
  rw [holds, RecordId.fromRaw_raw]
  rfl

theorem Index.key_of_take {index other : Index} {node source : Nat} {kept : Node} (slot : Nat)
    (taken : other.nodes node = kept.take (index.nodes source)) :
    other.key slot node = index.key slot source := by
  unfold key
  rw [taken]
  rfl

theorem Index.key_of_eq {index other : Index} {node : Nat} (slot : Nat)
    (same : other.nodes node = index.nodes node) : other.key slot node = index.key slot node := by
  unfold key
  rw [same]

theorem Index.writeKey_nodes {index source : Index} {origin : Nat} {record : RecordId}
    (holds : (source.nodes origin).record = record.raw) (slot node : Nat) :
    (index.writeKey node (source.key slot origin)).nodes =
      Function.update index.nodes node ((index.nodes node).take (source.nodes origin)) := by
  have raw : (source.key slot origin).record.id.raw = (source.nodes origin).record := by
    rw [source.key_record holds, holds]
  unfold writeKey setLease setNode Node.take
  dsimp only
  rw [raw]
  rfl

theorem Index.writeKey_leases {index source : Index} {origin : Nat} {record : RecordId}
    (holds : (source.nodes origin).record = record.raw) (slot node : Nat) :
    (index.writeKey node (source.key slot origin)).leases =
      Function.update index.leases record.raw
        { index.leases record.raw with node := node, slot := slot + 1 } := by
  unfold writeKey setLease setNode lease
  dsimp only
  rw [source.key_record holds]
  rfl

/-- Two nodes exchange their keys, and the leases follow them. -/
structure Exchanged (first second : Nat) (index after : Index) : Prop where
  trees : after.trees = index.trees
  map : after.map = index.map
  atFirst : after.nodes first = (index.nodes first).take (index.nodes second)
  atSecond : after.nodes second = (index.nodes second).take (index.nodes first)
  others : ∀ node, node ≠ first -> node ≠ second -> after.nodes node = index.nodes node
  firstLease : after.leases (index.nodes first).record =
    { index.leases (index.nodes first).record with node := second }
  secondLease : after.leases (index.nodes second).record =
    { index.leases (index.nodes second).record with node := first }
  otherLeases : ∀ raw, raw ≠ (index.nodes first).record -> raw ≠ (index.nodes second).record ->
    after.leases raw = index.leases raw

section Exchange

variable {index : Index} {seat : Nat -> Nat -> Nat} {slot : Nat}

theorem Placed.swap_exchanged (placed : Placed index seat) {first second : Nat}
    (firstInHeap : index.InHeap slot first) (secondInHeap : index.InHeap slot second)
    (apart : first ≠ second) :
    Exchanged (seat slot first) (seat slot second) index
      (index.swap slot (seat slot first) (seat slot second)) := by
  rcases placed.record firstInHeap with ⟨firstRecord, firstHolds, firstLeased⟩
  rcases placed.record secondInHeap with ⟨secondRecord, secondHolds, secondLeased⟩
  have nodesApart : seat slot first ≠ seat slot second :=
    fun same => apart (placed.seated.distinct slot first second firstInHeap secondInHeap same)
  have recordsApart : firstRecord.raw ≠ secondRecord.raw := by
    intro same
    rw [<- RecordId.raw_inj same, firstLeased] at secondLeased
    exact nodesApart (congrArg Lease.node secondLeased)
  unfold Index.lease at firstLeased secondLeased
  have nodes : (index.swap slot (seat slot first) (seat slot second)).nodes =
      Function.update (Function.update index.nodes (seat slot first)
          ((index.nodes (seat slot first)).take (index.nodes (seat slot second))))
        (seat slot second) ((index.nodes (seat slot second)).take (index.nodes (seat slot first))) := by
    unfold Index.swap
    dsimp only
    rw [Index.writeKey_nodes firstHolds, Index.writeKey_nodes secondHolds,
      Function.update_of_ne nodesApart.symm]
  have leases : (index.swap slot (seat slot first) (seat slot second)).leases =
      Function.update (Function.update index.leases secondRecord.raw ⟨slot + 1, seat slot first, true⟩)
        firstRecord.raw ⟨slot + 1, seat slot second, true⟩ := by
    unfold Index.swap
    dsimp only
    rw [Index.writeKey_leases firstHolds, Index.writeKey_leases secondHolds,
      Function.update_of_ne recordsApart, firstLeased, secondLeased]
  refine ⟨rfl, rfl, ?_, ?_, ?_, ?_, ?_, ?_⟩
  · rw [nodes, Function.update_of_ne nodesApart, Function.update_self]
  · rw [nodes, Function.update_self]
  · intro node notFirst notSecond
    rw [nodes, Function.update_of_ne notSecond, Function.update_of_ne notFirst]
  · rw [firstHolds, leases, Function.update_self, firstLeased]
  · rw [secondHolds, leases, Function.update_of_ne recordsApart.symm, Function.update_self, secondLeased]
  · intro raw notFirst notSecond
    rw [firstHolds] at notFirst
    rw [secondHolds] at notSecond
    rw [leases, Function.update_of_ne notFirst, Function.update_of_ne notSecond]

variable {first second : Nat} {after : Index}

theorem Exchanged.links (exchanged : Exchanged first second index after) (node : Nat) :
    (after.nodes node).parent = (index.nodes node).parent ∧
      (after.nodes node).left = (index.nodes node).left ∧
      (after.nodes node).right = (index.nodes node).right := by
  by_cases isFirst : node = first
  · rw [isFirst, exchanged.atFirst]
    exact ⟨rfl, rfl, rfl⟩
  by_cases isSecond : node = second
  · rw [isSecond, exchanged.atSecond]
    exact ⟨rfl, rfl, rfl⟩
  · rw [exchanged.others node isFirst isSecond]
    exact ⟨rfl, rfl, rfl⟩

section Exchanged

variable (placed : Placed index seat) (firstInHeap : index.InHeap slot first)
  (secondInHeap : index.InHeap slot second)
  (exchanged : Exchanged (seat slot first) (seat slot second) index after)

include placed firstInHeap secondInHeap exchanged

theorem Exchanged.lease_cases (raw : Nat) :
    (raw = (index.nodes (seat slot first)).record ∧
      index.leases raw = ⟨slot + 1, seat slot first, true⟩ ∧
      after.leases raw = ⟨slot + 1, seat slot second, true⟩) ∨
    (raw = (index.nodes (seat slot second)).record ∧
      index.leases raw = ⟨slot + 1, seat slot second, true⟩ ∧
      after.leases raw = ⟨slot + 1, seat slot first, true⟩) ∨
    (after.leases raw = index.leases raw ∧
      after.nodes (index.leases raw).node = index.nodes (index.leases raw).node) := by
  have firstLeased := placed.seated.leased slot first firstInHeap
  have secondLeased := placed.seated.leased slot second secondInHeap
  by_cases isFirst : raw = (index.nodes (seat slot first)).record
  · have lease := exchanged.firstLease
    rw [firstLeased] at lease
    exact .inl ⟨isFirst, isFirst ▸ firstLeased, isFirst ▸ lease⟩
  by_cases isSecond : raw = (index.nodes (seat slot second)).record
  · have lease := exchanged.secondLease
    rw [secondLeased] at lease
    exact .inr (.inl ⟨isSecond, isSecond ▸ secondLeased, isSecond ▸ lease⟩)
  refine .inr (.inr ⟨exchanged.otherLeases raw isFirst isSecond, exchanged.others _ ?_ ?_⟩)
  · intro same
    by_cases none : (index.leases raw).slot = 0
    · exact (placed.seat_node firstInHeap).1 (same ▸ placed.leased.idle raw none)
    · exact isFirst (same ▸ (placed.leased.named raw none).2.2.symm)
  · intro same
    by_cases none : (index.leases raw).slot = 0
    · exact (placed.seat_node secondInHeap).1 (same ▸ placed.leased.idle raw none)
    · exact isSecond (same ▸ (placed.leased.named raw none).2.2.symm)

theorem Exchanged.leased : Leased after := by
  have cases := exchanged.lease_cases placed firstInHeap secondInHeap
  have firstNode := placed.seat_node firstInHeap
  have secondNode := placed.seat_node secondInHeap
  refine ⟨?_, ?_, ?_, ?_, ?_⟩
  · intro raw none
    rcases cases raw with ⟨_, _, lease⟩ | ⟨_, _, lease⟩ | ⟨lease, _⟩
    · rw [lease] at none
      cases none
    · rw [lease] at none
      cases none
    · rw [lease] at none ⊢
      exact placed.leased.idle raw none
  · intro raw present
    rcases cases raw with ⟨holds, before, lease⟩ | ⟨holds, before, lease⟩ | ⟨lease, same⟩
    · have named := placed.leased.named raw (by rw [before]; simp)
      rw [lease, exchanged.atSecond]
      exact ⟨named.1, named.2.1, holds.symm⟩
    · have named := placed.leased.named raw (by rw [before]; simp)
      rw [lease, exchanged.atFirst]
      exact ⟨named.1, named.2.1, holds.symm⟩
    · rw [lease] at present ⊢
      rw [same]
      exact placed.leased.named raw present
  · intro raw present
    rcases cases raw with ⟨_, _, lease⟩ | ⟨_, _, lease⟩ | ⟨lease, _⟩
    · rw [lease]
      exact secondNode
    · rw [lease]
      exact firstNode
    · rw [lease] at present ⊢
      exact placed.leased.node raw present
  · intro node
    rw [exchanged.map, placed.leased.mapped node]
    have firstLeased := placed.seated.leased slot first firstInHeap
    have secondLeased := placed.seated.leased slot second secondInHeap
    have firstLease := exchanged.firstLease
    have secondLease := exchanged.secondLease
    rw [firstLeased] at firstLease
    rw [secondLeased] at secondLease
    refine ⟨fun ⟨raw, present, here⟩ => ?_, fun ⟨raw, present, here⟩ => ?_⟩
    · rcases cases raw with ⟨_, before, _⟩ | ⟨_, before, _⟩ | ⟨lease, _⟩
      · rw [before] at here
        exact ⟨_, by rw [secondLease]; simp, by rw [secondLease]; exact here⟩
      · rw [before] at here
        exact ⟨_, by rw [firstLease]; simp, by rw [firstLease]; exact here⟩
      · exact ⟨raw, by rw [lease]; exact present, by rw [lease]; exact here⟩
    rcases cases raw with ⟨_, _, lease⟩ | ⟨_, _, lease⟩ | ⟨lease, _⟩
    · rw [lease] at here
      exact ⟨_, by rw [secondLeased]; simp, by rw [secondLeased]; exact here⟩
    · rw [lease] at here
      exact ⟨_, by rw [firstLeased]; simp, by rw [firstLeased]; exact here⟩
    · rw [lease] at present here
      exact ⟨raw, present, here⟩
  · intro raw present inactive
    rcases cases raw with ⟨_, _, lease⟩ | ⟨_, _, lease⟩ | ⟨lease, same⟩
    · rw [lease] at inactive
      cases inactive
    · rw [lease] at inactive
      cases inactive
    · rw [lease] at present inactive ⊢
      rw [same]
      exact placed.leased.reserved raw present inactive

theorem Exchanged.seated : Seated after seat := by
  have cases := exchanged.lease_cases placed firstInHeap secondInHeap
  have heaps : ∀ other place, after.InHeap other place <-> index.InHeap other place := by
    intro other place
    unfold Index.InHeap
    rw [exchanged.trees]
  have seated := placed.seated
  refine ⟨?_, ?_, ?_, ?_, ?_, ?_, ?_, ?_⟩
  · intro other place outside
    rw [heaps] at outside
    exact seated.vacant other place outside
  · intro other
    rw [exchanged.trees]
    exact seated.root other
  · intro other place inside
    rw [(exchanged.links _).1]
    exact seated.parent other place ((heaps other place).mp inside)
  · intro other place inside
    rw [(exchanged.links _).2.1]
    exact seated.left other place ((heaps other place).mp inside)
  · intro other place inside
    rw [(exchanged.links _).2.2]
    exact seated.right other place ((heaps other place).mp inside)
  · intro other one another inside alsoInside
    exact seated.distinct other one another ((heaps other one).mp inside)
      ((heaps other another).mp alsoInside)
  · intro other place inside
    rw [heaps] at inside
    have before := seated.leased other place inside
    by_cases isFirst : seat other place = seat slot first
    · rcases placed.seat_inj inside firstInHeap isFirst with ⟨rfl, rfl⟩
      rw [exchanged.atFirst]
      exact exchanged.secondLease.trans (by rw [seated.leased other second secondInHeap])
    by_cases isSecond : seat other place = seat slot second
    · rcases placed.seat_inj inside secondInHeap isSecond with ⟨rfl, rfl⟩
      rw [exchanged.atSecond]
      exact exchanged.firstLease.trans (by rw [seated.leased other first firstInHeap])
    rw [exchanged.others _ isFirst isSecond]
    rcases cases (index.nodes (seat other place)).record with
      ⟨_, lease, _⟩ | ⟨_, lease, _⟩ | ⟨lease, _⟩
    · rw [before] at lease
      exact absurd (congrArg Lease.node lease) isFirst
    · rw [before] at lease
      exact absurd (congrArg Lease.node lease) isSecond
    · rw [lease, before]
  · intro raw present active
    rcases cases raw with ⟨_, _, lease⟩ | ⟨_, _, lease⟩ | ⟨lease, _⟩
    · exact ⟨slot, second, (heaps slot second).mpr secondInHeap, lease⟩
    · exact ⟨slot, first, (heaps slot first).mpr firstInHeap, lease⟩
    · rw [lease] at present active ⊢
      rcases seated.seats raw present active with ⟨other, place, inside, same⟩
      exact ⟨other, place, (heaps other place).mpr inside, same⟩

theorem Exchanged.held_eq :
    after.held = index.held := by
  funext raw
  unfold Index.held
  rcases exchanged.lease_cases placed firstInHeap secondInHeap raw with
    ⟨_, before, lease⟩ | ⟨_, before, lease⟩ | ⟨lease, same⟩
  · rw [before, lease]
    dsimp only
    rw [Index.key_of_take _ exchanged.atSecond]
  · rw [before, lease]
    dsimp only
    rw [Index.key_of_take _ exchanged.atFirst]
  · rw [lease]
    dsimp only
    rw [Index.key_of_eq _ same]

theorem Exchanged.rankAt_eq :
    after.rankAt seat slot = Foundation.exchanged (index.rankAt seat slot) first second := by
  funext place
  unfold Index.rankAt
  by_cases isFirst : place = first
  · subst isFirst
    rw [exchanged_first, Index.key_of_take _ exchanged.atFirst]
  by_cases isSecond : place = second
  · subst isSecond
    rw [exchanged_second, Index.key_of_take _ exchanged.atSecond]
  rw [exchanged_other isFirst isSecond, Index.key_of_eq _ (exchanged.others _ ?_ ?_)]
  · intro same
    by_cases inside : index.InHeap slot place
    · exact isFirst (placed.seat_inj inside firstInHeap same).2
    · rw [placed.seated.vacant slot place inside] at same
      exact (placed.seat_node firstInHeap).1 same.symm
  intro same
  by_cases inside : index.InHeap slot place
  · exact isSecond (placed.seat_inj inside secondInHeap same).2
  · rw [placed.seated.vacant slot place inside] at same
    exact (placed.seat_node secondInHeap).1 same.symm

theorem Exchanged.rankAt_other {other : Nat} (elsewhere : other ≠ slot) {place : Nat}
    (inside : index.InHeap other place) :
    after.rankAt seat other place = index.rankAt seat other place := by
  unfold Index.rankAt
  rw [Index.key_of_eq _ (exchanged.others _ ?_ ?_)]
  · intro same
    exact elsewhere (placed.seat_inj inside firstInHeap same).1
  · intro same
    exact elsewhere (placed.seat_inj inside secondInHeap same).1

end Exchanged

end Exchange

end TimerIndex
end Carrick
