import Carrick.TimerIndex.Sifts

namespace Carrick
namespace TimerIndex

open Foundation
open Function (update_of_ne update_self)

/-!
# Removing a ticket

The key of the last node takes the place of the removed one, the last node
leaves the heap and the table, and the moved key is settled.
-/

/-- Two nodes hold the same key. -/
structure SameKey (node other : Node) : Prop where
  record : node.record = other.record
  incarnation : node.incarnation = other.incarnation
  seq : node.seq = other.seq
  deadline : node.deadline = other.deadline

theorem SameKey.refl (node : Node) : SameKey node node := ⟨rfl, rfl, rfl, rfl⟩

theorem SameKey.key_eq {index after : Index} {node source : Nat}
    (same : SameKey (after.nodes node) (index.nodes source)) (slot : Nat) :
    after.key slot node = index.key slot source := by
  unfold Index.key
  dsimp only
  rw [same.record, same.incarnation, same.seq, same.deadline]

/-- The places without the last one of a slot. -/
def withoutLast (index : Index) (seat : Nat -> Nat -> Nat) (slot : Nat) : Nat -> Nat -> Nat :=
  fun other place => if other = slot ∧ place = (index.trees slot).len then 0 else seat other place

/-- What is left when the last node of a heap gave its key to a place. -/
structure Vacated (seat : Nat -> Nat -> Nat) (slot place : Nat) (index after : Index) : Prop where
  trees : after.trees = Function.update index.trees slot
    ⟨withoutLast index seat slot slot 1, (index.trees slot).len - 1⟩
  parent : ∀ node, (after.nodes node).parent = (index.nodes node).parent
  left : ∀ other next, after.InHeap other next ->
    (after.nodes (seat other next)).left = withoutLast index seat slot other (2 * next)
  right : ∀ other next, after.InHeap other next ->
    (after.nodes (seat other next)).right = withoutLast index seat slot other (2 * next + 1)
  moved : SameKey (after.nodes (seat slot place)) (index.nodes (seat slot (index.trees slot).len))
  kept : ∀ node, node ≠ seat slot place -> SameKey (after.nodes node) (index.nodes node)
  gone : after.leases (index.nodes (seat slot place)).record = ⟨0, 0, true⟩
  follows : place ≠ (index.trees slot).len ->
    after.leases (index.nodes (seat slot (index.trees slot).len)).record =
      ⟨slot + 1, seat slot place, true⟩
  leases : ∀ raw, raw ≠ (index.nodes (seat slot place)).record ->
    raw ≠ (index.nodes (seat slot (index.trees slot).len)).record -> after.leases raw = index.leases raw
  map : after.map = Function.update index.map (seat slot (index.trees slot).len) false

section Vacate

variable {index after : Index} {seat : Nat -> Nat -> Nat} {slot place : Nat}

theorem Index.InHeap.last (inHeap : index.InHeap slot place) :
    index.InHeap slot (index.trees slot).len :=
  ⟨inHeap.1.trans inHeap.2, le_refl _⟩

theorem Placed.records_apart (placed : Placed index seat) {otherSlot other : Nat}
    (inHeap : index.InHeap slot place) (otherInHeap : index.InHeap otherSlot other)
    (apart : seat slot place ≠ seat otherSlot other) :
    (index.nodes (seat slot place)).record ≠ (index.nodes (seat otherSlot other)).record := by
  intro same
  have leased := placed.seated.leased slot place inHeap
  rw [same, placed.seated.leased otherSlot other otherInHeap] at leased
  exact apart (congrArg Lease.node leased).symm

theorem withoutLast_of_ne {other next : Nat} (kept : ¬ (other = slot ∧ next = (index.trees slot).len)) :
    withoutLast index seat slot other next = seat other next :=
  if_neg kept

theorem withoutLast_last : withoutLast index seat slot slot (index.trees slot).len = 0 :=
  if_pos ⟨rfl, rfl⟩

theorem Vacated.inHeap_iff (vacated : Vacated seat slot place index after) (filled : 1 <= (index.trees slot).len)
    {other next : Nat} : after.InHeap other next <->
      index.InHeap other next ∧ ¬ (other = slot ∧ next = (index.trees slot).len) := by
  unfold Index.InHeap
  rw [vacated.trees]
  by_cases here : other = slot
  · subst here
    rw [update_self]
    dsimp only
    omega
  · rw [update_of_ne here]
    simp [here]

section Vacated

variable (placed : Placed index seat) (inHeap : index.InHeap slot place)
  (vacated : Vacated seat slot place index after)

include placed inHeap vacated

theorem Vacated.lease_cases (raw : Nat) :
    (raw = (index.nodes (seat slot place)).record ∧ after.leases raw = ⟨0, 0, true⟩) ∨
    (place ≠ (index.trees slot).len ∧ raw = (index.nodes (seat slot (index.trees slot).len)).record ∧
      index.leases raw = ⟨slot + 1, seat slot (index.trees slot).len, true⟩ ∧
      after.leases raw = ⟨slot + 1, seat slot place, true⟩) ∨
    (raw ≠ (index.nodes (seat slot place)).record ∧ after.leases raw = index.leases raw ∧
      (index.leases raw).node ≠ seat slot (index.trees slot).len ∧
      (index.leases raw).node ≠ seat slot place) := by
  have lastLeased := placed.seated.leased slot _ inHeap.last
  have away : ∀ next, index.InHeap slot next -> raw ≠ (index.nodes (seat slot next)).record ->
      (index.leases raw).node ≠ seat slot next := by
    intro next nextInHeap other same
    by_cases none : (index.leases raw).slot = 0
    · exact (placed.seat_node nextInHeap).1 (same ▸ placed.leased.idle raw none)
    · exact other (same ▸ (placed.leased.named raw none).2.2.symm)
  by_cases isGone : raw = (index.nodes (seat slot place)).record
  · exact .inl ⟨isGone, isGone ▸ vacated.gone⟩
  by_cases isLast : raw = (index.nodes (seat slot (index.trees slot).len)).record
  · have apart : place ≠ (index.trees slot).len := by
      intro same
      rw [<- same] at isLast
      exact isGone isLast
    exact .inr (.inl ⟨apart, isLast, isLast ▸ lastLeased, isLast ▸ vacated.follows apart⟩)
  · exact .inr (.inr ⟨isGone, vacated.leases raw isGone isLast, away _ inHeap.last isLast,
      away _ inHeap isGone⟩)

theorem Vacated.leased : Leased after := by
  have cases := vacated.lease_cases placed inHeap
  refine ⟨?_, ?_, ?_, ?_, ?_⟩
  · intro raw none
    rcases cases raw with ⟨_, lease⟩ | ⟨_, _, _, lease⟩ | ⟨_, lease, _⟩
    · rw [lease]
    · rw [lease] at none
      cases none
    · rw [lease] at none ⊢
      exact placed.leased.idle raw none
  · intro raw present
    rcases cases raw with ⟨_, lease⟩ | ⟨_, isLast, before, lease⟩ | ⟨_, lease, _, away⟩
    · rw [lease] at present
      exact absurd rfl present
    · have named := placed.leased.named raw (by rw [before]; simp)
      rw [lease]
      exact ⟨named.1, named.2.1, vacated.moved.record.trans isLast.symm⟩
    · rw [lease] at present ⊢
      have named := placed.leased.named raw present
      exact ⟨named.1, named.2.1, (vacated.kept _ away).record.trans named.2.2⟩
  · intro raw present
    rcases cases raw with ⟨_, lease⟩ | ⟨_, _, _, lease⟩ | ⟨_, lease, _⟩
    · rw [lease] at present
      exact absurd rfl present
    · rw [lease]
      exact placed.seat_node inHeap
    · rw [lease] at present ⊢
      exact placed.leased.node raw present
  · intro node
    rw [vacated.map]
    have lastLeased := placed.seated.leased slot _ inHeap.last
    have leasedHere := placed.seated.leased slot place inHeap
    refine ⟨fun taken => ?_, fun ⟨raw, present, here⟩ => ?_⟩
    · have notLast : node ≠ seat slot (index.trees slot).len := by
        rintro rfl
        rw [update_self] at taken
        cases taken
      rw [update_of_ne notLast] at taken
      rcases (placed.leased.mapped node).mp taken with ⟨raw, present, here⟩
      rcases cases raw with ⟨isGone, _⟩ | ⟨_, _, before, _⟩ | ⟨_, lease, _⟩
      · rw [isGone, leasedHere] at here
        have apart : place ≠ (index.trees slot).len := by
          intro same
          rw [<- same] at notLast
          exact notLast here.symm
        exact ⟨_, by rw [vacated.follows apart]; simp, by rw [vacated.follows apart]; exact here⟩
      · rw [before] at here
        exact absurd here.symm notLast
      · exact ⟨raw, by rw [lease]; exact present, by rw [lease]; exact here⟩
    · rcases cases raw with ⟨_, lease⟩ | ⟨apart, _, _, lease⟩ | ⟨_, lease, away, _⟩
      · rw [lease] at present
        exact absurd rfl present
      · rw [lease] at here
        subst here
        have nodesApart : seat slot place ≠ seat slot (index.trees slot).len :=
          fun same => apart (placed.seat_inj inHeap inHeap.last same).2
        rw [update_of_ne nodesApart]
        exact (placed.leased.mapped _).mpr ⟨_, by rw [leasedHere]; simp, by rw [leasedHere]⟩
      · rw [lease] at present here
        subst here
        rw [update_of_ne away]
        exact (placed.leased.mapped _).mpr ⟨raw, present, rfl⟩
  · intro raw present inactive
    rcases cases raw with ⟨_, lease⟩ | ⟨_, _, _, lease⟩ | ⟨_, lease, _, away⟩
    · rw [lease] at inactive
      cases inactive
    · rw [lease] at inactive
      cases inactive
    · rw [lease] at present inactive ⊢
      exact (vacated.kept _ away).deadline.trans (placed.leased.reserved raw present inactive)

theorem Vacated.seated :
    Seated after (withoutLast index seat slot) := by
  have cases := vacated.lease_cases placed inHeap
  have filled : 1 <= (index.trees slot).len := inHeap.last.1
  have heaps : ∀ {other next}, after.InHeap other next <->
      index.InHeap other next ∧ ¬ (other = slot ∧ next = (index.trees slot).len) :=
    vacated.inHeap_iff filled
  have seated := placed.seated
  refine ⟨?_, ?_, ?_, ?_, ?_, ?_, ?_, ?_⟩
  · intro other next outside
    by_cases isLast : other = slot ∧ next = (index.trees slot).len
    · rcases isLast with ⟨rfl, rfl⟩
      exact withoutLast_last
    · rw [withoutLast_of_ne isLast]
      exact seated.vacant other next (fun inside => outside (heaps.mpr ⟨inside, isLast⟩))
  · intro other
    rw [vacated.trees]
    by_cases here : other = slot
    · subst here
      rw [update_self]
    · rw [update_of_ne here, withoutLast_of_ne (fun both => here both.1)]
      exact seated.root other
  · intro other next inside
    rcases heaps.mp inside with ⟨before, isKept⟩
    have above : ¬ (other = slot ∧ next / 2 = (index.trees slot).len) := by
      rintro ⟨rfl, half⟩
      have within := before.2
      omega
    rw [withoutLast_of_ne isKept, vacated.parent, withoutLast_of_ne above]
    exact seated.parent other next before
  · intro other next inside
    rw [withoutLast_of_ne (heaps.mp inside).2]
    exact vacated.left other next inside
  · intro other next inside
    rw [withoutLast_of_ne (heaps.mp inside).2]
    exact vacated.right other next inside
  · intro other first second firstInside secondInside
    rcases heaps.mp firstInside with ⟨firstBefore, firstKept⟩
    rcases heaps.mp secondInside with ⟨secondBefore, secondKept⟩
    rw [withoutLast_of_ne firstKept, withoutLast_of_ne secondKept]
    exact seated.distinct other first second firstBefore secondBefore
  · intro other next inside
    rcases heaps.mp inside with ⟨before, isKept⟩
    have notLast : seat other next ≠ seat slot (index.trees slot).len :=
      fun same => isKept (placed.seat_inj before inHeap.last same)
    rw [withoutLast_of_ne isKept]
    by_cases here : seat other next = seat slot place
    · rcases placed.seat_inj before inHeap here with ⟨rfl, rfl⟩
      rw [vacated.moved.record]
      exact vacated.follows (fun same => isKept ⟨rfl, same⟩)
    · rw [(vacated.kept _ here).record,
        vacated.leases _ (placed.records_apart before inHeap here)
          (placed.records_apart before inHeap.last notLast)]
      exact seated.leased other next before
  intro raw present active
  rcases cases raw with ⟨_, lease⟩ | ⟨apart, _, _, lease⟩ | ⟨_, lease, away, _⟩
  · rw [lease] at present
    exact absurd rfl present
  · have isKept : ¬ (slot = slot ∧ place = (index.trees slot).len) := fun both => apart both.2
    refine ⟨slot, place, heaps.mpr ⟨inHeap, isKept⟩, ?_⟩
    rw [withoutLast_of_ne isKept]
    exact lease
  rw [lease] at present active ⊢
  rcases seated.seats raw present active with ⟨other, next, inside, same⟩
  have isKept : ¬ (other = slot ∧ next = (index.trees slot).len) := by
    rintro ⟨rfl, rfl⟩
    rw [same] at away
    exact away rfl
  refine ⟨other, next, heaps.mpr ⟨inside, isKept⟩, ?_⟩
  rw [withoutLast_of_ne isKept]
  exact same

theorem Vacated.held_eq :
    after.held = Function.update index.held (index.nodes (seat slot place)).record none := by
  funext raw
  rcases vacated.lease_cases placed inHeap raw with
    ⟨isGone, lease⟩ | ⟨apart, isLast, before, lease⟩ | ⟨other, lease, _, away⟩
  · rw [isGone, update_self, <- isGone]
    unfold Index.held
    rw [lease]
    rfl
  · have others : raw ≠ (index.nodes (seat slot place)).record := by
      rw [isLast]
      refine placed.records_apart inHeap.last inHeap (fun same => ?_)
      exact apart (placed.seat_inj inHeap.last inHeap same).2.symm
    rw [update_of_ne others]
    unfold Index.held
    rw [lease, before]
    dsimp only
    rw [vacated.moved.key_eq]
  · rw [update_of_ne other]
    unfold Index.held
    rw [lease]
    dsimp only
    rw [(vacated.kept _ away).key_eq]

/-- The keys of the places that are left, but for the one that was given a new key. -/
theorem Vacated.rankAt_eq {other next : Nat}
    (isKept : ¬ (other = slot ∧ next = (index.trees slot).len))
    (elsewhere : ¬ (other = slot ∧ next = place)) :
    after.rankAt (withoutLast index seat slot) other next = index.rankAt seat other next := by
  unfold Index.rankAt
  rw [withoutLast_of_ne isKept, (vacated.kept (seat other next) ?_).key_eq]
  intro same
  by_cases inside : index.InHeap other next
  · exact elsewhere (placed.seat_inj inside inHeap same)
  · rw [placed.seated.vacant other next inside] at same
    exact (placed.seat_node inHeap).1 same.symm

end Vacated

theorem Node.take_self (node : Node) : node.take node = node := rfl

theorem Placed.takeOver_nodes (placed : Placed index seat) (inHeap : index.InHeap slot place) :
    (index.takeOver slot (seat slot place) (seat slot (index.trees slot).len)).nodes =
      Function.update index.nodes (seat slot place)
        ((index.nodes (seat slot place)).take (index.nodes (seat slot (index.trees slot).len))) := by
  rcases placed.record inHeap.last with ⟨lastRecord, lastHolds, _⟩
  unfold Index.takeOver
  dsimp only
  split
  · rename_i same
    rw [<- same, Node.take_self, Function.update_eq_self]
    rfl
  · exact Index.writeKey_nodes lastHolds slot _

theorem Placed.takeOver_leases (placed : Placed index seat) (inHeap : index.InHeap slot place) :
    (index.takeOver slot (seat slot place) (seat slot (index.trees slot).len)).leases =
      if place = (index.trees slot).len then
        Function.update index.leases (index.nodes (seat slot place)).record ⟨0, 0, true⟩
      else
        Function.update
          (Function.update index.leases (index.nodes (seat slot place)).record ⟨0, 0, true⟩)
          (index.nodes (seat slot (index.trees slot).len)).record ⟨slot + 1, seat slot place, true⟩ := by
  rcases placed.record inHeap with ⟨record, holds, leased⟩
  rcases placed.record inHeap.last with ⟨lastRecord, lastHolds, lastLeased⟩
  have cleared : (index.setLease (index.key slot (seat slot place)).record.id
      { index.lease (index.key slot (seat slot place)).record.id with node := 0, slot := 0 }).leases =
        Function.update index.leases record.raw ⟨0, 0, true⟩ := by
    rw [Index.key_record holds, leased]
    rfl
  unfold Index.takeOver
  dsimp only
  by_cases isLast : place = (index.trees slot).len
  · rw [if_pos isLast, if_pos (by rw [isLast]), holds]
    exact cleared
  have apart : seat slot place ≠ seat slot (index.trees slot).len :=
    fun same => isLast (placed.seat_inj inHeap inHeap.last same).2
  have recordsApart := placed.records_apart inHeap.last inHeap (Ne.symm apart)
  rw [holds, lastHolds] at recordsApart
  unfold Index.lease at lastLeased
  rw [if_neg isLast, if_neg apart]
  refine (Index.writeKey_leases lastHolds slot _).trans ?_
  rw [cleared, holds, lastHolds, update_of_ne recordsApart, lastLeased]

/-- The links of the nodes of the heaps, once the last node of one is unlinked. -/
structure Unlinked (seat : Nat -> Nat -> Nat) (slot : Nat) (index moved after : Index) : Prop where
  trees : after.trees = Function.update index.trees slot
    ⟨withoutLast index seat slot slot 1, (index.trees slot).len - 1⟩
  leases : after.leases = moved.leases
  map : after.map = moved.map
  parent : ∀ node, (after.nodes node).parent = (index.nodes node).parent
  keys : ∀ node, SameKey (after.nodes node) (moved.nodes node)
  left : ∀ other next, index.InHeap other next ->
    ¬ (other = slot ∧ next = (index.trees slot).len) ->
    (after.nodes (seat other next)).left = withoutLast index seat slot other (2 * next)
  right : ∀ other next, index.InHeap other next ->
    ¬ (other = slot ∧ next = (index.trees slot).len) ->
    (after.nodes (seat other next)).right = withoutLast index seat slot other (2 * next + 1)

theorem Placed.unlinked_of_parent (placed : Placed index seat)
    (last : index.InHeap slot (index.trees slot).len) (more : (index.trees slot).len ≠ 1) {moved : Index}
    (trees : moved.trees = index.trees)
    (parents : ∀ node, (moved.nodes node).parent = (index.nodes node).parent)
    (lefts : ∀ node, (moved.nodes node).left = (index.nodes node).left)
    (rights : ∀ node, (moved.nodes node).right = (index.nodes node).right) (data : Node)
    (parent : data.parent = (moved.nodes (seat slot ((index.trees slot).len / 2))).parent)
    (key : SameKey data (moved.nodes (seat slot ((index.trees slot).len / 2))))
    (left : data.left = withoutLast index seat slot slot (2 * ((index.trees slot).len / 2)))
    (right : data.right = withoutLast index seat slot slot (2 * ((index.trees slot).len / 2) + 1)) :
    Unlinked seat slot index moved
      ((moved.setNode (seat slot ((index.trees slot).len / 2)) data).setTree slot
        { (moved.setNode (seat slot ((index.trees slot).len / 2)) data).trees slot with
          len := (index.trees slot).len - 1 }) := by
  have seated := placed.seated
  have parentInHeap : index.InHeap slot ((index.trees slot).len / 2) := by
    have filled := last.1
    exact ⟨by omega, by omega⟩
  have apart : ∀ other next, index.InHeap other next ->
      ¬ (other = slot ∧ next = (index.trees slot).len / 2) ->
      seat other next ≠ seat slot ((index.trees slot).len / 2) :=
    fun other next inside away same => away (placed.seat_inj inside parentInHeap same)
  refine ⟨?_, rfl, rfl, ?_, ?_, ?_, ?_⟩
  · have first : withoutLast index seat slot slot 1 = (index.trees slot).root := by
      rw [withoutLast_of_ne (fun both => more both.2.symm), seated.root]
    unfold Index.setTree Index.setNode
    dsimp only
    rw [trees, first]
  · intro node
    unfold Index.setTree Index.setNode
    dsimp only
    by_cases here : node = seat slot ((index.trees slot).len / 2)
    · rw [here, update_self, parent, parents]
    · rw [update_of_ne here, parents]
  · intro node
    unfold Index.setTree Index.setNode
    dsimp only
    by_cases here : node = seat slot ((index.trees slot).len / 2)
    · rw [here, update_self]
      exact key
    · rw [update_of_ne here]
      exact SameKey.refl _
  · intro other next inside _
    unfold Index.setTree Index.setNode
    dsimp only
    by_cases here : other = slot ∧ next = (index.trees slot).len / 2
    · rcases here with ⟨rfl, rfl⟩
      rw [update_self, left]
    · rw [update_of_ne (apart other next inside here), lefts, withoutLast_of_ne (by omega)]
      exact seated.left other next inside
  intro other next inside _
  unfold Index.setTree Index.setNode
  dsimp only
  by_cases here : other = slot ∧ next = (index.trees slot).len / 2
  · rcases here with ⟨rfl, rfl⟩
    rw [update_self, right]
  · rw [update_of_ne (apart other next inside here), rights, withoutLast_of_ne (by omega)]
    exact seated.right other next inside

theorem Placed.unlinkLast_unlinked (placed : Placed index seat)
    (last : index.InHeap slot (index.trees slot).len) {moved : Index} (trees : moved.trees = index.trees)
    (parents : ∀ node, (moved.nodes node).parent = (index.nodes node).parent)
    (lefts : ∀ node, (moved.nodes node).left = (index.nodes node).left)
    (rights : ∀ node, (moved.nodes node).right = (index.nodes node).right) :
    Unlinked seat slot index moved (moved.unlinkLast slot (seat slot (index.trees slot).len)) := by
  have seated := placed.seated
  have filled : 1 <= (index.trees slot).len := last.1
  unfold Index.unlinkLast
  dsimp only
  rw [parents, seated.parent slot _ last, trees]
  by_cases alone : (index.trees slot).len = 1
  · -- the last node is the root
    have noParent : seat slot ((index.trees slot).len / 2) = 0 :=
      seated.vacant slot _ (fun inside => by have named := inside.1; omega)
    have noRoot : withoutLast index seat slot slot 1 = 0 := if_pos ⟨rfl, alone.symm⟩
    rw [if_pos noParent]
    refine ⟨?_, rfl, rfl, parents, fun node => SameKey.refl _, ?_, ?_⟩
    · unfold Index.setTree
      dsimp only
      rw [update_self, Function.update_idem, trees, noRoot]
    · intro other next inside away
      have named := inside.1
      refine (lefts _).trans ?_
      rw [withoutLast_of_ne (by omega)]
      exact seated.left other next inside
    intro other next inside away
    have named := inside.1
    refine (rights _).trans ?_
    rw [withoutLast_of_ne (by omega)]
    exact seated.right other next inside
  have parentInHeap : index.InHeap slot ((index.trees slot).len / 2) := ⟨by omega, by omega⟩
  have leftInHeap : index.InHeap slot (2 * ((index.trees slot).len / 2)) := ⟨by omega, by omega⟩
  have leftIs := seated.left slot _ parentInHeap
  have rightIs := seated.right slot _ parentInHeap
  have leftHere := (lefts (seat slot ((index.trees slot).len / 2))).trans leftIs
  rw [if_neg (placed.seat_node parentInHeap).1]
  split
  · rename_i isLeft
    have even := (placed.seat_inj leftInHeap last (leftHere.symm.trans isLeft)).2
    exact placed.unlinked_of_parent last alone trees parents lefts rights
      { moved.nodes (seat slot ((index.trees slot).len / 2)) with left := 0 }
      rfl ⟨rfl, rfl, rfl, rfl⟩ (by rw [even]; exact withoutLast_last.symm)
      (by rw [withoutLast_of_ne (by omega), <- rightIs]; exact rights _)
  rename_i isRight
  have odd : 2 * ((index.trees slot).len / 2) ≠ (index.trees slot).len :=
    fun even => isRight (leftHere.trans (by rw [even]))
  have next : 2 * ((index.trees slot).len / 2) + 1 = (index.trees slot).len := by omega
  exact placed.unlinked_of_parent last alone trees parents lefts rights
    { moved.nodes (seat slot ((index.trees slot).len / 2)) with right := 0 }
    rfl ⟨rfl, rfl, rfl, rfl⟩ (by rw [withoutLast_of_ne (by omega)]; exact leftHere)
    (by rw [next]; exact withoutLast_last.symm)

theorem Placed.vacate_vacated (placed : Placed index seat) (inHeap : index.InHeap slot place) :
    Vacated seat slot place index (index.vacate slot (seat slot place)) := by
  have last := inHeap.last
  have nodes := placed.takeOver_nodes inHeap
  have leases := placed.takeOver_leases inHeap
  have links : ∀ node,
      ((index.takeOver slot (seat slot place) (seat slot (index.trees slot).len)).nodes node).parent =
          (index.nodes node).parent ∧
        ((index.takeOver slot (seat slot place) (seat slot (index.trees slot).len)).nodes node).left =
          (index.nodes node).left ∧
        ((index.takeOver slot (seat slot place) (seat slot (index.trees slot).len)).nodes node).right =
          (index.nodes node).right := by
    intro node
    rw [nodes]
    by_cases here : node = seat slot place
    · rw [here, update_self]
      exact ⟨rfl, rfl, rfl⟩
    · rw [update_of_ne here]
      exact ⟨rfl, rfl, rfl⟩
  have sameTrees : (index.takeOver slot (seat slot place) (seat slot (index.trees slot).len)).trees =
      index.trees := by
    unfold Index.takeOver
    dsimp only
    split
    · rfl
    · rfl
  have sameMap : (index.takeOver slot (seat slot place) (seat slot (index.trees slot).len)).map =
      index.map := by
    unfold Index.takeOver
    dsimp only
    split
    · rfl
    · rfl
  have unlinked := placed.unlinkLast_unlinked last sameTrees (fun node => (links node).1)
    (fun node => (links node).2.1) (fun node => (links node).2.2)
  unfold Index.vacate
  dsimp only
  rw [placed.seated.nodeAt_eq last]
  have heaps : ∀ other next, (((index.takeOver slot (seat slot place)
      (seat slot (index.trees slot).len)).unlinkLast slot (seat slot (index.trees slot).len)).setBit
        (seat slot (index.trees slot).len) false).InHeap other next ->
      index.InHeap other next ∧ ¬ (other = slot ∧ next = (index.trees slot).len) := by
    intro other next inside
    unfold Index.InHeap at inside ⊢
    change 1 <= next ∧ next <= (((index.takeOver slot (seat slot place)
      (seat slot (index.trees slot).len)).unlinkLast slot
        (seat slot (index.trees slot).len)).trees other).len at inside
    rw [unlinked.trees] at inside
    by_cases here : other = slot
    · subst here
      rw [update_self] at inside
      have filled := last.1
      dsimp only at inside
      omega
    · rw [update_of_ne here] at inside
      exact ⟨inside, fun both => here both.1⟩
  refine ⟨unlinked.trees, unlinked.parent, ?_, ?_, ?_, ?_, ?_, ?_, ?_, ?_⟩
  · intro other next inside
    rcases heaps other next inside with ⟨before, isKept⟩
    exact unlinked.left other next before isKept
  · intro other next inside
    rcases heaps other next inside with ⟨before, isKept⟩
    exact unlinked.right other next before isKept
  · have key := unlinked.keys (seat slot place)
    rw [nodes, update_self] at key
    exact ⟨key.record, key.incarnation, key.seq, key.deadline⟩
  · intro node elsewhere
    have key := unlinked.keys node
    rw [nodes, update_of_ne elsewhere] at key
    exact key
  · refine (congrFun unlinked.leases _).trans ?_
    rw [leases]
    split
    · rw [update_self]
    · rename_i apart
      have recordsApart := placed.records_apart inHeap last
        (fun same => apart (placed.seat_inj inHeap last same).2)
      rw [update_of_ne recordsApart, update_self]
  · intro apart
    refine (congrFun unlinked.leases _).trans ?_
    rw [leases, if_neg apart, update_self]
  · intro raw notGone notLast
    refine (congrFun unlinked.leases _).trans ?_
    rw [leases]
    split
    · rw [update_of_ne notGone]
    · rw [update_of_ne notLast, update_of_ne notGone]
  · unfold Index.setBit
    dsimp only
    rw [unlinked.map, sameMap]

/-- What is known after a ticket was taken from the heap of its slot. -/
structure Removed (slot raw : Nat) (index after : Index) : Prop where
  held : after.held = Function.update index.held raw none
  len : (after.trees slot).len + 1 = (index.trees slot).len

/-- Removal keeps the index formed and forgets the removed record only. -/
theorem Formed.removeLocked (formed : Formed index seat) (inHeap : index.InHeap slot place) :
    (∃ seats, Formed (index.removeLocked slot (seat slot place)).2 seats) ∧
      Removed slot (index.nodes (seat slot place)).record index
        (index.removeLocked slot (seat slot place)).2 := by
  have placed := formed.placed
  have vacated := placed.vacate_vacated inHeap
  have last := inHeap.last
  have placedLess : Placed (index.vacate slot (seat slot place)) (withoutLast index seat slot) :=
    ⟨vacated.leased placed inHeap, vacated.seated placed inHeap⟩
  have shorter : ((index.vacate slot (seat slot place)).trees slot).len + 1 = (index.trees slot).len := by
    have filled := last.1
    rw [vacated.trees, update_self]
    dsimp only
    omega
  have held := vacated.held_eq placed inHeap
  have elsewhere : ∀ other, other ≠ slot ->
      ((index.vacate slot (seat slot place)).trees other).len = (index.trees other).len := by
    intro other away
    rw [vacated.trees, update_of_ne away]
  unfold Index.removeLocked
  dsimp only
  rw [placed.seated.nodeAt_eq last]
  by_cases isLast : place = (index.trees slot).len
  · rw [if_pos (by rw [isLast])]
    refine ⟨⟨_, placedLess, fun other next below inside => ?_⟩, held, shorter⟩
    by_cases here : other = slot
    · subst here
      rw [vacated.rankAt_eq placed inHeap (by omega) (by omega),
        vacated.rankAt_eq placed inHeap (by omega) (by omega)]
      exact formed.ordered other next below (by omega)
    · rw [elsewhere other here] at inside
      rw [vacated.rankAt_eq placed inHeap (fun both => here both.1) (fun both => here both.1),
        vacated.rankAt_eq placed inHeap (fun both => here both.1) (fun both => here both.1)]
      exact formed.ordered other next below inside
  have apart : seat slot place ≠ seat slot (index.trees slot).len :=
    fun same => isLast (placed.seat_inj inHeap last same).2
  have inside := inHeap.2
  have stays : (index.vacate slot (seat slot place)).InHeap slot place :=
    ⟨inHeap.1, by omega⟩
  have sameSeat : withoutLast index seat slot slot place = seat slot place :=
    withoutLast_of_ne (fun both => isLast both.2)
  have sifted := settle_sifted placedLess stays (formed.ordered slot) (by omega) (by
    intro other within away
    exact vacated.rankAt_eq placed inHeap (by omega) (by omega))
  rw [sameSeat] at sifted
  rw [if_neg apart]
  refine ⟨⟨_, sifted.placed, fun other => ?_⟩, sifted.held.trans held, ?_⟩
  · by_cases here : other = slot
    · subst here
      exact sifted.ordered
    intro next below within
    rw [sifted.trees] at within
    rw [sifted.others other next here ⟨by omega, within⟩,
      sifted.others other (next / 2) here ⟨by omega, by omega⟩,
      vacated.rankAt_eq placed inHeap (fun both => here both.1) (fun both => here both.1),
      vacated.rankAt_eq placed inHeap (fun both => here both.1) (fun both => here both.1)]
    rw [elsewhere other here] at within
    exact formed.ordered other next below within
  · rw [sifted.trees]
    exact shorter

end Vacate

end TimerIndex
end Carrick
