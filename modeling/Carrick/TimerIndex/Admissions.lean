import Carrick.TimerIndex.Removal

namespace Carrick
namespace TimerIndex

open Foundation
open Function (update_of_ne update_self)

/-!
# Reserving and activating

A reservation takes a node from the table and a lease for its record, and is in
no heap.  Its activation puts the node behind the last one of the heap of its
slot and lets the key rise.
-/

section Admissions

variable {index : Index} {seat : Nat -> Nat -> Nat}

/-- The lease of one record changes, and the heaps do not see it. -/
structure Aside (record : RecordId) (index after : Index) : Prop where
  trees : after.trees = index.trees
  nodes : ∀ raw, raw ≠ record.raw -> (index.leases raw).slot ≠ 0 ->
    after.nodes (index.leases raw).node = index.nodes (index.leases raw).node
  leases : ∀ raw, raw ≠ record.raw -> after.leases raw = index.leases raw
  inactive : (after.leases record.raw).active = false
  unseated : (index.leases record.raw).slot = 0 ∨ (index.leases record.raw).active = false

variable {record : RecordId} {slot place : Nat}

variable {after : Index}

theorem Aside.seat_record (placed : Placed index seat)
    (aside : Aside record index after) (inHeap : index.InHeap slot place) :
    (index.nodes (seat slot place)).record ≠ record.raw := by
  intro same
  have leased := placed.seated.leased slot place inHeap
  rw [same] at leased
  rcases aside.unseated with none | inactive
  · rw [leased] at none
    cases none
  · rw [leased] at inactive
    cases inactive

theorem Aside.seat_node (placed : Placed index seat)
    (aside : Aside record index after) (inHeap : index.InHeap slot place) :
    after.nodes (seat slot place) = index.nodes (seat slot place) := by
  have leased := placed.seated.leased slot place inHeap
  have same := aside.nodes _ (aside.seat_record placed inHeap) (by rw [leased]; simp)
  rw [leased] at same
  exact same

theorem Aside.seated (placed : Placed index seat)
    (aside : Aside record index after) : Seated after seat := by
  have heaps : ∀ {slot place}, after.InHeap slot place <-> index.InHeap slot place :=
    Index.InHeap.congr aside.trees
  have seated := placed.seated
  refine ⟨?_, ?_, ?_, ?_, ?_, ?_, ?_, ?_⟩
  · intro slot place outside
    exact seated.vacant slot place (fun inside => outside (heaps.mpr inside))
  · intro slot
    rw [aside.trees]
    exact seated.root slot
  · intro slot place inside
    rw [aside.seat_node placed (heaps.mp inside)]
    exact seated.parent slot place (heaps.mp inside)
  · intro slot place inside
    rw [aside.seat_node placed (heaps.mp inside)]
    exact seated.left slot place (heaps.mp inside)
  · intro slot place inside
    rw [aside.seat_node placed (heaps.mp inside)]
    exact seated.right slot place (heaps.mp inside)
  · intro slot first second firstInside secondInside
    exact seated.distinct slot first second (heaps.mp firstInside) (heaps.mp secondInside)
  · intro slot place inside
    rw [aside.seat_node placed (heaps.mp inside),
      aside.leases _ (aside.seat_record placed (heaps.mp inside))]
    exact seated.leased slot place (heaps.mp inside)
  intro raw present active
  by_cases own : raw = record.raw
  · rw [own, aside.inactive] at active
    cases active
  · rw [aside.leases raw own] at present active ⊢
    rcases seated.seats raw present active with ⟨slot, place, inside, same⟩
    exact ⟨slot, place, heaps.mpr inside, same⟩

theorem Aside.formed (formed : Formed index seat)
    (aside : Aside record index after) (leased : Leased after) : Formed after seat := by
  refine ⟨⟨leased, aside.seated formed.placed⟩, fun slot place below inside => ?_⟩
  rw [aside.trees] at inside
  have same : ∀ next, index.InHeap slot next ->
      after.rankAt seat slot next = index.rankAt seat slot next := by
    intro next nextInHeap
    unfold Index.rankAt
    rw [Index.key_of_eq _ (aside.seat_node formed.placed nextInHeap)]
  rw [same place ⟨by omega, inside⟩, same (place / 2) ⟨by omega, by omega⟩]
  exact formed.ordered slot place below inside

theorem Aside.held_other (aside : Aside record index after) {raw : Nat}
    (other : raw ≠ record.raw) : after.held raw = index.held raw := by
  unfold Index.held
  rw [aside.leases raw other]
  dsimp only
  by_cases none : (index.leases raw).slot = 0
  · rw [if_pos none, if_pos none]
  · rw [if_neg none, if_neg none, Index.key_of_eq _ (aside.nodes raw other none)]

/-! ## Giving a reservation back -/

theorem freeAdmission_aside (inactive : (index.lease record).active = false) :
    Aside record index (index.freeAdmission record) := by
  refine ⟨rfl, fun _ _ _ => rfl, ?_, ?_, .inr inactive⟩
  · intro raw other
    exact update_of_ne other _ _
  · unfold Index.freeAdmission Index.setBit Index.setLease
    dsimp only
    rw [update_self]
    exact inactive

theorem Leased.node_inj (leased : Leased index) {first second : Nat}
    (firstSome : (index.leases first).slot ≠ 0) (secondSome : (index.leases second).slot ≠ 0)
    (same : (index.leases first).node = (index.leases second).node) : first = second := by
  rw [<- (leased.named first firstSome).2.2, <- (leased.named second secondSome).2.2, same]

theorem Formed.freeAdmission (formed : Formed index seat)
    (present : (index.lease record).slot ≠ 0) (inactive : (index.lease record).active = false) :
    Formed (index.freeAdmission record) seat ∧
      (index.freeAdmission record).held = Function.update index.held record.raw none := by
  have aside := freeAdmission_aside inactive
  have leased := formed.placed.leased
  have own : (index.freeAdmission record).leases record.raw =
      { index.lease record with node := 0, slot := 0 } :=
    update_self _ _ _
  refine ⟨aside.formed formed ⟨?_, ?_, ?_, ?_, ?_⟩, ?_⟩
  · intro raw none
    by_cases here : raw = record.raw
    · rw [here, own]
    · rw [aside.leases raw here] at none ⊢
      exact leased.idle raw none
  · intro raw some
    by_cases here : raw = record.raw
    · rw [here, own] at some
      exact absurd rfl some
    · rw [aside.leases raw here] at some ⊢
      exact leased.named raw some
  · intro raw some
    by_cases here : raw = record.raw
    · rw [here, own] at some
      exact absurd rfl some
    · rw [aside.leases raw here] at some ⊢
      exact leased.node raw some
  · intro node
    change Function.update index.map (index.lease record).node false node = true <-> _
    refine ⟨fun taken => ?_, fun found => ?_⟩
    · have away : node ≠ (index.lease record).node := by
        rintro rfl
        rw [update_self] at taken
        cases taken
      rw [update_of_ne away] at taken
      rcases (leased.mapped node).mp taken with ⟨raw, some, here⟩
      have other : raw ≠ record.raw := by
        rintro rfl
        exact away here.symm
      exact ⟨raw, by rw [aside.leases raw other]; exact some, by rw [aside.leases raw other]; exact here⟩
    rcases found with ⟨raw, some, here⟩
    have other : raw ≠ record.raw := by
      rintro rfl
      rw [own] at some
      exact some rfl
    rw [aside.leases raw other] at some here
    have away : node ≠ (index.lease record).node := by
      intro same
      exact other (leased.node_inj some present (here.trans same))
    rw [update_of_ne away]
    exact (leased.mapped node).mpr ⟨raw, some, here⟩
  · intro raw some idle
    by_cases here : raw = record.raw
    · rw [here, own] at some
      exact absurd rfl some
    · rw [aside.leases raw here] at some idle ⊢
      exact leased.reserved raw some idle
  funext raw
  by_cases here : raw = record.raw
  · rw [here, update_self]
    unfold Index.held
    rw [own]
    rfl
  · rw [update_of_ne here]
    exact aside.held_other here

/-! ## Reserving -/

theorem allocBit_spec {node : Nat} (found : index.allocBit = some node) :
    node ≠ 0 ∧ node < zoneRecords ∧ index.map node = false := by
  unfold Index.allocBit at found
  have holds := List.find?_some found
  have member := List.mem_of_find?_eq_some found
  rw [Bool.and_eq_true, decide_eq_true_iff, Bool.not_eq_true'] at holds
  exact ⟨holds.1, List.mem_range.mp member, holds.2⟩

/-- The index with a reservation in a node. -/
structure Reserves (ticket : Ticket) (node : Nat) (index after : Index) : Prop where
  trees : after.trees = index.trees
  map : after.map = Function.update index.map node true
  others : ∀ other, other ≠ node -> after.nodes other = index.nodes other
  record : (after.nodes node).record = ticket.record.id.raw
  key : after.key ticket.slot node = ticket
  lease : after.leases ticket.record.id.raw = ⟨ticket.slot + 1, node, false⟩
  leases : ∀ raw, raw ≠ ticket.record.id.raw -> after.leases raw = index.leases raw

theorem reserve_cases (index : Index) (ticket : Ticket) :
    (index.reserve ticket = (false, index)) ∨
    ∃ node, index.allocBit = some node ∧ (index.reserve ticket).1 = true ∧
      Reserves ticket node index (index.reserve ticket).2 := by
  unfold Index.reserve
  cases found : index.allocBit with
  | none => exact .inl rfl
  | some node =>
    refine .inr ⟨node, rfl, rfl, rfl, rfl, fun other away => ?_, ?_, ?_, ?_, fun raw away => ?_⟩
    · exact update_of_ne away _ _
    · dsimp only [Index.writeKey, Index.setNode, Index.setLease, Index.setBit]
      rw [update_self]
    · dsimp only [Index.key, Index.writeKey, Index.setNode, Index.setLease, Index.setBit]
      rw [update_self, RecordId.fromRaw_raw]
      rfl
    · dsimp only [Index.writeKey, Index.setNode, Index.setLease, Index.setBit, Index.lease]
      rw [update_self, update_self]
    · dsimp only [Index.writeKey, Index.setNode, Index.setLease, Index.setBit, Index.lease]
      rw [update_of_ne away, update_of_ne away]

theorem Reserves.leased {ticket : Ticket} {node : Nat} (leased : Leased index)
    (reserves : Reserves ticket node index after) (free : index.allocBit = some node)
    (cancelled : (index.lease ticket.record.id).slot = 0) (unset : ticket.deadline = 0) :
    Leased after := by
  rcases allocBit_spec free with ⟨nonzero, bounded, unmapped⟩
  have away : ∀ raw, (index.leases raw).slot ≠ 0 -> (index.leases raw).node ≠ node := by
    rintro raw present rfl
    rw [(leased.mapped _).mpr ⟨raw, present, rfl⟩] at unmapped
    cases unmapped
  have deadline : (after.nodes node).deadline = 0 := by
    have same := congrArg Ticket.deadline reserves.key
    exact same.trans unset
  refine ⟨?_, ?_, ?_, ?_, ?_⟩
  · intro raw none
    by_cases here : raw = ticket.record.id.raw
    · rw [here, reserves.lease] at none
      cases none
    · rw [reserves.leases raw here] at none ⊢
      exact leased.idle raw none
  · intro raw present
    by_cases here : raw = ticket.record.id.raw
    · rw [here, reserves.lease]
      exact ⟨ticket.record.id.named, ticket.record.id.bounded, reserves.record⟩
    · rw [reserves.leases raw here] at present ⊢
      rw [reserves.others _ (away raw present)]
      exact leased.named raw present
  · intro raw present
    by_cases here : raw = ticket.record.id.raw
    · rw [here, reserves.lease]
      exact ⟨nonzero, bounded⟩
    · rw [reserves.leases raw here] at present ⊢
      exact leased.node raw present
  · intro other
    rw [reserves.map]
    refine ⟨fun taken => ?_, fun ⟨raw, present, here⟩ => ?_⟩
    · by_cases isNew : other = node
      · exact ⟨_, by rw [reserves.lease]; simp, by rw [reserves.lease, isNew]⟩
      rw [update_of_ne isNew] at taken
      rcases (leased.mapped other).mp taken with ⟨raw, present, here⟩
      have notOwn : raw ≠ ticket.record.id.raw := by
        rintro rfl
        exact present cancelled
      exact ⟨raw, by rw [reserves.leases raw notOwn]; exact present,
        by rw [reserves.leases raw notOwn]; exact here⟩
    · by_cases own : raw = ticket.record.id.raw
      · rw [own, reserves.lease] at here
        rw [<- here, update_self]
      · rw [reserves.leases raw own] at present here
        rw [<- here, update_of_ne (away raw present)]
        exact (leased.mapped _).mpr ⟨raw, present, rfl⟩
  · intro raw present inactive
    by_cases here : raw = ticket.record.id.raw
    · rw [here, reserves.lease]
      exact deadline
    · rw [reserves.leases raw here] at present inactive ⊢
      rw [reserves.others _ (away raw present)]
      exact leased.reserved raw present inactive

theorem Formed.reserve (formed : Formed index seat) {ticket : Ticket}
    (cancelled : (index.lease ticket.record.id).slot = 0) (unset : ticket.deadline = 0) :
    Formed (index.reserve ticket).2 seat ∧
      (index.reserve ticket).2.held =
        if (index.reserve ticket).1 then
          Function.update index.held ticket.record.id.raw (some (ticket, false))
        else index.held := by
  have leased := formed.placed.leased
  rcases reserve_cases index ticket with refused | ⟨node, free, granted, reserves⟩
  · rw [refused]
    exact ⟨formed, rfl⟩
  rcases allocBit_spec free with ⟨_, _, unmapped⟩
  have aside : Aside ticket.record.id index (index.reserve ticket).2 := by
    refine ⟨reserves.trees, ?_, reserves.leases, by rw [reserves.lease], .inl cancelled⟩
    intro raw _ present
    refine reserves.others _ ?_
    rintro rfl
    rw [(leased.mapped _).mpr ⟨raw, present, rfl⟩] at unmapped
    cases unmapped
  refine ⟨aside.formed formed (reserves.leased leased free cancelled unset), ?_⟩
  rw [granted, if_pos rfl]
  funext raw
  by_cases here : raw = ticket.record.id.raw
  · rw [here, update_self]
    unfold Index.held
    rw [reserves.lease]
    dsimp only
    rw [if_neg (Nat.succ_ne_zero _), Nat.add_sub_cancel, reserves.key]
  · rw [update_of_ne here]
    exact aside.held_other here

/-! ## Activating -/

/-- The places with a node behind the last one of a slot. -/
def withNext (index : Index) (seat : Nat -> Nat -> Nat) (slot node : Nat) : Nat -> Nat -> Nat :=
  fun other place => if other = slot ∧ place = (index.trees slot).len + 1 then node else seat other place

theorem withNext_of_ne {node other : Nat}
    (old : ¬ (other = slot ∧ place = (index.trees slot).len + 1)) :
    withNext index seat slot node other place = seat other place :=
  if_neg old

theorem withNext_next {node : Nat} :
    withNext index seat slot node slot ((index.trees slot).len + 1) = node :=
  if_pos ⟨rfl, rfl⟩

/-- The node of a reservation becomes the last one of the heap of its slot. -/
structure Enlisted (seat : Nat -> Nat -> Nat) (ticket : Ticket) (node : Nat) (index after : Index) :
    Prop where
  trees : after.trees = Function.update index.trees ticket.slot
    ⟨withNext index seat ticket.slot node ticket.slot 1, (index.trees ticket.slot).len + 1⟩
  map : after.map = index.map
  own : after.nodes node = ⟨seat ticket.slot (((index.trees ticket.slot).len + 1) / 2), 0, 0,
    ticket.record.id.raw, ticket.record.incarnation, ticket.seq, ticket.deadline⟩
  parents : ∀ other, other ≠ node -> (after.nodes other).parent = (index.nodes other).parent
  keys : ∀ other, other ≠ node -> SameKey (after.nodes other) (index.nodes other)
  left : ∀ other place, index.InHeap other place ->
    (after.nodes (seat other place)).left = withNext index seat ticket.slot node other (2 * place)
  right : ∀ other place, index.InHeap other place ->
    (after.nodes (seat other place)).right = withNext index seat ticket.slot node other (2 * place + 1)
  lease : after.leases ticket.record.id.raw = ⟨ticket.slot + 1, node, true⟩
  leases : ∀ raw, raw ≠ ticket.record.id.raw -> after.leases raw = index.leases raw

/-- The key of the activated ticket, before the node is linked. -/
structure Keyed (parent : Nat) (ticket : Ticket) (node : Nat) (index after : Index) : Prop where
  trees : after.trees = index.trees
  map : after.map = index.map
  own : after.nodes node = ⟨parent, 0, 0, ticket.record.id.raw, ticket.record.incarnation, ticket.seq,
    ticket.deadline⟩
  others : ∀ other, other ≠ node -> after.nodes other = index.nodes other
  lease : after.leases ticket.record.id.raw = ⟨ticket.slot + 1, node, true⟩
  leases : ∀ raw, raw ≠ ticket.record.id.raw -> after.leases raw = index.leases raw

variable {ticket : Ticket} {node : Nat} {keyed : Index}

section Placed

variable (placed : Placed index seat)
  (unseated : ∀ slot place, index.InHeap slot place -> seat slot place ≠ node)

include placed unseated

theorem Keyed.enlisted_of_parent (more : 1 <= (index.trees ticket.slot).len)
    (keys : Keyed (seat ticket.slot (((index.trees ticket.slot).len + 1) / 2)) ticket node index keyed)
    (data : Node)
    (parent : data.parent = (index.nodes (seat ticket.slot (((index.trees ticket.slot).len + 1) / 2))).parent)
    (key : SameKey data (index.nodes (seat ticket.slot (((index.trees ticket.slot).len + 1) / 2))))
    (left : data.left = withNext index seat ticket.slot node ticket.slot (2 * (((index.trees ticket.slot).len + 1) / 2)))
    (right : data.right = withNext index seat ticket.slot node ticket.slot (2 * (((index.trees ticket.slot).len + 1) / 2) + 1)) :
    Enlisted seat ticket node index
      ((keyed.setNode (seat ticket.slot (((index.trees ticket.slot).len + 1) / 2)) data).setTree
        ticket.slot
        { (keyed.setNode (seat ticket.slot (((index.trees ticket.slot).len + 1) / 2)) data).trees
            ticket.slot with
          len := (index.trees ticket.slot).len + 1 }) := by
  have seated := placed.seated
  have parentInHeap : index.InHeap ticket.slot (((index.trees ticket.slot).len + 1) / 2) :=
    ⟨by omega, by omega⟩
  have parentAway := unseated _ _ parentInHeap
  have apart : ∀ other place, index.InHeap other place ->
      ¬ (other = ticket.slot ∧ place = ((index.trees ticket.slot).len + 1) / 2) ->
      seat other place ≠ seat ticket.slot (((index.trees ticket.slot).len + 1) / 2) :=
    fun other place inside away same => away (placed.seat_inj inside parentInHeap same)
  refine ⟨?_, keys.map, ?_, ?_, ?_, ?_, ?_, keys.lease, keys.leases⟩
  · have first : withNext index seat ticket.slot node ticket.slot 1 = (index.trees ticket.slot).root := by
      rw [withNext_of_ne (by omega), seated.root]
    dsimp only [Index.setTree, Index.setNode]
    rw [keys.trees, first]
  · dsimp only [Index.setTree, Index.setNode]
    rw [update_of_ne (Ne.symm parentAway), keys.own]
  · intro other away
    dsimp only [Index.setTree, Index.setNode]
    by_cases here : other = seat ticket.slot (((index.trees ticket.slot).len + 1) / 2)
    · rw [here, update_self, parent]
    · rw [update_of_ne here, keys.others other away]
  · intro other away
    dsimp only [Index.setTree, Index.setNode]
    by_cases here : other = seat ticket.slot (((index.trees ticket.slot).len + 1) / 2)
    · rw [here, update_self]
      exact key
    · rw [update_of_ne here, keys.others other away]
      exact SameKey.refl _
  · intro other place inside
    dsimp only [Index.setTree, Index.setNode]
    by_cases here : other = ticket.slot ∧ place = ((index.trees ticket.slot).len + 1) / 2
    · rw [here.1, here.2, update_self, left]
    · rw [update_of_ne (apart other place inside here), keys.others _ (unseated _ _ inside),
        withNext_of_ne (by omega)]
      exact seated.left other place inside
  intro other place inside
  dsimp only [Index.setTree, Index.setNode]
  by_cases here : other = ticket.slot ∧ place = ((index.trees ticket.slot).len + 1) / 2
  · rw [here.1, here.2, update_self, right]
  · rw [update_of_ne (apart other place inside here), keys.others _ (unseated _ _ inside),
      withNext_of_ne (by omega)]
    exact seated.right other place inside

theorem Keyed.linkLast_enlisted
    (keys : Keyed (seat ticket.slot (((index.trees ticket.slot).len + 1) / 2)) ticket node index keyed) :
    Enlisted seat ticket node index (keyed.linkLast ticket.slot node
      ((index.trees ticket.slot).len + 1) (seat ticket.slot (((index.trees ticket.slot).len + 1) / 2))) := by
  have seated := placed.seated
  unfold Index.linkLast
  dsimp only
  by_cases empty : (index.trees ticket.slot).len = 0
  · have noParent : seat ticket.slot (((index.trees ticket.slot).len + 1) / 2) = 0 :=
      seated.vacant _ _ (fun inside => by have named := inside.1; omega)
    have first : withNext index seat ticket.slot node ticket.slot 1 = node :=
      if_pos ⟨rfl, by omega⟩
    rw [if_pos noParent]
    refine ⟨?_, keys.map, keys.own, ?_, ?_, ?_, ?_, keys.lease, keys.leases⟩
    · dsimp only [Index.setTree]
      rw [update_self, Function.update_idem, keys.trees, first]
    · intro other away
      exact congrArg Node.parent (keys.others other away)
    · intro other away
      have same := keys.others other away
      exact ⟨congrArg Node.record same, congrArg Node.incarnation same, congrArg Node.seq same,
        congrArg Node.deadline same⟩
    · intro other place inside
      have named := inside.1
      have elsewhere : other ≠ ticket.slot := by
        rintro rfl
        have within := inside.2
        omega
      rw [withNext_of_ne (fun both => elsewhere both.1)]
      exact (congrArg Node.left (keys.others _ (unseated _ _ inside))).trans
        (seated.left other place inside)
    intro other place inside
    have named := inside.1
    have elsewhere : other ≠ ticket.slot := by
      rintro rfl
      have within := inside.2
      omega
    rw [withNext_of_ne (fun both => elsewhere both.1)]
    exact (congrArg Node.right (keys.others _ (unseated _ _ inside))).trans
      (seated.right other place inside)
  · have more : 1 <= (index.trees ticket.slot).len := by omega
    have parentInHeap : index.InHeap ticket.slot (((index.trees ticket.slot).len + 1) / 2) :=
      ⟨by omega, by omega⟩
    have parentData := keys.others _ (unseated _ _ parentInHeap)
    have leftIs := seated.left _ _ parentInHeap
    have rightIs := seated.right _ _ parentInHeap
    rw [if_neg (placed.seat_node parentInHeap).1, parentData]
    split
    · rename_i even
      have position : 2 * (((index.trees ticket.slot).len + 1) / 2) =
          (index.trees ticket.slot).len + 1 := by omega
      exact keys.enlisted_of_parent placed unseated more
        { index.nodes (seat ticket.slot (((index.trees ticket.slot).len + 1) / 2)) with left := node }
        rfl ⟨rfl, rfl, rfl, rfl⟩ (by rw [position]; exact withNext_next.symm)
        (by rw [withNext_of_ne (by omega)]; exact rightIs)
    rename_i odd
    have position : 2 * (((index.trees ticket.slot).len + 1) / 2) + 1 =
        (index.trees ticket.slot).len + 1 := by omega
    exact keys.enlisted_of_parent placed unseated more
      { index.nodes (seat ticket.slot (((index.trees ticket.slot).len + 1) / 2)) with right := node }
      rfl ⟨rfl, rfl, rfl, rfl⟩ (by rw [withNext_of_ne (by omega)]; exact leftIs)
      (by rw [position]; exact withNext_next.symm)

theorem Placed.enlist_enlisted :
    Enlisted seat ticket node index (index.enlist ticket node) := by
  have seated := placed.seated
  have parent : (if (index.trees ticket.slot).len + 1 = 1 then 0
      else index.nodeAt ticket.slot (((index.trees ticket.slot).len + 1) / 2)) =
        seat ticket.slot (((index.trees ticket.slot).len + 1) / 2) := by
    split
    · exact (seated.vacant _ _ (fun inside => by have named := inside.1; omega)).symm
    · exact seated.nodeAt_eq ⟨by omega, by omega⟩
  unfold Index.enlist
  dsimp only
  rw [parent]
  refine Keyed.linkLast_enlisted placed unseated ⟨rfl, rfl, ?_, ?_, ?_, ?_⟩
  · dsimp only [Index.writeKey, Index.setNode, Index.setLease]
    rw [update_self, update_self]
  · intro other away
    dsimp only [Index.writeKey, Index.setNode, Index.setLease]
    rw [update_of_ne away, update_of_ne away]
  · dsimp only [Index.writeKey, Index.setNode, Index.setLease, Index.lease]
    rw [update_self, update_self]
  · intro raw away
    dsimp only [Index.writeKey, Index.setNode, Index.setLease, Index.lease]
    rw [update_of_ne away, update_of_ne away]

end Placed

theorem Enlisted.key (enlisted : Enlisted seat ticket node index after) :
    after.key ticket.slot node = ticket := by
  unfold Index.key
  rw [enlisted.own]
  dsimp only
  rw [RecordId.fromRaw_raw]
  rfl

theorem Enlisted.inHeap_iff (enlisted : Enlisted seat ticket node index after) {other : Nat} :
    after.InHeap other place <->
      index.InHeap other place ∨ other = ticket.slot ∧ place = (index.trees ticket.slot).len + 1 := by
  unfold Index.InHeap
  rw [enlisted.trees]
  by_cases here : other = ticket.slot
  · rw [here, update_self]
    dsimp only
    omega
  · rw [update_of_ne here]
    simp [here]

theorem Enlisted.leased (leased : Leased index) (enlisted : Enlisted seat ticket node index after)
    (lease : index.leases ticket.record.id.raw = ⟨ticket.slot + 1, node, false⟩) : Leased after := by
  have away : ∀ raw, raw ≠ ticket.record.id.raw -> (index.leases raw).slot ≠ 0 ->
      (index.leases raw).node ≠ node := by
    intro raw other present same
    refine other (leased.node_inj present (by rw [lease]; simp) ?_)
    rw [lease]
    exact same
  have ownNode := leased.node ticket.record.id.raw (by rw [lease]; simp)
  rw [lease] at ownNode
  refine ⟨?_, ?_, ?_, ?_, ?_⟩
  · intro raw none
    by_cases here : raw = ticket.record.id.raw
    · rw [here, enlisted.lease] at none
      cases none
    · rw [enlisted.leases raw here] at none ⊢
      exact leased.idle raw none
  · intro raw present
    by_cases here : raw = ticket.record.id.raw
    · rw [here, enlisted.lease]
      exact ⟨ticket.record.id.named, ticket.record.id.bounded, by rw [enlisted.own]⟩
    · rw [enlisted.leases raw here] at present ⊢
      have named := leased.named raw present
      exact ⟨named.1, named.2.1, (enlisted.keys _ (away raw here present)).record.trans named.2.2⟩
  · intro raw present
    by_cases here : raw = ticket.record.id.raw
    · rw [here, enlisted.lease]
      exact ownNode
    · rw [enlisted.leases raw here] at present ⊢
      exact leased.node raw present
  · intro other
    rw [enlisted.map, leased.mapped other]
    refine ⟨fun ⟨raw, present, same⟩ => ?_, fun ⟨raw, present, same⟩ => ?_⟩
    · by_cases here : raw = ticket.record.id.raw
      · rw [here, lease] at same
        exact ⟨_, by rw [enlisted.lease]; simp, by rw [enlisted.lease]; exact same⟩
      · exact ⟨raw, by rw [enlisted.leases raw here]; exact present,
          by rw [enlisted.leases raw here]; exact same⟩
    by_cases here : raw = ticket.record.id.raw
    · rw [here, enlisted.lease] at same
      exact ⟨_, by rw [lease]; simp, by rw [lease]; exact same⟩
    · rw [enlisted.leases raw here] at present same
      exact ⟨raw, present, same⟩
  · intro raw present inactive
    by_cases here : raw = ticket.record.id.raw
    · rw [here, enlisted.lease] at inactive
      cases inactive
    · rw [enlisted.leases raw here] at present inactive ⊢
      exact (enlisted.keys _ (away raw here present)).deadline.trans
        (leased.reserved raw present inactive)

theorem Enlisted.seated (placed : Placed index seat) (enlisted : Enlisted seat ticket node index after)
    (unseated : ∀ slot place, index.InHeap slot place -> seat slot place ≠ node)
    (ownRecord : ∀ slot place, index.InHeap slot place ->
      (index.nodes (seat slot place)).record ≠ ticket.record.id.raw) :
    Seated after (withNext index seat ticket.slot node) := by
  have seated := placed.seated
  have heaps : ∀ {other place}, after.InHeap other place <->
      index.InHeap other place ∨ other = ticket.slot ∧ place = (index.trees ticket.slot).len + 1 :=
    enlisted.inHeap_iff
  have old : ∀ {other place}, index.InHeap other place ->
      ¬ (other = ticket.slot ∧ place = (index.trees ticket.slot).len + 1) := by
    rintro other place inside ⟨rfl, rfl⟩
    have within := inside.2
    omega
  refine ⟨?_, ?_, ?_, ?_, ?_, ?_, ?_, ?_⟩
  · intro other place outside
    rw [heaps, not_or] at outside
    rw [withNext_of_ne outside.2]
    exact seated.vacant other place outside.1
  · intro other
    rw [enlisted.trees]
    by_cases here : other = ticket.slot
    · rw [here, update_self]
    · rw [update_of_ne here, withNext_of_ne (fun both => here both.1)]
      exact seated.root other
  · intro other place inside
    rcases heaps.mp inside with before | ⟨rfl, rfl⟩
    · have within := before.2
      have above : ¬ (other = ticket.slot ∧ place / 2 = (index.trees ticket.slot).len + 1) := by
        rintro ⟨rfl, half⟩
        omega
      rw [withNext_of_ne (old before), enlisted.parents _ (unseated _ _ before), withNext_of_ne above]
      exact seated.parent other place before
    · rw [withNext_next, enlisted.own, withNext_of_ne (by omega)]
  · intro other place inside
    rcases heaps.mp inside with before | ⟨rfl, rfl⟩
    · rw [withNext_of_ne (old before)]
      exact enlisted.left other place before
    · rw [withNext_next, enlisted.own, withNext_of_ne (by omega)]
      exact (seated.vacant _ _ (fun within => by have bound := within.2; omega)).symm
  · intro other place inside
    rcases heaps.mp inside with before | ⟨rfl, rfl⟩
    · rw [withNext_of_ne (old before)]
      exact enlisted.right other place before
    · rw [withNext_next, enlisted.own, withNext_of_ne (by omega)]
      exact (seated.vacant _ _ (fun within => by have bound := within.2; omega)).symm
  · intro other first second firstInside secondInside same
    rcases heaps.mp firstInside with firstBefore | ⟨firstSlot, firstNew⟩
    · rw [withNext_of_ne (old firstBefore)] at same
      rcases heaps.mp secondInside with secondBefore | ⟨secondSlot, secondNew⟩
      · rw [withNext_of_ne (old secondBefore)] at same
        exact seated.distinct other first second firstBefore secondBefore same
      · rw [secondSlot, secondNew, withNext_next] at same
        exact absurd same (unseated _ _ (secondSlot ▸ firstBefore))
    · rcases heaps.mp secondInside with secondBefore | ⟨_, secondNew⟩
      · rw [withNext_of_ne (old secondBefore), firstSlot, firstNew, withNext_next] at same
        exact absurd same.symm (unseated _ _ (firstSlot ▸ secondBefore))
      · rw [firstNew, secondNew]
  · intro other place inside
    rcases heaps.mp inside with before | ⟨rfl, rfl⟩
    · rw [withNext_of_ne (old before), (enlisted.keys _ (unseated _ _ before)).record,
        enlisted.leases _ (ownRecord _ _ before)]
      exact seated.leased other place before
    · rw [withNext_next, enlisted.own]
      exact enlisted.lease
  intro raw present active
  by_cases here : raw = ticket.record.id.raw
  · refine ⟨ticket.slot, (index.trees ticket.slot).len + 1, heaps.mpr (.inr ⟨rfl, rfl⟩), ?_⟩
    rw [here, withNext_next]
    exact enlisted.lease
  rw [enlisted.leases raw here] at present active ⊢
  rcases seated.seats raw present active with ⟨other, place, before, same⟩
  refine ⟨other, place, heaps.mpr (.inl before), ?_⟩
  rw [withNext_of_ne (old before)]
  exact same

theorem Formed.enlist (formed : Formed index seat)
    (lease : index.leases ticket.record.id.raw = ⟨ticket.slot + 1, node, false⟩) :
    (∃ seats, Formed (Index.up ticket.slot zoneRecords node (index.enlist ticket node)) seats) ∧
      (Index.up ticket.slot zoneRecords node (index.enlist ticket node)).held =
        Function.update index.held ticket.record.id.raw (some (ticket, true)) := by
  have placed := formed.placed
  have ownRecord : ∀ slot place, index.InHeap slot place ->
      (index.nodes (seat slot place)).record ≠ ticket.record.id.raw := by
    intro slot place inside same
    have leased := placed.seated.leased slot place inside
    rw [same, lease] at leased
    cases leased
  have unseated : ∀ slot place, index.InHeap slot place -> seat slot place ≠ node := by
    intro slot place inside same
    have named := (placed.leased.named ticket.record.id.raw (by rw [lease]; simp)).2.2
    rw [lease] at named
    exact ownRecord slot place inside (same ▸ named)
  have nonzero := (placed.leased.node ticket.record.id.raw (by rw [lease]; simp)).1
  rw [lease] at nonzero
  have enlisted : Enlisted seat ticket node index (index.enlist ticket node) :=
    placed.enlist_enlisted unseated
  have placedNext : Placed (index.enlist ticket node) (withNext index seat ticket.slot node) :=
    ⟨enlisted.leased placed.leased lease, enlisted.seated placed unseated ownRecord⟩
  have sameRank : ∀ other place,
      ¬ (other = ticket.slot ∧ place = (index.trees ticket.slot).len + 1) ->
      (index.enlist ticket node).rankAt (withNext index seat ticket.slot node) other place =
        index.rankAt seat other place := by
    intro other place old
    have away : seat other place ≠ node := by
      by_cases inside : index.InHeap other place
      · exact unseated other place inside
      · rw [placed.seated.vacant other place inside]
        exact Ne.symm nonzero
    unfold Index.rankAt
    rw [withNext_of_ne old, (enlisted.keys _ away).key_eq]
  have longer : ((index.enlist ticket node).trees ticket.slot).len =
      (index.trees ticket.slot).len + 1 := by
    rw [enlisted.trees, update_self]
  have nextInHeap : (index.enlist ticket node).InHeap ticket.slot ((index.trees ticket.slot).len + 1) :=
    enlisted.inHeap_iff.mpr (.inr ⟨rfl, rfl⟩)
  have rises := @HeapOrdered.appended _ _ _ _
    ((index.enlist ticket node).rankAt (withNext index seat ticket.slot node) ticket.slot)
    (formed.ordered ticket.slot) (fun place within => sameRank ticket.slot place (by omega))
  rw [<- longer] at rises
  have short := placedNext.len_lt ticket.slot
  have sifted := up_sifted placedNext (longer.symm ▸ nextInHeap) rises (le_of_lt short)
  rw [longer, withNext_next] at sifted
  refine ⟨⟨_, sifted.placed, fun other => ?_⟩, ?_⟩
  · by_cases here : other = ticket.slot
    · rw [here]
      exact sifted.ordered
    intro place below within
    rw [sifted.trees] at within
    rw [sifted.others other place here ⟨by omega, within⟩,
      sifted.others other (place / 2) here ⟨by omega, by omega⟩,
      sameRank other place (fun both => here both.1), sameRank other _ (fun both => here both.1)]
    rw [enlisted.trees, update_of_ne here] at within
    exact formed.ordered other place below within
  rw [sifted.held]
  funext raw
  by_cases here : raw = ticket.record.id.raw
  · rw [here, update_self]
    unfold Index.held
    rw [enlisted.lease]
    dsimp only
    rw [if_neg (Nat.succ_ne_zero _), Nat.add_sub_cancel, enlisted.key]
  rw [update_of_ne here]
  unfold Index.held
  rw [enlisted.leases raw here]
  dsimp only
  by_cases none : (index.leases raw).slot = 0
  · rw [if_pos none, if_pos none]
  have away : (index.leases raw).node ≠ node := by
    intro same
    refine here (placed.leased.node_inj none (by rw [lease]; simp) ?_)
    rw [lease]
    exact same
  rw [if_neg none, if_neg none, (enlisted.keys _ away).key_eq]

end Admissions

end TimerIndex
end Carrick
