import Carrick.TimerIndex.Admissions

namespace Carrick
namespace TimerIndex

open Foundation

/-!
# The operations, by record

What every operation does is said in terms of what the index knows of each
record: a ticket that is reserved or active.  The places of the heaps matter
only for which ticket is the least.
-/

/-- The ticket is in the heap of its slot. -/
def Index.Active (index : Index) (ticket : Ticket) : Prop :=
  index.held ticket.record.id.raw = some (ticket, true)

section Records

variable {index : Index} {seat : Nat -> Nat -> Nat} {slot place : Nat}

theorem Placed.active_key (placed : Placed index seat) (inHeap : index.InHeap slot place) :
    index.Active (index.key slot (seat slot place)) ∧
      (index.key slot (seat slot place)).record.id.raw = (index.nodes (seat slot place)).record := by
  rcases placed.record inHeap with ⟨record, holds, leased⟩
  have raw := Index.key_record holds slot
  unfold Index.lease at leased
  refine ⟨?_, by rw [raw, holds]⟩
  unfold Index.Active Index.held
  rw [raw, leased]
  dsimp only
  rw [if_neg (Nat.succ_ne_zero _), Nat.add_sub_cancel]

variable {ticket : Ticket}

theorem Placed.active_place (placed : Placed index seat)
    (active : index.Active ticket) :
    ∃ place, index.InHeap ticket.slot place ∧ index.key ticket.slot (seat ticket.slot place) = ticket := by
  unfold Index.Active Index.held at active
  dsimp only at active
  split at active
  · cases active
  rename_i present
  have both := Option.some.inj active
  have key := congrArg Prod.fst both
  have isActive := congrArg Prod.snd both
  dsimp only at key isActive
  rcases placed.seated.seats _ present isActive with ⟨slot, place, inside, lease⟩
  rw [lease] at key
  dsimp only at key
  rw [Nat.add_sub_cancel] at key
  have sameSlot : slot = ticket.slot := congrArg Ticket.slot key
  subst sameSlot
  exact ⟨place, inside, key⟩

theorem active_iff : index.Active ticket <->
    (index.lease ticket.record.id).slot = ticket.slot + 1 ∧
      (index.lease ticket.record.id).active = true ∧
      index.key ticket.slot (index.lease ticket.record.id).node = ticket := by
  unfold Index.Active Index.held Index.lease
  dsimp only
  split
  · rename_i none
    simp [none]
  rename_i present
  rw [Option.some_inj, Prod.mk_inj]
  refine ⟨fun ⟨key, active⟩ => ?_, fun ⟨slot, active, key⟩ => ?_⟩
  · have slot : (index.leases ticket.record.id.raw).slot - 1 = ticket.slot := congrArg Ticket.slot key
    rw [slot] at key
    exact ⟨by omega, active, key⟩
  · rw [slot, Nat.add_sub_cancel]
    exact ⟨key, active⟩

theorem Leased.held_record (leased : Leased index) {raw : Nat} {active : Bool}
    (held : index.held raw = some (ticket, active)) : raw = ticket.record.id.raw := by
  unfold Index.held at held
  dsimp only at held
  split at held
  · cases held
  rename_i present
  have key := congrArg Prod.fst (Option.some.inj held)
  dsimp only at key
  rcases leased.named raw present with ⟨named, bounded, holds⟩
  rw [<- key, @Index.key_record index _ ⟨raw, named, bounded⟩ holds]

theorem held_eq_none {raw : Nat} : index.held raw = none <-> (index.leases raw).slot = 0 := by
  unfold Index.held
  dsimp only
  split
  · rename_i none
    simp [none]
  · rename_i present
    simp [present]

theorem Index.Active.unique {first second : Ticket} (firstActive : index.Active first)
    (secondActive : index.Active second) (same : first.record.id = second.record.id) : first = second := by
  unfold Index.Active at firstActive secondActive
  rw [same, secondActive] at firstActive
  exact (congrArg Prod.fst (Option.some.inj firstActive)).symm

/-! ## Cancelling, activating and removing -/

theorem Formed.take (formed : Formed index seat) (inHeap : index.InHeap slot place) :
    (∃ seats, Formed (index.removeLocked slot (seat slot place)).2 seats) ∧
      (index.removeLocked slot (seat slot place)).1 = index.key slot (seat slot place) ∧
      (index.removeLocked slot (seat slot place)).2.held =
        Function.update index.held (index.key slot (seat slot place)).record.id.raw none ∧
      ((index.removeLocked slot (seat slot place)).2.trees slot).len + 1 = (index.trees slot).len := by
  rcases formed.removeLocked inHeap with ⟨formedLater, removed⟩
  rw [<- (formed.placed.active_key inHeap).2] at removed
  exact ⟨formedLater, rfl, removed.held, removed.len⟩

theorem Formed.cancelRecord (formed : Formed index seat) (record : RecordId) :
    (∃ seats, Formed (index.cancelRecord record) seats) ∧
      (index.cancelRecord record).held = Function.update index.held record.raw none := by
  unfold Index.cancelRecord
  dsimp only
  by_cases none : (index.lease record).slot = 0
  · have same : fromPlusOne (index.lease record).slot = Option.none := by
      unfold fromPlusOne
      rw [if_pos none]
    rw [same]
    refine ⟨⟨seat, formed⟩, ?_⟩
    rw [<- held_eq_none.mpr none, Function.update_eq_self]
  have same : fromPlusOne (index.lease record).slot = some ((index.lease record).slot - 1) := by
    unfold fromPlusOne
    rw [if_neg none]
  have named := formed.placed.leased.named record.raw none
  have node : (index.lease record).node ≠ 0 := (formed.placed.leased.node record.raw none).1
  rw [same]
  dsimp only
  rw [if_neg node]
  split
  · rename_i active
    rcases formed.placed.seated.seats record.raw none active with ⟨slot, place, inside, lease⟩
    have leaseHere : index.lease record = ⟨slot + 1, seat slot place, true⟩ := lease
    have raw := (formed.placed.active_key inside).2
    rw [lease] at named
    rcases formed.take inside with ⟨formedLater, _, held, _⟩
    rw [leaseHere]
    refine ⟨formedLater, held.trans ?_⟩
    rw [raw, named.2.2]
  · rename_i inactive
    rcases formed.freeAdmission none (Bool.eq_false_iff.mpr inactive) with ⟨formedLater, held⟩
    exact ⟨⟨seat, formedLater⟩, held⟩

theorem Formed.cancelAdmission (formed : Formed index seat) (record : RecordRef) (seen : Nat) :
    (∃ seats, Formed (index.cancelAdmission record seen) seats) ∧
      ((index.cancelAdmission record seen).held = index.held ∨
        ∃ ticket, index.held record.id.raw = some (ticket, false) ∧
          (index.cancelAdmission record seen).held = Function.update index.held record.id.raw none) := by
  unfold Index.cancelAdmission
  dsimp only
  split
  · exact ⟨⟨seat, formed⟩, .inl rfl⟩
  rename_i goes
  rw [Bool.or_eq_true, not_or, decide_eq_true_iff, not_not, Bool.not_eq_true] at goes
  split
  · exact ⟨⟨seat, formed⟩, .inl rfl⟩
  have present : (index.lease record.id).slot ≠ 0 := by
    rw [goes.1]
    exact Nat.succ_ne_zero seen
  rcases formed.freeAdmission present goes.2 with ⟨formedLater, held⟩
  refine ⟨⟨seat, formedLater⟩, .inr ⟨index.key ((index.lease record.id).slot - 1)
    (index.lease record.id).node, ?_, held⟩⟩
  have inactive : (index.leases record.id.raw).active = false := goes.2
  have presentHere : (index.leases record.id.raw).slot ≠ 0 := present
  unfold Index.held
  dsimp only
  rw [if_neg presentHere, inactive]
  rfl

theorem Formed.activate (formed : Formed index seat) (ticket : Ticket) :
    (∃ seats, Formed (index.activate ticket) seats) ∧
      ((index.activate ticket).held = index.held ∨
        ∃ reserved, index.held ticket.record.id.raw = some (reserved, false) ∧
          reserved.slot = ticket.slot ∧ reserved.record = ticket.record ∧ reserved.seq = ticket.seq ∧
          (index.activate ticket).held =
            Function.update index.held ticket.record.id.raw (some (ticket, true))) := by
  unfold Index.activate
  dsimp only
  split
  · exact ⟨⟨seat, formed⟩, .inl rfl⟩
  rename_i here
  rw [not_not] at here
  split
  · exact ⟨⟨seat, formed⟩, .inl rfl⟩
  rename_i goes
  simp only [Bool.or_eq_true, not_or, decide_eq_true_iff, not_not, Bool.not_eq_true] at goes
  have lease : index.leases ticket.record.id.raw =
      ⟨ticket.slot + 1, (index.lease ticket.record.id).node, false⟩ := by
    have slot : (index.leases ticket.record.id.raw).slot = ticket.slot + 1 := here
    have inactive : (index.leases ticket.record.id.raw).active = false := goes.2
    rw [<- slot, <- inactive]
    rfl
  rcases formed.enlist lease with ⟨formedLater, held⟩
  refine ⟨formedLater, .inr ⟨index.key ticket.slot (index.lease ticket.record.id).node, ?_, rfl,
    goes.1.1, goes.1.2, held⟩⟩
  unfold Index.held
  rw [lease]
  dsimp only
  rw [if_neg (Nat.succ_ne_zero _), Nat.add_sub_cancel]

/-- A removal takes the ticket it names, if that is active, and nothing else. -/
theorem Formed.remove (formed : Formed index seat) (set : ticket.deadline ≠ 0) :
    (∃ seats, Formed (index.remove ticket).2 seats) ∧
      ((index.remove ticket).1 = true <-> index.Active ticket) ∧
      (index.remove ticket).2.held =
        if (index.remove ticket).1 then Function.update index.held ticket.record.id.raw none
        else index.held := by
  unfold Index.remove
  dsimp only
  split
  · rename_i elsewhere
    refine ⟨⟨seat, formed⟩, ⟨nofun, fun active => ?_⟩, rfl⟩
    exact absurd (active_iff.mp active).1 elsewhere
  rename_i here
  rw [not_not] at here
  split
  · rename_i another
    rw [Bool.or_eq_true, decide_eq_true_iff, decide_eq_true_iff] at another
    refine ⟨⟨seat, formed⟩, ⟨nofun, fun active => ?_⟩, rfl⟩
    have present : (index.leases ticket.record.id.raw).slot ≠ 0 := by
      have slot : (index.leases ticket.record.id.raw).slot = ticket.slot + 1 := here
      omega
    rcases another with zero | differs
    · exact absurd zero (formed.placed.leased.node _ present).1
    · exact absurd (active_iff.mp active).2.2 differs
  rename_i goes
  rw [Bool.or_eq_true, not_or, decide_eq_true_iff, decide_eq_true_iff, not_not] at goes
  have present : (index.leases ticket.record.id.raw).slot ≠ 0 := by
    have slot : (index.leases ticket.record.id.raw).slot = ticket.slot + 1 := here
    omega
  -- a reservation carries no deadline, so that the ticket cannot name one
  have isActive : (index.lease ticket.record.id).active = true := by
    by_contra inactive
    have unset := formed.placed.leased.reserved _ present (Bool.eq_false_iff.mpr inactive)
    exact set ((congrArg Ticket.deadline goes.2).symm.trans unset)
  have active : index.Active ticket := active_iff.mpr ⟨here, isActive, goes.2⟩
  rcases formed.placed.seated.seats _ present isActive with ⟨slot, place, inside, lease⟩
  have leaseHere : index.lease ticket.record.id = ⟨slot + 1, seat slot place, true⟩ := lease
  have sameSlot : slot = ticket.slot := by
    rw [leaseHere] at here
    dsimp only at here
    omega
  subst sameSlot
  rw [leaseHere] at goes ⊢
  rcases formed.take inside with ⟨formedLater, _, held, _⟩
  refine ⟨formedLater, ⟨fun _ => active, fun _ => rfl⟩, ?_⟩
  rw [if_pos rfl]
  refine held.trans ?_
  rw [goes.2]

/-! ## The least ticket -/

/-- The answer is the least active ticket of the slot that is wanted, if there
is one, in the order of the ranks. -/
structure Least (index : Index) (slot : Nat) (wanted : Ticket -> Bool) (answer : Option Ticket) :
    Prop where
  found : ∀ ticket, answer = some ticket ->
    index.Active ticket ∧ ticket.slot = slot ∧ wanted ticket = true ∧
      ∀ other, index.Active other -> other.slot = slot -> wanted other = true ->
        ticket.rank <= other.rank
  missing : answer = none -> ∀ other, index.Active other -> other.slot = slot -> wanted other = false

theorem Least.of_removed {after : Index} {wanted : Ticket -> Bool} {answer : Option Ticket}
    {gone : Ticket} (least : Least after slot wanted answer)
    (held : after.held = Function.update index.held gone.record.id.raw none)
    (active : index.Active gone) (unwanted : wanted gone = false) : Least index slot wanted answer := by
  have before : ∀ ticket, after.Active ticket -> index.Active ticket := by
    intro ticket later
    unfold Index.Active at later ⊢
    rw [held] at later
    by_cases same : ticket.record.id.raw = gone.record.id.raw
    · rw [same, Function.update_self] at later
      cases later
    · rw [Function.update_of_ne same] at later
      exact later
  have later : ∀ ticket, index.Active ticket -> wanted ticket = true -> after.Active ticket := by
    intro ticket earlier isWanted
    have other : ticket.record.id.raw ≠ gone.record.id.raw := by
      intro same
      rw [earlier.unique active (RecordId.raw_inj same), unwanted] at isWanted
      cases isWanted
    unfold Index.Active at earlier ⊢
    rw [held, Function.update_of_ne other]
    exact earlier
  refine ⟨fun ticket is => ?_, fun is other earlier there => ?_⟩
  · rcases least.found ticket is with ⟨isActive, isThere, isWanted, smallest⟩
    exact ⟨before ticket isActive, isThere, isWanted, fun other earlier there otherWanted =>
      smallest other (later other earlier otherWanted) there otherWanted⟩
  · by_contra otherWanted
    rw [Bool.not_eq_false] at otherWanted
    rw [least.missing is other (later other earlier otherWanted) there] at otherWanted
    cases otherWanted

theorem Formed.root_eq_zero (formed : Formed index seat) (noRoot : (index.trees slot).root = 0)
    (active : index.Active ticket) : ticket.slot ≠ slot := by
  rintro rfl
  rcases formed.placed.active_place active with ⟨place, inside, _⟩
  rw [formed.placed.seated.root] at noRoot
  exact formed.placed.seat_eq_zero_iff.mp noRoot ⟨le_refl 1, inside.1.trans inside.2⟩

theorem Formed.root_inHeap (formed : Formed index seat) (hasRoot : (index.trees slot).root ≠ 0) :
    index.InHeap slot 1 := by
  by_contra outside
  rw [formed.placed.seated.root, formed.placed.seated.vacant slot 1 outside] at hasRoot
  exact hasRoot rfl

theorem Formed.root_le (formed : Formed index seat) (active : index.Active ticket)
    (there : ticket.slot = slot) : (index.key slot (index.trees slot).root).rank <= ticket.rank := by
  subst there
  rcases formed.placed.active_place active with ⟨place, inside, key⟩
  have least := (formed.ordered ticket.slot).root_le place inside.1 inside.2
  unfold Index.rankAt at least
  rw [formed.placed.seated.root, <- key]
  exact least

/-- What a search leaves of the tickets: it forgets dead ones of its slot, and
the one it takes. -/
def Prunes (slot : Nat) (live : Ticket -> Bool) (taken : Option Ticket) (index after : Index) : Prop :=
  ∀ raw, after.held raw = index.held raw ∨
    (after.held raw = none ∧ ∃ ticket, index.held raw = some (ticket, true) ∧ ticket.slot = slot ∧
      (live ticket = false ∨ taken = some ticket))

theorem Prunes.refl (live : Ticket -> Bool) (taken : Option Ticket) : Prunes slot live taken index index :=
  fun _ => .inl rfl

theorem Prunes.of_removed {middle after : Index} {live : Ticket -> Bool} {taken : Option Ticket}
    {gone : Ticket} (prunes : Prunes slot live taken middle after)
    (held : middle.held = Function.update index.held gone.record.id.raw none)
    (active : index.Active gone) (there : gone.slot = slot)
    (dropped : live gone = false ∨ taken = some gone) : Prunes slot live taken index after := by
  intro raw
  by_cases here : raw = gone.record.id.raw
  · subst here
    refine .inr ⟨?_, gone, active, there, dropped⟩
    rcases prunes gone.record.id.raw with same | ⟨none, _⟩
    · rw [same, held, Function.update_self]
    · exact none
  have middleHeld : middle.held raw = index.held raw := by
    rw [held, Function.update_of_ne here]
  have later := prunes raw
  rw [middleHeld] at later
  exact later

theorem Formed.minimumFrom (formed : Formed index seat) (live : Ticket -> Bool) {rounds : Nat}
    (enough : (index.trees slot).len < rounds) :
    (∃ seats, Formed (Index.minimumFrom slot live rounds index).2 seats) ∧
      Least index slot live (Index.minimumFrom slot live rounds index).1 ∧
      Prunes slot live none index (Index.minimumFrom slot live rounds index).2 := by
  induction rounds generalizing index seat with
  | zero => omega
  | succ rounds ih =>
    unfold Index.minimumFrom
    dsimp only
    split
    · rename_i noRoot
      refine ⟨⟨seat, formed⟩, ⟨nofun, fun _ other active there => ?_⟩,
        Prunes.refl live none⟩
      exact absurd there (formed.root_eq_zero noRoot active)
    rename_i hasRoot
    have inside := formed.root_inHeap hasRoot
    have atRoot := formed.placed.seated.root slot
    have active := (formed.placed.active_key inside).1
    rw [<- atRoot] at active
    split
    · rename_i alive
      refine ⟨⟨seat, formed⟩, ⟨fun ticket is => ?_, nofun⟩,
        Prunes.refl live none⟩
      cases is
      exact ⟨active, rfl, alive, fun other otherActive there _ => formed.root_le otherActive there⟩
    rename_i dead
    rw [Bool.not_eq_true] at dead
    have taken := formed.take inside
    rw [<- atRoot] at taken
    rcases taken with ⟨⟨seats, formedLater⟩, _, held, shorter⟩
    rcases ih formedLater (by omega) with ⟨formedLast, least, prunes⟩
    exact ⟨formedLast, least.of_removed held active dead,
      prunes.of_removed held active rfl (.inl dead)⟩

/-- The tickets that `take_foreign` looks for. -/
def foreignTo (home : Option RecordId) (live : Ticket -> Bool) (ticket : Ticket) : Bool :=
  live ticket && decide (some ticket.record.id ≠ home)

/-- The node that `take_foreign` removes next holds the least foreign ticket or a dead one. -/
theorem Formed.foreignNode (formed : Formed index seat) (home : Option RecordId) (live : Ticket -> Bool)
    (hasRoot : (index.trees slot).root ≠ 0) :
    (index.foreignNode slot home live = 0 ∧ ∀ other, index.Active other -> other.slot = slot ->
      foreignTo home live other = false) ∨
    ∃ place, index.InHeap slot place ∧ index.foreignNode slot home live = seat slot place ∧
      (live (index.key slot (seat slot place)) = true ->
        foreignTo home live (index.key slot (seat slot place)) = true) ∧
      ∀ other, index.Active other -> other.slot = slot -> foreignTo home live other = true ->
        (index.key slot (seat slot place)).rank <= other.rank := by
  have placed := formed.placed
  have inside := formed.root_inHeap hasRoot
  have atRoot := placed.seated.root slot
  have rootActive := (placed.active_key inside).1
  unfold Index.foreignNode
  dsimp only
  rw [atRoot]
  split
  · rename_i takesRoot
    rw [Bool.or_eq_true, Bool.not_eq_true', decide_eq_true_iff] at takesRoot
    refine .inr ⟨1, inside, rfl, fun alive => ?_, fun other active there _ => ?_⟩
    · unfold foreignTo
      rw [Bool.and_eq_true, decide_eq_true_iff]
      rcases takesRoot with dead | foreign
      · rw [dead] at alive
        cases alive
      · exact ⟨alive, foreign⟩
    · have least := formed.root_le active there
      rw [atRoot] at least
      exact least
  rename_i leavesRoot
  rw [Bool.or_eq_true, not_or, Bool.not_eq_true', Bool.not_eq_false, decide_eq_true_iff, not_not] at leavesRoot
  have notRoot : ∀ other, index.Active other -> other.slot = slot ->
      foreignTo home live other = true ->
      ∃ place, index.InHeap slot place ∧ 2 <= place ∧ index.key slot (seat slot place) = other := by
    rintro other active rfl foreign
    rcases placed.active_place active with ⟨place, within, key⟩
    refine ⟨place, within, ?_, key⟩
    have named := within.1
    by_contra isRoot
    have first : place = 1 := by omega
    subst first
    unfold foreignTo at foreign
    rw [<- key, Bool.and_eq_true, decide_eq_true_iff] at foreign
    exact foreign.2 leavesRoot.2
  rw [placed.seated.left slot 1 inside]
  split
  · rename_i noLeft
    refine .inl ⟨rfl, fun other active there => ?_⟩
    by_contra foreign
    rcases notRoot other active there (Bool.not_eq_false _ ▸ foreign) with ⟨place, within, below, _⟩
    have bound := within.2
    exact placed.seat_eq_zero_iff.mp noLeft ⟨by omega, by omega⟩
  rename_i hasLeft
  have leftInHeap : index.InHeap slot (2 * 1) := by
    by_contra outside
    exact hasLeft (placed.seated.vacant slot _ outside)
  rcases lesserChild_spec placed inside leftInHeap with
    ⟨child, isChild, childInHeap, chosen, least⟩
  refine .inr ⟨child, childInHeap, chosen, fun alive => ?_, fun other active there foreign => ?_⟩
  · unfold foreignTo
    rw [Bool.and_eq_true, decide_eq_true_iff]
    refine ⟨alive, fun isHome => ?_⟩
    rw [<- leavesRoot.2] at isHome
    have sameRecord := congrArg RecordId.raw (Option.some.inj isHome)
    rw [(placed.active_key childInHeap).2, (placed.active_key inside).2] at sameRecord
    refine placed.records_apart childInHeap inside (fun same => ?_) sameRecord
    have sameplace := (placed.seat_inj childInHeap inside same).2
    omega
  · rcases notRoot other active there foreign with ⟨place, within, below, key⟩
    rcases (formed.ordered slot).child_le place below within.2 with ⟨first, either, bound, smaller⟩
    have lesser := (least first bound (by omega)).trans smaller
    unfold Index.rankAt at lesser
    rw [key] at lesser
    exact lesser

theorem Formed.takeForeignFrom (formed : Formed index seat) (home : Option RecordId)
    (live : Ticket -> Bool) {rounds : Nat} (enough : (index.trees slot).len < rounds) :
    (∃ seats, Formed (Index.takeForeignFrom slot home live rounds index).2 seats) ∧
      Least index slot (foreignTo home live) (Index.takeForeignFrom slot home live rounds index).1 ∧
      Prunes slot live (Index.takeForeignFrom slot home live rounds index).1 index
        (Index.takeForeignFrom slot home live rounds index).2 := by
  induction rounds generalizing index seat with
  | zero => omega
  | succ rounds ih =>
    unfold Index.takeForeignFrom
    dsimp only
    split
    · rename_i noRoot
      refine ⟨⟨seat, formed⟩, ⟨nofun, fun _ other active there => ?_⟩,
        Prunes.refl live none⟩
      exact absurd there (formed.root_eq_zero noRoot active)
    rename_i hasRoot
    rcases formed.foreignNode home live hasRoot with
      ⟨nothing, allHome⟩ | ⟨place, inside, chosen, foreign, least⟩
    · rw [if_pos nothing]
      exact ⟨⟨seat, formed⟩, ⟨nofun, fun _ => allHome⟩,
        Prunes.refl live none⟩
    have active := (formed.placed.active_key inside).1
    rcases formed.take inside with ⟨⟨seats, formedLater⟩, removed, held, shorter⟩
    rw [chosen, if_neg (formed.placed.seat_node inside).1, removed]
    split
    · rename_i alive
      refine ⟨⟨seats, formedLater⟩, ⟨fun ticket is => ?_, nofun⟩, ?_⟩
      · cases is
        exact ⟨active, rfl, foreign alive, least⟩
      · exact (Prunes.refl live _).of_removed held active rfl (.inr rfl)
    rename_i dead
    rw [Bool.not_eq_true] at dead
    have unwanted : foreignTo home live (index.key slot (seat slot place)) = false := by
      unfold foreignTo
      rw [dead, Bool.false_and]
    rcases ih formedLater (by omega) with ⟨formedLast, leastLater, prunes⟩
    exact ⟨formedLast, leastLater.of_removed held active unwanted,
      prunes.of_removed held active rfl (.inl dead)⟩

end Records

end TimerIndex
end Carrick
