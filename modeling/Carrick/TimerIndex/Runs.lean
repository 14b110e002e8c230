import Carrick.TimerIndex.Operations

namespace Carrick
namespace TimerIndex

open Foundation

/-!
# Runs of the index

A run is any sequence of sections under the locks of slots, for any slots and
records.  `reserve` has two: it cancels the lease of its record, and then takes
a node.  A park reserves for its own record, so no second reservation of that
record starts in between; every other operation may.
-/

/-- One section under the lock of a slot. -/
inductive Section where
  | cancelRecord (record : RecordId)
  | cancelAdmission (record : RecordRef) (seen : Nat)
  | cancelBeforeReserve (ticket : Ticket)
  | reserve (ticket : Ticket)
  | activate (ticket : Ticket)
  | minimum (slot : Nat) (live : Ticket -> Bool)
  | remove (ticket : Ticket)
  | takeForeign (slot : Nat) (home : Option RecordId) (live : Ticket -> Bool)

namespace Section

def run (index : Index) : Section -> Index
  | cancelRecord record => index.cancelRecord record
  | cancelAdmission record seen => index.cancelAdmission record seen
  | cancelBeforeReserve ticket => index.cancelRecord ticket.record.id
  | reserve ticket => (index.reserve ticket).2
  | activate ticket => index.activate ticket
  | minimum slot live => (index.minimum slot live).2
  | remove ticket => (index.remove ticket).2
  | takeForeign slot home live => (index.takeForeign slot home live).2

/-- The records whose reservation is between its two sections. -/
def reserving (records : Finset RecordId) : Section -> Finset RecordId
  | cancelBeforeReserve ticket => insert ticket.record.id records
  | reserve ticket => records.erase ticket.record.id
  | _ => records

/-- Reservations carry no deadline, removals name one, and a record is reserved
for by one park at a time. -/
def legal (records : Finset RecordId) : Section -> Prop
  | cancelBeforeReserve ticket => ticket.record.id ∉ records
  | reserve ticket => ticket.record.id ∈ records ∧ ticket.deadline = 0
  | remove ticket => ticket.deadline ≠ 0
  | _ => True

/-- How a section may end an active ticket: it is returned, removed, cancelled
or found dead. -/
def ends (index : Index) (ticket : Ticket) : Section -> Prop
  | cancelRecord record => record = ticket.record.id
  | cancelBeforeReserve reserved => reserved.record.id = ticket.record.id
  | minimum slot live => ticket.slot = slot ∧ live ticket = false
  | remove removed => removed = ticket
  | takeForeign slot home live => ticket.slot = slot ∧
      (live ticket = false ∨ (index.takeForeign slot home live).1 = some ticket)
  | _ => False

end Section

/-- The runs of the index, with the records that are being reserved for. -/
inductive Served : Index -> Finset RecordId -> Prop
  | empty : Served .empty ∅
  | locked {index : Index} {records : Finset RecordId} (run : Served index records) {next : Section}
      (legal : next.legal records) : Served (next.run index) (next.reserving records)

/-! ## What every section keeps -/

/-- The invariant of a run: a formed index, and no key for a record that is
being reserved for. -/
structure InService (index : Index) (records : Finset RecordId) : Prop where
  formed : ∃ seat, Formed index seat
  cancelled : ∀ record ∈ records, index.held record.raw = none

theorem Index.empty_formed : Formed .empty (fun _ _ => 0) := by
  have outside : ∀ slot place, ¬ Index.empty.InHeap slot place := by
    intro slot place inside
    have bound : place <= 0 := inside.2
    have named := inside.1
    omega
  refine ⟨⟨⟨fun _ _ => rfl, ?_, ?_, ?_, ?_⟩, ⟨fun _ _ _ => rfl, fun _ => rfl, ?_, ?_, ?_, ?_, ?_, ?_⟩⟩, ?_⟩
  · intro raw present
    exact absurd rfl present
  · intro raw present
    exact absurd rfl present
  · intro node
    refine ⟨nofun, fun ⟨_, present, _⟩ => absurd rfl present⟩
  · intro raw present
    exact absurd rfl present
  · intro slot place inside
    exact absurd inside (outside slot place)
  · intro slot place inside
    exact absurd inside (outside slot place)
  · intro slot place inside
    exact absurd inside (outside slot place)
  · intro slot first _ inside
    exact absurd inside (outside slot first)
  · intro slot place inside
    exact absurd inside (outside slot place)
  · intro raw present
    exact absurd rfl present
  · intro slot place below inside
    have bound : place <= 0 := inside
    omega

section Steps

variable {index : Index} {records : Finset RecordId}

theorem Formed.minimum {seat : Nat -> Nat -> Nat} (formed : Formed index seat) (slot : Nat)
    (live : Ticket -> Bool) :
    (∃ seats, Formed (index.minimum slot live).2 seats) ∧
      Least index slot live (index.minimum slot live).1 ∧
      Prunes slot live none index (index.minimum slot live).2 :=
  formed.minimumFrom live (Nat.lt_succ_self _)

theorem Formed.takeForeign {seat : Nat -> Nat -> Nat} (formed : Formed index seat) (slot : Nat)
    (home : Option RecordId) (live : Ticket -> Bool) :
    (∃ seats, Formed (index.takeForeign slot home live).2 seats) ∧
      Least index slot (foreignTo home live) (index.takeForeign slot home live).1 ∧
      Prunes slot live (index.takeForeign slot home live).1 index (index.takeForeign slot home live).2 :=
  formed.takeForeignFrom home live (Nat.lt_succ_self _)

/-- What a section may do to what is known of a record: keep it, forget it as
it may end an active ticket, or make a ticket of the record it reserves for or
activates. -/
theorem Section.held_cases (inService : InService index records) {next : Section}
    (legal : next.legal records) (raw : Nat) :
    (next.run index).held raw = index.held raw ∨
    ((next.run index).held raw = none ∧ ∀ ticket, index.held raw = some (ticket, true) ->
      next.ends index ticket) ∨
    (∃ ticket, next = .reserve ticket ∧ raw = ticket.record.id.raw ∧ index.held raw = none) ∨
    (∃ ticket reserved, next = .activate ticket ∧ index.held raw = some (reserved, false)) := by
  rcases inService.formed with ⟨seat, formed⟩
  have named : ∀ {ticket}, index.held raw = some (ticket, true) -> raw = ticket.record.id.raw :=
    formed.placed.leased.held_record
  have forgets : ∀ {record : RecordId} {after : Index},
      after.held = Function.update index.held record.raw none ->
      after.held raw = index.held raw ∨ after.held raw = none ∧ raw = record.raw := by
    intro record after held
    rw [held]
    by_cases here : raw = record.raw
    · rw [here, Function.update_self]
      exact .inr ⟨rfl, rfl⟩
    · rw [Function.update_of_ne here]
      exact .inl rfl
  cases next with
  | cancelRecord record =>
    rcases forgets (formed.cancelRecord record).2 with same | ⟨none, own⟩
    · exact .inl same
    · refine .inr (.inl ⟨none, fun ticket held => RecordId.raw_inj ?_⟩)
      rw [<- own]
      exact named held
  | cancelBeforeReserve reserved =>
    rcases forgets (formed.cancelRecord reserved.record.id).2 with same | ⟨none, own⟩
    · exact .inl same
    · refine .inr (.inl ⟨none, fun ticket held => RecordId.raw_inj ?_⟩)
      rw [<- own]
      exact named held
  | cancelAdmission record seen =>
    rcases (formed.cancelAdmission record seen).2 with same | ⟨reserved, before, held⟩
    · exact .inl (congrFun same raw)
    rcases forgets held with same | ⟨none, own⟩
    · exact .inl same
    · refine .inr (.inl ⟨none, fun ticket active => ?_⟩)
      rw [own, before] at active
      cases active
  | reserve ticket =>
    have unleased : index.held ticket.record.id.raw = none := inService.cancelled _ legal.1
    have held := (formed.reserve (held_eq_none.mp unleased) legal.2).2
    by_cases here : raw = ticket.record.id.raw
    · exact .inr (.inr (.inl ⟨ticket, rfl, here, here ▸ unleased⟩))
    · refine .inl ((congrFun held raw).trans ?_)
      split
      · rw [Function.update_of_ne here]
      · rfl
  | activate ticket =>
    rcases (formed.activate ticket).2 with same | ⟨reserved, before, _, _, _, held⟩
    · exact .inl (congrFun same raw)
    · by_cases here : raw = ticket.record.id.raw
      · exact .inr (.inr (.inr ⟨ticket, reserved, rfl, here ▸ before⟩))
      · refine .inl ((congrFun held raw).trans ?_)
        rw [Function.update_of_ne here]
  | minimum slot live =>
    rcases (formed.minimum slot live).2.2 raw with same | ⟨none, dead, before, there, dropped⟩
    · exact .inl same
    refine .inr (.inl ⟨none, fun ticket active => ?_⟩)
    rw [before] at active
    cases active
    rcases dropped with isDead | wrong
    · exact ⟨there, isDead⟩
    · cases wrong
  | remove removed =>
    have held := (formed.remove legal).2.2
    have active := (formed.remove legal).2.1
    by_cases taken : (index.remove removed).1 = true
    · rw [if_pos taken] at held
      rcases forgets held with same | ⟨none, own⟩
      · exact .inl same
      refine .inr (.inl ⟨none, fun ticket before => ?_⟩)
      have there := active.mp taken
      unfold Index.Active at there
      rw [<- own, before] at there
      exact (congrArg Prod.fst (Option.some.inj there)).symm
    · rw [if_neg taken] at held
      exact .inl (congrFun held raw)
  | takeForeign slot home live =>
    rcases (formed.takeForeign slot home live).2.2 raw with same | ⟨none, gone, before, there, dropped⟩
    · exact .inl same
    · refine .inr (.inl ⟨none, fun ticket active => ?_⟩)
      rw [before] at active
      cases active
      exact ⟨there, dropped⟩

theorem Section.run_formed (inService : InService index records) {next : Section}
    (legal : next.legal records) : ∃ seat, Formed (next.run index) seat := by
  rcases inService.formed with ⟨seat, formed⟩
  cases next with
  | cancelRecord record => exact (formed.cancelRecord record).1
  | cancelAdmission record seen => exact (formed.cancelAdmission record seen).1
  | cancelBeforeReserve ticket => exact (formed.cancelRecord ticket.record.id).1
  | reserve ticket =>
    have unleased : index.held ticket.record.id.raw = none := inService.cancelled _ legal.1
    exact ⟨seat, (formed.reserve (held_eq_none.mp unleased) legal.2).1⟩
  | activate ticket => exact (formed.activate ticket).1
  | minimum slot live => exact (formed.minimum slot live).1
  | remove ticket => exact (formed.remove legal).1
  | takeForeign slot home live => exact (formed.takeForeign slot home live).1

theorem Section.run_inService (inService : InService index records) {next : Section}
    (legal : next.legal records) : InService (next.run index) (next.reserving records) := by
  refine ⟨next.run_formed inService legal, fun record member => ?_⟩
  have stays : record ∈ records -> (∀ ticket, next ≠ .reserve ticket ∨ record ≠ ticket.record.id) ->
      (next.run index).held record.raw = none := by
    intro old other
    have before := inService.cancelled record old
    rcases next.held_cases inService legal record.raw with
      same | ⟨none, _⟩ | ⟨ticket, is, own, _⟩ | ⟨ticket, reserved, _, held⟩
    · rw [same, before]
    · exact none
    · rcases other ticket with differs | away
      · exact absurd is differs
      · exact absurd (RecordId.raw_inj own) away
    · rw [before] at held
      cases held
  cases next with
  | cancelBeforeReserve ticket =>
    rcases Finset.mem_insert.mp member with rfl | old
    · rcases inService.formed with ⟨seat, formed⟩
      refine (congrFun (formed.cancelRecord ticket.record.id).2 _).trans ?_
      rw [Function.update_self]
    · exact stays old (fun other => .inl (by simp))
  | reserve ticket =>
    rcases Finset.mem_erase.mp member with ⟨away, old⟩
    refine stays old (fun other => ?_)
    by_cases same : other = ticket
    · exact .inr (same ▸ away)
    · exact .inl (fun is => same (Section.reserve.inj is).symm)
  | cancelRecord record => exact stays member (fun other => .inl (by simp))
  | cancelAdmission record seen => exact stays member (fun other => .inl (by simp))
  | activate ticket => exact stays member (fun other => .inl (by simp))
  | minimum slot live => exact stays member (fun other => .inl (by simp))
  | remove ticket => exact stays member (fun other => .inl (by simp))
  | takeForeign slot home live => exact stays member (fun other => .inl (by simp))

end Steps

theorem Served.inService {index : Index} {records : Finset RecordId} (run : Served index records) :
    InService index records := by
  induction run with
  | empty => exact ⟨⟨_, Index.empty_formed⟩, fun record member => absurd member (Finset.notMem_empty _)⟩
  | locked _ legal ih => exact Section.run_inService ih legal

/-! ## Counting nodes -/

theorem countP_range (count : Nat) (chosen : Nat -> Bool) :
    (List.range count).countP chosen = ((Finset.range count).filter (fun raw => chosen raw = true)).card := by
  rw [List.countP_eq_length_filter, <- List.toFinset_card_of_nodup (List.nodup_range.filter chosen),
    List.toFinset_filter, List.toFinset_range]

theorem Leased.allocatedNodes_eq {index : Index} (leased : Leased index) :
    index.allocatedNodes = (List.range zoneRecords).countP (fun raw => (index.held raw).isSome) := by
  unfold Index.allocatedNodes
  rw [countP_range, countP_range]
  symm
  have known : ∀ {raw}, (index.held raw).isSome = true <-> (index.leases raw).slot ≠ 0 := by
    intro raw
    rw [Option.isSome_iff_ne_none, ne_eq, held_eq_none]
  refine Finset.card_bij (fun raw _ => (index.leases raw).node) ?_ ?_ ?_
  · intro raw member
    have present := known.mp (Finset.mem_filter.mp member).2
    exact Finset.mem_filter.mpr ⟨Finset.mem_range.mpr (leased.node raw present).2,
      (leased.mapped _).mpr ⟨raw, present, rfl⟩⟩
  · intro first firstMember second secondMember same
    exact leased.node_inj (known.mp (Finset.mem_filter.mp firstMember).2)
      (known.mp (Finset.mem_filter.mp secondMember).2) same
  · intro node member
    rcases (leased.mapped node).mp (Finset.mem_filter.mp member).2 with ⟨raw, present, here⟩
    exact ⟨raw, Finset.mem_filter.mpr ⟨Finset.mem_range.mpr (leased.named raw present).2.1,
      known.mpr present⟩, here⟩

/-- The records that hold a reserved, or an active, ticket. -/
def Index.countHeld (index : Index) (active : Bool) : Nat :=
  (List.range zoneRecords).countP (fun raw => (index.held raw).any (fun held => held.2 == active))

theorem countHeld_add (index : Index) :
    index.countHeld false + index.countHeld true =
      (List.range zoneRecords).countP (fun raw => (index.held raw).isSome) := by
  unfold Index.countHeld
  induction List.range zoneRecords with
  | nil => rfl
  | cons raw rest ih =>
    simp only [List.countP_cons]
    rw [<- ih]
    cases index.held raw with
    | none => simp
    | some held =>
      rcases held with ⟨ticket, active⟩
      cases active with
      | true => simp; omega
      | false => simp; omega

/-! ## Every run keeps deadlines and hints -/

/-- What holds of the index in every state: its heaps are complete binary trees
in order, a record has one node, searches answer with the least ticket, an
active ticket ends in no other way than it may, and nodes are counted by
tickets. -/
structure KeepsDeadlines (index : Index) (records : Finset RecordId) : Prop where
  heaps : ∃ seat, Formed index seat
  single : ∀ seat, Formed index seat -> ∀ slot place other next, index.InHeap slot place ->
    index.InHeap other next ->
    (index.nodes (seat slot place)).record = (index.nodes (seat other next)).record ->
    slot = other ∧ place = next
  minimum : ∀ slot live, Least index slot live (index.minimum slot live).1
  takeForeign : ∀ slot home live,
    Least index slot (foreignTo home live) (index.takeForeign slot home live).1
  ends : ∀ next : Section, next.legal records -> ∀ ticket, index.Active ticket ->
    ¬ (next.run index).Active ticket -> next.ends index ticket
  allocated : index.allocatedNodes = index.countHeld false + index.countHeld true

/-- Every index that legal sections lead to keeps its deadlines: the heaps are in
order, and each search answers with the least ticket that it wants. -/
theorem served_keepsDeadlines {index : Index} {records : Finset RecordId} (run : Served index records) :
    KeepsDeadlines index records := by
  have inService := run.inService
  rcases inService.formed with ⟨seat, formed⟩
  refine ⟨⟨seat, formed⟩, ?_, ?_, ?_, ?_, ?_⟩
  · intro seats formedHere slot place other next inside alsoInside same
    by_contra apart
    refine formedHere.placed.records_apart inside alsoInside (fun sameNode => apart ?_) same
    exact formedHere.placed.seat_inj inside alsoInside sameNode
  · exact fun slot live => (formed.minimum slot live).2.1
  · exact fun slot home live => (formed.takeForeign slot home live).2.1
  · intro next legal ticket active ended
    rcases next.held_cases inService legal ticket.record.id.raw with
      same | ⟨_, ends⟩ | ⟨reserved, _, _, none⟩ | ⟨activated, reserved, _, held⟩
    · exact absurd (same.trans active) ended
    · exact ends ticket active
    · rw [show index.held ticket.record.id.raw = some (ticket, true) from active] at none
      cases none
    · rw [show index.held ticket.record.id.raw = some (ticket, true) from active] at held
      cases held
  · rw [formed.placed.leased.allocatedNodes_eq, countHeld_add]

instance (records : Finset RecordId) (next : Section) : Decidable (next.legal records) :=
  match next with
  | .cancelBeforeReserve _ => inferInstanceAs (Decidable (_ ∉ records))
  | .reserve _ => inferInstanceAs (Decidable (_ ∧ _))
  | .remove _ => inferInstanceAs (Decidable (_ ≠ _))
  | .cancelRecord _ | .cancelAdmission _ _ | .activate _ | .minimum _ _ | .takeForeign _ _ _ =>
    inferInstanceAs (Decidable True)

def serveAll : List Section -> Index × Finset RecordId -> Index × Finset RecordId
  | [], state => state
  | next :: rest, (index, records) => serveAll rest (next.run index, next.reserving records)

def legalAll : List Section -> Finset RecordId -> Bool
  | [], _ => true
  | next :: rest, records => decide (next.legal records) && legalAll rest (next.reserving records)

theorem served_serveAll {sections : List Section} {index : Index} {records : Finset RecordId}
    (start : Served index records) (legal : legalAll sections records = true) :
    Served (serveAll sections (index, records)).1 (serveAll sections (index, records)).2 := by
  induction sections generalizing index records with
  | nil => exact start
  | cons next rest ih =>
    rcases (Bool.and_eq_true _ _).mp legal with ⟨here, later⟩
    exact ih (start.locked (of_decide_eq_true here)) later

/-- A park of a record on slot 3. -/
def parkTicket (raw deadline : Nat) : Ticket :=
  ⟨3, ⟨(RecordId.fromRaw raw).getD .placeholder, 1⟩, 1, deadline⟩

/-- The sections of a timed park. -/
def timedPark (raw deadline : Nat) : List Section :=
  [.cancelBeforeReserve (parkTicket raw 0), .reserve (parkTicket raw 0),
    .activate (parkTicket raw deadline)]

/-- Three timed parks and a fourth that is only reserved. -/
def threeParks : List Section :=
  timedPark 1 9 ++ timedPark 2 7 ++ timedPark 3 5 ++ (timedPark 4 1).take 2

theorem served_keepsDeadlines_threeParks :
    ((serveAll threeParks (.empty, ∅)).1.minimum 3 (fun _ => true)).1 = some (parkTicket 3 5) ∧
      ((serveAll threeParks (.empty, ∅)).1.takeForeign 3 (RecordId.fromRaw 3) (fun _ => true)).1 =
        some (parkTicket 2 7) ∧
      KeepsDeadlines (serveAll threeParks (.empty, ∅)).1 (serveAll threeParks (.empty, ∅)).2 :=
  ⟨by decide +kernel, by decide +kernel,
    served_keepsDeadlines (served_serveAll .empty (by decide +kernel))⟩

end TimerIndex
end Carrick
