import Carrick.Zone.Order

namespace Carrick
namespace Zone

open Foundation

/-!
# Timed parks

A timed park reserves a ticket before it is published and activates it afterwards.
An active ticket is in the deadline index of its slot until it is removed, and the
index keeps one lease for each record.  The heap that orders the tickets of a slot
is left out: any live ticket of a slot may be the one that its timer serves next.

An operation takes several steps, each an atomic access or one section under a lock,
and a thread remembers between them what it has read.
-/

structure Ticket where
  slot : Nat
  record : Nat
  incarnation : Nat
  seq : Nat
  deadline : Nat
  deriving DecidableEq

/-- A record's node in the index: reserved for a park, or in its slot's heap. -/
structure Lease where
  ticket : Ticket
  active : Bool
  deriving DecidableEq

/-! ## The index -/

abbrev Index := Nat -> Option Lease

namespace Index

def cancelRecord (index : Index) (record : Nat) : Index :=
  Function.update index record none

/-- `reserve` after it has cancelled the record's lease. -/
def reserve (index : Index) (slot record incarnation seq : Nat) : Index :=
  Function.update index record (some { ticket := ⟨slot, record, incarnation, seq, 0⟩, active := false })

def admission (index : Index) (record incarnation seq deadline : Nat) : Option Ticket :=
  match index record with
  | none => none
  | some lease =>
    if lease.ticket.incarnation = incarnation ∧ lease.ticket.seq = seq ∧ lease.active = false then
      some ⟨lease.ticket.slot, record, incarnation, seq, deadline⟩
    else none

/-- Whether the reservation of a ticket is still there. -/
def reserved (index : Index) (ticket : Ticket) : Bool :=
  match index ticket.record with
  | none => false
  | some lease =>
    decide (lease.ticket.slot = ticket.slot ∧ lease.ticket.incarnation = ticket.incarnation ∧
      lease.ticket.seq = ticket.seq ∧ lease.active = false)

def activate (index : Index) (ticket : Ticket) : Index :=
  if index.reserved ticket then
    Function.update index ticket.record (some { ticket := ticket, active := true })
  else index

/-- The active ticket of a record. -/
def owned (index : Index) (record incarnation : Nat) : Option Ticket :=
  match index record with
  | none => none
  | some lease =>
    if lease.active = true ∧ lease.ticket.incarnation = incarnation then some lease.ticket else none

/-- Only the exact ticket is removed. -/
def remove (index : Index) (ticket : Ticket) : Index :=
  if (index ticket.record).map Lease.ticket = some ticket then
    Function.update index ticket.record none
  else index

end Index

/-! ## Threads -/

/-- What a thread has read of an operation that it has not finished.  Between
two stages other threads may run. -/
inductive Stage where
  | idle
  | publishing (record seq : Nat) (timer : Option Ticket)
  | activating (ticket : Ticket)
  | expiring (ticket : Ticket)
  | located (ticket : Ticket) (entry bucket : Nat)
  | removing (ticket : Ticket)
  | unhoming (record : Nat) (timer : Option Ticket)
  deriving DecidableEq

/-- `armed` is the ticket that was activated for a record's park and that no host took
over; the code does not keep it. -/
structure Timed where
  zone : Tables
  incarnation : Nat -> Nat
  index : Index
  thread : Nat -> Stage
  armed : Nat -> Option Ticket

def Claim.isParked : Claim -> Bool
  | .parked _ => true
  | _ => false

namespace Timed

def parked (state : Timed) (record : Nat) : Bool :=
  (state.zone.record record).claim.isParked

/-- `timer_ticket_live`. -/
def live (state : Timed) (ticket : Ticket) : Bool :=
  decide (state.incarnation ticket.record = ticket.incarnation ∧
    (state.zone.record ticket.record).claim = .parked ticket.seq ∧
    (state.zone.record ticket.record).deadline ≠ 0 ∧
    (state.zone.record ticket.record).deadline = ticket.deadline)

def setThread (state : Timed) (thread : Nat) (stage : Stage) : Timed :=
  { state with thread := Function.update state.thread thread stage }

end Timed

/-- `expire_timer` ends the park: the record is queued on the slot, and the entry that
was located leaves both its lists. -/
def Tables.expireEntry (zone : Tables) (bucket id record slot seq result : Nat) : Tables :=
  ((zone.setRecord record
      { zone.record record with
        claim := .queued slot seq, result := result,
        handback := some (zone.wokenHandback record) }).unlink bucket id).dropEntry record id

/-! ## Steps -/

inductive Act where
  | operate (operation : Operation)
  | setDeadline (record deadline : Nat)
  | withdraw (record : Nat)
  | cancel (record : Nat)
  | renew (record : Nat)
  | reserve (slot record seq : Nat)
  | prepare (thread record seq : Nat)
  | publish (thread : Nat)
  | publishGuest (thread slot : Nat)
  | activate (thread : Nat)
  | prune (thread record : Nat)
  | peek (thread record : Nat)
  | giveUp (thread : Nat)
  | locate (thread : Nat)
  | settle (thread result : Nat)
  | remove (thread : Nat)
  | takeForeign (record : Nat)
  | readHome (thread record : Nat)
  | unhome (thread : Nat)

/-- Who may do what to a record: enrolment and its undoing are the owner's, and no
claim becomes parked but by a publication. -/
def Permitted (zone : Tables) : Operation -> Bool
  | .enqueue record _ _ _ _ _ => !(zone.record record).claim.isParked && record ≠ 0
  | .unlinkAll record => !(zone.record record).claim.isParked
  | .hold _ claim => !claim.isParked
  | .wakeEl1 .. => true
  | .wakeBatch .. => true
  | .wakeHost .. => true
  | .requeue .. => true
  | .publish .. => false
  | .publishGuest .. => false
  | .withdraw _ => false

namespace Timed

/-- The park is published; the ticket, if there is one, is activated next. -/
def published (state : Timed) (thread record seq : Nat) (timer : Option Ticket) : Timed :=
  { state with
    zone := state.zone.publishPark record seq
    armed := Function.update state.armed record none
    thread := Function.update state.thread thread
      (match timer with
        | some ticket => .activating ticket
        | none => .idle) }

/-- One step; there is none where the thread is not at that point, or where the owner
of a record is asked for something that only happens to a record it does not own. -/
def next (state : Timed) : Act -> Option Timed
  | .operate operation =>
    if Permitted state.zone operation then
      some { state with zone := perform state.zone operation }
    else none
  | .setDeadline record deadline =>
    if state.parked record then none
    else some { state with
      zone := state.zone.setRecord record
        { state.zone.record record with deadline := deadline } }
  | .withdraw record =>
    if state.parked record then none
    else some { state with
      zone := state.zone.withdrawGuestPark (enrolledBucket state.zone record) record }
  | .cancel record =>
    if state.parked record then none
    else some { state with index := state.index.cancelRecord record }
  | .renew record =>
    if state.parked record then none
    else some { state with
      incarnation := Function.update state.incarnation record (state.incarnation record + 1) }
  | .reserve slot record seq =>
    if state.parked record then none
    else some { state with
      index := state.index.reserve slot record (state.incarnation record) seq }
  | .prepare thread record seq =>
    if state.thread thread = .idle then
      some (state.setThread thread (.publishing record seq
        (if (state.zone.record record).deadline = 0 then none
          else state.index.admission record (state.incarnation record) seq
            (state.zone.record record).deadline)))
    else none
  | .publish thread =>
    match state.thread thread with
    | .publishing record seq timer =>
      if state.parked record ∨ (state.zone.record record).firstEntry = 0 then none
      else some (state.published thread record seq timer)
    | _ => none
  | .publishGuest thread slot =>
    match state.thread thread with
    | .publishing record seq timer =>
      if state.parked record ∨ (state.zone.record record).firstEntry = 0 then none
      else
        match (state.zone.record record).claim with
        | .free => some (state.published thread record seq
            (timer.filter (fun ticket => ticket.slot = slot)))
        | .onCpu _ _ => some (state.published thread record seq
            (timer.filter (fun ticket => ticket.slot = slot)))
        | _ => some ({ state with
            zone := state.zone.withdrawGuestPark (enrolledBucket state.zone record) record
            index := state.index.cancelRecord record }.setThread thread .idle)
    | _ => none
  | .activate thread =>
    match state.thread thread with
    | .activating ticket =>
      some ({ state with
        index := state.index.activate ticket
        armed := if state.index.reserved ticket then
          Function.update state.armed ticket.record (some ticket)
          else state.armed }.setThread thread .idle)
    | _ => none
  | .prune thread record =>
    match state.thread thread, state.index record with
    | .idle, some { ticket, active := true } =>
      if state.live ticket then none else some (state.setThread thread (.removing ticket))
    | _, _ => none
  | .peek thread record =>
    match state.thread thread, state.index record with
    | .idle, some { ticket, active := true } =>
      if state.live ticket then some (state.setThread thread (.expiring ticket)) else none
    | _, _ => none
  | .giveUp thread =>
    match state.thread thread with
    | .expiring _ => some (state.setThread thread .idle)
    | .located _ _ _ => some (state.setThread thread .idle)
    | _ => none
  | .locate thread =>
    match state.thread thread with
    | .expiring ticket =>
      if state.incarnation ticket.record ≠ ticket.incarnation ∨
          (state.zone.record ticket.record).claim = .free ∨
          (state.zone.record ticket.record).firstEntry = 0 then
        some (state.setThread thread (.removing ticket))
      else
        some (state.setThread thread (.located ticket
          (state.zone.record ticket.record).firstEntry
          (enrolledBucket state.zone ticket.record)))
    | _ => none
  | .settle thread result =>
    match state.thread thread with
    | .located ticket entry bucket =>
      if (state.zone.entry entry).bucket ≠ bucket ∨
          state.incarnation ticket.record ≠ ticket.incarnation ∨
          (state.zone.record ticket.record).claim ≠ .parked ticket.seq then
        some (state.setThread thread (.removing ticket))
      else
        some ({ state with
          zone := state.zone.expireEntry bucket entry ticket.record ticket.slot ticket.seq
            result }.setThread thread (.removing ticket))
    | _ => none
  | .remove thread =>
    match state.thread thread with
    | .removing ticket =>
      some ({ state with index := state.index.remove ticket }.setThread thread .idle)
    | _ => none
  | .takeForeign record =>
    match state.index record with
    | some { ticket, active := true } =>
      some { state with
        index := state.index.remove ticket
        armed := if state.live ticket ∧ state.armed record = some ticket then
          Function.update state.armed record none
          else state.armed }
    | _ => none
  | .readHome thread record =>
    if state.thread thread = .idle then
      some (state.setThread thread (.unhoming record
        ((state.index.owned record (state.incarnation record)).filter state.live)))
    else none
  | .unhome thread =>
    match state.thread thread with
    | .unhoming record timer =>
      some ({ state with
        index := state.index.cancelRecord record
        armed := if state.armed record = timer then Function.update state.armed record none
          else state.armed }.setThread thread .idle)
    | _ => none

end Timed

end Zone
end Carrick
