import Carrick.Reservation.Admission

namespace Carrick
namespace Reservation

open Foundation
open Foundation.Command

/-!
# The journal of owed returns

A resident range that the guest retired is journaled in a slot of a table that
all roots share, until the host acknowledges the sequence of its request.  The
slot is reserved before the retirement is committed and filled after it.
-/

/-- One slot.  `mm` names its root, and is 0 when the slot is free. -/
structure DeferredSlot where
  mm : Nat
  start : Nat
  stop : Nat
  sequence : Nat
  deriving DecidableEq

/-- An extent whose frames are still to be returned. -/
structure DeferredReturn where
  range : ReservationRange
  sequence : Nat
  deriving DecidableEq

/-- A reserved slot, and whether it joins the extent already there. -/
structure ReturnSlot where
  index : Nat
  merge : Bool
  deriving DecidableEq

/-- The slots that one root may own. -/
def deferredReturns : Nat := 8

namespace DeferredSlot

def free : DeferredSlot := ⟨0, 0, 0, 0⟩

def owned (mm : Nat) (slot : DeferredSlot) : Bool := decide (slot.mm = mm)

/-- The slot abuts or overlaps the range. -/
def touches (slot : DeferredSlot) (range : ReservationRange) : Bool :=
  decide (slot.start <= range.stop) && decide (range.start <= slot.stop)

def deferredReturn (slot : DeferredSlot) : Option DeferredReturn := do
  let range ← ReservationRange.new slot.start slot.stop
  if slot.sequence = 0 then none else some ⟨range, slot.sequence⟩

/-- The slot after the retirement of a range was committed. -/
def journal (slot : DeferredSlot) (merge : Bool) (range : ReservationRange) (sequence : Nat) :
    DeferredSlot :=
  if merge then
    { slot with
      start := min slot.start range.start
      stop := max slot.stop range.stop
      sequence := max slot.sequence sequence }
  else
    { slot with
      start := range.start
      stop := range.stop
      sequence := sequence }

end DeferredSlot

def deferred (mm : Nat) (slots : List DeferredSlot) : List DeferredReturn :=
  (slots.filter (DeferredSlot.owned mm)).filterMap DeferredSlot.deferredReturn

/-- The slot a range would join, else a free slot when the root is under its share. -/
def deferredSlotFor (mm : Nat) (slots : List DeferredSlot) (range : ReservationRange) :
    Option ReturnSlot :=
  match slots.findIdx? (fun slot => slot.owned mm && slot.touches range) with
  | some index => some ⟨index, true⟩
  | none =>
    if deferredReturns <= slots.countP (DeferredSlot.owned mm) then none
    else (slots.findIdx? (DeferredSlot.owned 0)).map (fun index => ⟨index, false⟩)

/-- Whether the slot belongs to `mm`; a free slot belongs to 0. -/
def ownedAt (mm : Nat) (slots : List DeferredSlot) (index : Nat) : Bool :=
  slots[index]?.any (DeferredSlot.owned mm)

def claimSlot (mm : Nat) (slots : List DeferredSlot) (index : Nat) : List DeferredSlot :=
  slots.modify index (fun slot => { slot with mm := mm })

/-- Reserve a slot.  `races` are the tables that the claims of a free slot meet
when other roots edit theirs between the scan and the claim; a lost claim
scans again. -/
def reserveReturn (mm : Nat) (range : ReservationRange) :
    List (List DeferredSlot) -> List DeferredSlot -> Except Refusal ReturnSlot × List DeferredSlot
  | [], slots =>
    match deferredSlotFor mm slots range with
    | none => (.error .busy, slots)
    | some slot => (.ok slot, if slot.merge then slots else claimSlot mm slots slot.index)
  | met :: races, slots =>
    match deferredSlotFor mm slots range with
    | none => (.error .busy, slots)
    | some slot =>
      if slot.merge then (.ok slot, slots)
      else if ownedAt 0 met slot.index then (.ok slot, claimSlot mm met slot.index)
      else reserveReturn mm range races met

/-- Give back a reservation whose retirement was not committed. -/
def releaseReturn (mm : Nat) (slot : ReturnSlot) (slots : List DeferredSlot) : List DeferredSlot :=
  if !slot.merge && ownedAt mm slots slot.index then claimSlot 0 slots slot.index else slots

def acknowledged (mm through : Nat) (slot : DeferredSlot) : DeferredSlot :=
  if slot.mm = mm ∧ slot.sequence <= through then .free else slot

/-- What the host and the guest report of a committed request.  Sequences
start from 1. -/
structure ReservationCompletion where
  request : ReservationRequest
  returnedBytes : Nat
  numbered : request.sequence ≠ 0
  deriving DecidableEq

/-- A root under its guard, the journal it shares, and the reservations that
were handed out and neither committed nor given back. -/
structure Journal where
  mm : Nat
  root : Root
  slots : List DeferredSlot
  reserved : List ReturnSlot

namespace Journal

def owed (journal : Journal) : List DeferredReturn := deferred journal.mm journal.slots

/-- The surroundings of a call of the root, with the returns its journal owes. -/
def around (journal : Journal) (around : Surroundings) : Surroundings :=
  { around with owed := journal.owed.map DeferredReturn.range }

end Journal

/-- The operations whose completion may leave a return owed. -/
def ReservationOperation.defers (operation : ReservationOperation) : Bool :=
  decide (operation = .retire) || decide (operation = .prepare) || decide (operation = .decommit)

/-- Complete a pending request and journal its range in the reserved slot. -/
def completeDeferringReturn (completion : ReservationCompletion) (slot : ReturnSlot)
    (around : Surroundings) (journal : Journal) : Except Refusal Answer × Journal :=
  let released := { journal with slots := releaseReturn journal.mm slot journal.slots }
  match journal.root.pending with
  | none => (.error .stale, released)
  | some pending =>
    if pending.request.operation.defers && decide (completion.returnedBytes = 0) then
      match Event.run ⟨.complete completion.request, around⟩ journal.root with
      | (.error refusal, root) => (.error refusal, { released with root := root })
      | (.ok answer, root) =>
        (.ok answer,
          { journal with
            root := root
            slots := journal.slots.modify slot.index (fun entry =>
              entry.journal slot.merge pending.request.range pending.request.sequence) })
    else (.error .invalid, released)

/-- One step of a root and of the roots it shares the table with. -/
inductive JournalEvent where
  | reserveReturn (range : ReservationRange) (races : List (List DeferredSlot))
  | releaseReturn (slot : ReturnSlot)
  | completeDeferringReturn (completion : ReservationCompletion) (slot : ReturnSlot)
      (around : Surroundings)
  | acknowledgeDeferredReturns (through : Nat)
  | edit (call : Call) (around : Surroundings)
  | others (slots : List DeferredSlot)
  deriving DecidableEq

namespace JournalEvent

def run (journal : Journal) : JournalEvent -> Journal
  | reserveReturn range races =>
    match Reservation.reserveReturn journal.mm range races journal.slots with
    | (.error _, slots) => { journal with slots := slots }
    | (.ok slot, slots) => { journal with slots := slots, reserved := slot :: journal.reserved }
  | releaseReturn slot =>
    { journal with
      slots := Reservation.releaseReturn journal.mm slot journal.slots
      reserved := journal.reserved.erase slot }
  | completeDeferringReturn completion slot around =>
    let after := (Reservation.completeDeferringReturn completion slot
      (journal.around around) journal).2
    { after with reserved := journal.reserved.erase slot }
  | acknowledgeDeferredReturns through =>
    if journal.root.admitted then
      { journal with slots := journal.slots.map (acknowledged journal.mm through) }
    else journal
  | edit call around =>
    { journal with root := (Event.run ⟨call, journal.around around⟩ journal.root).2 }
  | others slots => { journal with slots := slots }

/-- The returns due after a step: a completion makes one due until a sequence
at or behind its own is acknowledged. -/
def due (journal : Journal) (earlier : List DeferredReturn) : JournalEvent -> List DeferredReturn
  | completeDeferringReturn completion slot around =>
    match Reservation.completeDeferringReturn completion slot
        (journal.around around) journal with
    | (.ok _, _) =>
      (journal.root.pending.map (fun pending =>
        ⟨pending.request.range, pending.request.sequence⟩)).toList ++ earlier
    | (.error _, _) => earlier
  | acknowledgeDeferredReturns through =>
    if journal.root.admitted then
      earlier.filter (fun owed => decide (through < owed.sequence))
    else earlier
  | _ => earlier

end JournalEvent

/-- What other roots do to the table: the slots of this root stay, and it is
given none. -/
def interferes (mm : Nat) (before after : List DeferredSlot) : Bool :=
  decide (after.length = before.length) &&
    (before.zip after).all (fun slots =>
      !(slots.1.owned mm || slots.2.owned mm) || decide (slots.1 = slots.2))

/-- Each table is what other roots make of the one before. -/
def interfered (mm : Nat) : List DeferredSlot -> List (List DeferredSlot) -> Bool
  | _, [] => true
  | slots, met :: races => interferes mm slots met && interfered mm met races

/-- The steps there can be: a reservation is used once, and other roots keep
to their own slots. -/
def JournalEvent.legal (journal : Journal) : JournalEvent -> Bool
  | .reserveReturn _ races => interfered journal.mm journal.slots races
  | .releaseReturn slot => decide (slot ∈ journal.reserved)
  | .completeDeferringReturn _ slot _ => decide (slot ∈ journal.reserved)
  | .others slots => interferes journal.mm journal.slots slots
  | _ => true

/-- The runs of one root and its journal, with the returns that are due.  The
key of a root is never reused, so no slot has it when the root is new. -/
inductive Journaled (allowed : Journal -> JournalEvent -> Prop) :
    Journal -> List DeferredReturn -> Prop
  | opened {journal : Journal} (reachable : Reachable (fun _ _ => True) journal.root)
      (published : journal.mm ≠ 0) (fresh : ∀ slot ∈ journal.slots, slot.mm ≠ journal.mm)
      (unreserved : journal.reserved = []) : Journaled allowed journal []
  | stepped {before : Journal} {earlier : List DeferredReturn}
      (run : Journaled allowed before earlier) {event : JournalEvent}
      (legal : event.legal before = true) (allows : allowed before event) :
      Journaled allowed (event.run before) (event.due before earlier)

/-! ## When the journal keeps its word -/

/-- The slot is not this root's, or holds no extent. -/
def unfilled (mm : Nat) (slots : List DeferredSlot) (index : Nat) : Bool :=
  slots[index]?.all (fun slot => !slot.owned mm || decide (slot.sequence = 0))

/-- Free slots are empty.  A root that is retired for good with returns owed
leaves their extents behind. -/
def emptied (slots : List DeferredSlot) : Bool :=
  slots.all (fun slot => !slot.owned 0 || decide (slot = .free))

/-- The slot is this root's, a joining range touches it, and no other slot of
this root holds an extent that overlaps the range. -/
def receives (mm : Nat) (slots : List DeferredSlot) (slot : ReturnSlot) (range : ReservationRange) :
    Bool :=
  slots[slot.index]?.any (fun entry => entry.owned mm && (!slot.merge || entry.touches range)) &&
    slots.zipIdx.all (fun other => decide (other.2 = slot.index) || !other.1.owned mm ||
      decide (other.1.stop <= range.start) || decide (range.stop <= other.1.start))

/-- The condition under which a step keeps the journal: a reservation finds no
leftovers in free slots, a slot reserved for itself holds nothing when it is
given back or filled, and a completed range goes to a slot that is still the
root's and overlaps no extent of another one. -/
def JournalEvent.orderly (journal : Journal) : JournalEvent -> Bool
  | .reserveReturn _ races => emptied journal.slots && races.all emptied
  | .releaseReturn slot => slot.merge || unfilled journal.mm journal.slots slot.index
  | .completeDeferringReturn completion slot _ =>
    (slot.merge || unfilled journal.mm journal.slots slot.index) &&
      journal.root.pending.all (fun pending =>
        !journal.root.authenticates pending completion.request ||
          receives journal.mm journal.slots slot pending.request.range)
  | _ => true

theorem DeferredSlot.owned_iff {mm : Nat} {slot : DeferredSlot} :
    slot.owned mm = true <-> slot.mm = mm := by
  unfold DeferredSlot.owned
  exact decide_eq_true_iff

theorem ReservationRange.new_bounds (range : ReservationRange) :
    ReservationRange.new range.start range.stop = some range := by
  unfold ReservationRange.new
  rw [dif_pos ⟨range.ordered, range.start_aligned, range.stop_aligned, range.in_word⟩]

theorem DeferredSlot.deferredReturn_eq_some {slot : DeferredSlot} {owed : DeferredReturn} :
    slot.deferredReturn = some owed <->
      owed.range.start = slot.start ∧ owed.range.stop = slot.stop ∧ owed.sequence = slot.sequence ∧
        slot.sequence ≠ 0 := by
  unfold DeferredSlot.deferredReturn
  refine ⟨fun found => ?_, fun ⟨start, stop, sequence, numbered⟩ => ?_⟩
  · rcases Option.bind_eq_some_iff.mp found with ⟨range, made, chosen⟩
    split at chosen
    · cases chosen
    · rename_i numbered
      cases chosen
      exact ⟨(ReservationRange.new_eq_some made).1, (ReservationRange.new_eq_some made).2, rfl,
        numbered⟩
  · rw [<- start, <- stop, ReservationRange.new_bounds]
    refine (if_neg numbered).trans ?_
    rw [<- sequence]

/-- A slot of the root that holds nothing, or an extent. -/
def DeferredSlot.Shaped (slot : DeferredSlot) : Prop :=
  slot.start = 0 ∧ slot.stop = 0 ∧ slot.sequence = 0 ∨ ∃ owed, slot.deferredReturn = some owed

def DeferredSlot.Apart (slot other : DeferredSlot) : Prop :=
  slot.stop <= other.start ∨ other.stop <= slot.start

/-- The slot answers for a return that is due: it is of this root, spans the
extent and is acknowledged no earlier. -/
structure DeferredSlot.Covers (mm : Nat) (slot : DeferredSlot) (owed : DeferredReturn) : Prop where
  own : slot.mm = mm
  start : slot.start <= owed.range.start
  stop : owed.range.stop <= slot.stop
  sequence : owed.sequence <= slot.sequence

/-- The journal of a root: its extents are apart, and each return that is due
is in one of them. -/
structure Booked (mm : Nat) (slots : List DeferredSlot) (due : List DeferredReturn) : Prop where
  shaped : ∀ (index : Nat) (slot : DeferredSlot), slots[index]? = some slot -> slot.mm = mm ->
    slot.Shaped
  apart : ∀ (first second : Nat) (slot other : DeferredSlot), slots[first]? = some slot ->
    slots[second]? = some other -> slot.mm = mm -> other.mm = mm -> first ≠ second ->
    slot.Apart other
  covers : ∀ owed ∈ due,
    ∃ (index : Nat) (slot : DeferredSlot), slots[index]? = some slot ∧ slot.Covers mm owed

section Booking

variable {mm : Nat} {slots : List DeferredSlot} {due : List DeferredReturn}

theorem interferes_keeps {after : List DeferredSlot} (interfering : interferes mm slots after = true)
    (index : Nat) {slot : DeferredSlot} (own : slot.mm = mm) :
    after[index]? = some slot <-> slots[index]? = some slot := by
  rcases (Bool.and_eq_true _ _).mp interfering with ⟨sameLength, agree⟩
  have length := of_decide_eq_true sameLength
  have owned := DeferredSlot.owned_iff.mpr own
  have same : ∀ before later, slots[index]? = some before -> after[index]? = some later ->
      (before.owned mm || later.owned mm) = true -> before = later := by
    intro before later here there either
    have paired := List.all_eq_true.mp agree (before, later)
      (List.mem_of_getElem? (List.getElem?_zip_eq_some.mpr ⟨here, there⟩))
    rw [either, Bool.not_true, Bool.false_or] at paired
    exact of_decide_eq_true paired
  refine ⟨fun there => ?_, fun here => ?_⟩
  · rcases List.getElem?_eq_some_iff.mp there with ⟨inside, _⟩
    have here := List.getElem?_eq_getElem (length ▸ inside : index < slots.length)
    rw [here, same _ _ here there (by rw [owned, Bool.or_true])]
  · rcases List.getElem?_eq_some_iff.mp here with ⟨inside, _⟩
    have there := List.getElem?_eq_getElem (length.symm ▸ inside : index < after.length)
    rw [there, same _ _ here there (by rw [owned, Bool.true_or])]

theorem Booked.of_interference (booked : Booked mm slots due) {after : List DeferredSlot}
    (interfering : interferes mm slots after = true) : Booked mm after due := by
  refine ⟨?_, ?_, ?_⟩
  · intro index slot here own
    exact booked.shaped index slot ((interferes_keeps interfering index own).mp here) own
  · intro first second slot other here there own otherOwn
    exact booked.apart first second slot other ((interferes_keeps interfering first own).mp here)
      ((interferes_keeps interfering second otherOwn).mp there) own otherOwn
  · intro owed member
    rcases booked.covers owed member with ⟨index, slot, here, covers⟩
    exact ⟨index, slot, (interferes_keeps interfering index covers.own).mpr here, covers⟩

variable {index : Nat} {entry : DeferredSlot}

theorem Booked.modified {later : List DeferredReturn} (booked : Booked mm slots due)
    {change : DeferredSlot -> DeferredSlot} (here : slots[index]? = some entry)
    (shaped : (change entry).mm = mm -> (change entry).Shaped)
    (apart : (change entry).mm = mm -> ∀ (place : Nat) (other : DeferredSlot), place ≠ index
      -> slots[place]? = some other -> other.mm = mm -> (change entry).Apart other)
    (covers : ∀ owed ∈ later, (change entry).Covers mm owed ∨ ∃ (place : Nat) (other
      : DeferredSlot), place ≠ index ∧ slots[place]? = some other ∧ other.Covers mm owed) :
    Booked mm (slots.modify index change) later := by
  have changed : (slots.modify index change)[index]? = some (change entry) := by
    rw [List.getElem?_modify_eq, here]
    rfl
  have kept : ∀ place, place ≠ index -> (slots.modify index change)[place]? = slots[place]? :=
    fun place other => List.getElem?_modify_ne _ _ other.symm
  refine ⟨?_, ?_, ?_⟩
  · intro place slot found own
    by_cases same : place = index
    · subst same
      rw [changed] at found
      cases found
      exact shaped own
    · rw [kept place same] at found
      exact booked.shaped place slot found own
  · intro first second slot other found foundOther own otherOwn distinct
    by_cases isFirst : first = index
    · subst isFirst
      rw [changed] at found
      rw [kept second (Ne.symm distinct)] at foundOther
      cases found
      exact apart own second other (Ne.symm distinct) foundOther otherOwn
    rw [kept first isFirst] at found
    by_cases isSecond : second = index
    · subst isSecond
      rw [changed] at foundOther
      cases foundOther
      exact (apart otherOwn first slot distinct found own).symm
    · rw [kept second isSecond] at foundOther
      exact booked.apart first second slot other found foundOther own otherOwn distinct
  · intro owed member
    rcases covers owed member with coversHere | ⟨place, other, elsewhere, found, coversThere⟩
    · exact ⟨index, change entry, changed, coversHere⟩
    · exact ⟨place, other, (kept place elsewhere).trans found, coversThere⟩

theorem DeferredSlot.Covers.filled {slot : DeferredSlot} {owed : DeferredReturn}
    (covers : slot.Covers mm owed) : slot.stop ≠ 0 := by
  have ordered := owed.range.ordered
  have stop := covers.stop
  omega

theorem Booked.unfilled_blank (booked : Booked mm slots due) (here : slots[index]? = some entry)
    (own : entry.mm = mm) (empty : unfilled mm slots index = true) :
    entry.start = 0 ∧ entry.stop = 0 ∧ entry.sequence = 0 := by
  unfold unfilled at empty
  rw [here, Option.all_some, DeferredSlot.owned_iff.mpr own] at empty
  have zero : entry.sequence = 0 := by simpa using empty
  rcases booked.shaped index entry here own with blank | ⟨owed, holds⟩
  · exact blank
  · exact absurd zero (DeferredSlot.deferredReturn_eq_some.mp holds).2.2.2

/-- A slot that holds nothing is claimed from the table or given back to it. -/
theorem Booked.claimed (booked : Booked mm slots due) (here : slots[index]? = some entry)
    (start : entry.start = 0) (stop : entry.stop = 0) (sequence : entry.sequence = 0)
    (owner : Nat) : Booked mm (claimSlot owner slots index) due := by
  refine booked.modified here (fun _ => .inl ⟨start, stop, sequence⟩) ?_ ?_
  · intro _ place other _ _ _
    exact .inl (stop.trans_le (Nat.zero_le _))
  intro owed member
  rcases booked.covers owed member with ⟨place, other, found, covers⟩
  refine .inr ⟨place, other, ?_, found, covers⟩
  rintro rfl
  rw [here] at found
  cases found
  exact covers.filled stop

variable {slot : ReturnSlot}

theorem releaseReturn_booked (booked : Booked mm slots due)
    (empty : (slot.merge || unfilled mm slots slot.index) = true) :
    Booked mm (releaseReturn mm slot slots) due := by
  unfold releaseReturn
  cases merge : slot.merge with
  | true => exact booked
  | false =>
    rw [merge, Bool.false_or] at empty
    rw [Bool.not_false, Bool.true_and]
    split
    · rename_i owned
      rcases (Option.any_eq_true _ _).mp owned with ⟨entry, here, own⟩
      rcases booked.unfilled_blank here (DeferredSlot.owned_iff.mp own) empty with
        ⟨start, stop, sequence⟩
      exact booked.claimed here start stop sequence 0
    · exact booked

variable {range : ReservationRange}

theorem deferredSlotFor_free (chosen : deferredSlotFor mm slots range = some slot)
    (fresh : slot.merge = false) :
    ownedAt 0 slots slot.index = true := by
  unfold deferredSlotFor at chosen
  split at chosen
  · cases chosen
    cases fresh
  split at chosen
  · cases chosen
  rcases Option.map_eq_some_iff.mp chosen with ⟨index, found, rfl⟩
  rcases List.findIdx?_eq_some_iff_getElem.mp found with ⟨inside, owned, _⟩
  unfold ownedAt
  rw [List.getElem?_eq_getElem inside]
  exact owned

theorem claimSlot_booked (booked : Booked mm slots due) (empty : emptied slots = true)
    (isFree : ownedAt 0 slots index = true) : Booked mm (claimSlot mm slots index) due := by
  rcases (Option.any_eq_true _ _).mp isFree with ⟨entry, here, owned⟩
  have blank := List.all_eq_true.mp empty entry (List.mem_of_getElem? here)
  rw [owned, Bool.not_true, Bool.false_or, decide_eq_true_iff] at blank
  subst blank
  exact booked.claimed here rfl rfl rfl mm

/-- The loop of a reservation: every claim it loses leaves the slots of this
root as they are. -/
theorem reserveReturn_booked {range : ReservationRange} {races : List (List DeferredSlot)}
    (booked : Booked mm slots due) (empty : emptied slots = true) (emptyRaces : races.all emptied = true)
    (meets : interfered mm slots races = true) :
    Booked mm (reserveReturn mm range races slots).2 due := by
  induction races generalizing slots with
  | nil =>
    unfold reserveReturn
    cases chosen : deferredSlotFor mm slots range with
    | none => exact booked
    | some slot =>
      dsimp only
      split
      · exact booked
      · rename_i fresh
        exact claimSlot_booked booked empty
          (deferredSlotFor_free chosen (Bool.eq_false_iff.mpr fresh))
  | cons met races ih =>
    rw [List.all_cons, Bool.and_eq_true] at emptyRaces
    rcases (Bool.and_eq_true _ _).mp meets with ⟨interfering, meetsLater⟩
    have bookedMet := booked.of_interference interfering
    unfold reserveReturn
    cases chosen : deferredSlotFor mm slots range with
    | none => exact booked
    | some slot =>
      dsimp only
      split
      · exact booked
      · split
        · rename_i isFree
          exact claimSlot_booked bookedMet emptyRaces.1 isFree
        · exact ih bookedMet emptyRaces.1 emptyRaces.2 meetsLater

theorem receives_spec (received : receives mm slots slot range = true) :
    ∃ entry, slots[slot.index]? = some entry ∧ entry.mm = mm ∧
      (slot.merge = true -> entry.start <= range.stop ∧ range.start <= entry.stop) ∧
      ∀ (place : Nat) (other : DeferredSlot), place ≠ slot.index -> slots[place]? = some other ->
        other.mm = mm -> other.stop <= range.start ∨ range.stop <= other.start := by
  unfold receives at received
  rcases (Bool.and_eq_true _ _).mp received with ⟨accepts, clear⟩
  rcases (Option.any_eq_true _ _).mp accepts with ⟨entry, here, owned⟩
  rw [Bool.and_eq_true, DeferredSlot.owned_iff] at owned
  refine ⟨entry, here, owned.1, fun merges => ?_, fun place other elsewhere found own => ?_⟩
  · have touching := owned.2
    rw [merges, Bool.not_true, Bool.false_or] at touching
    unfold DeferredSlot.touches at touching
    simpa using touching
  · have apart := List.all_eq_true.mp clear (other, place) (List.mem_zipIdx_iff_getElem?.mpr found)
    rw [DeferredSlot.owned_iff.mpr own] at apart
    simpa [elsewhere] using apart

theorem DeferredSlot.journal_shaped (shaped : entry.Shaped) (merge : Bool)
    (range : ReservationRange) {sequence : Nat} (numbered : sequence ≠ 0) :
    (entry.journal merge range sequence).Shaped := by
  have ordered := range.ordered
  have startAligned := range.start_aligned
  have stopAligned := range.stop_aligned
  have inWord := range.in_word
  unfold DeferredSlot.journal
  cases merge with
  | false =>
    exact .inr ⟨⟨range, sequence⟩, DeferredSlot.deferredReturn_eq_some.mpr ⟨rfl, rfl, rfl, numbered⟩⟩
  | true =>
    rw [if_pos rfl]
    have limits : max entry.stop range.stop < wordLimit ∧ max entry.stop range.stop % pageSize = 0 ∧
        min entry.start range.start % pageSize = 0 := by
      rcases shaped with ⟨start, stop, _⟩ | ⟨owed, holds⟩
      · rw [start, stop, Nat.zero_max, Nat.zero_min]
        exact ⟨inWord, stopAligned, rfl⟩
      rcases DeferredSlot.deferredReturn_eq_some.mp holds with ⟨start, stop, _, _⟩
      have owedWord := owed.range.in_word
      have owedStart := owed.range.start_aligned
      have owedStop := owed.range.stop_aligned
      rw [<- start, <- stop]
      refine ⟨max_lt owedWord inWord, ?_, ?_⟩
      · rcases max_choice owed.range.stop range.stop with chosen | chosen
        · rw [chosen, owedStop]
        · rw [chosen, stopAligned]
      · rcases min_choice owed.range.start range.start with chosen | chosen
        · rw [chosen, owedStart]
        · rw [chosen, startAligned]
    have widened : min entry.start range.start < max entry.stop range.stop := by omega
    exact .inr ⟨⟨⟨_, _, widened, limits.2.2, limits.2.1, limits.1⟩, max entry.sequence sequence⟩,
      DeferredSlot.deferredReturn_eq_some.mpr ⟨rfl, rfl, rfl, by dsimp only; omega⟩⟩

theorem DeferredSlot.journal_covers (own : entry.mm = mm) (merge : Bool) (owed : DeferredReturn) :
    (entry.journal merge owed.range owed.sequence).Covers mm owed := by
  unfold DeferredSlot.journal
  cases merge with
  | false => exact ⟨own, le_refl _, le_refl _, le_refl _⟩
  | true => exact ⟨own, min_le_right _ _, le_max_right _ _, le_max_right _ _⟩

theorem DeferredSlot.Covers.journal {earlier : DeferredReturn} (covers : entry.Covers mm earlier)
    (owed : DeferredReturn) :
    (entry.journal true owed.range owed.sequence).Covers mm earlier := by
  rcases covers with ⟨own, start, stop, sequence⟩
  exact ⟨own, (min_le_left _ _).trans start, stop.trans (le_max_left _ _),
    sequence.trans (le_max_left _ _)⟩

/-- A slot joined to a range that it touches is apart from what both are apart from. -/
theorem DeferredSlot.journal_apart {other : DeferredSlot} {merge : Bool} (sequence : Nat)
    (shaped : entry.Shaped) (otherShaped : other.Shaped)
    (touching : merge = true -> entry.start <= range.stop ∧ range.start <= entry.stop)
    (apart : entry.Apart other) (clear : other.stop <= range.start ∨ range.stop <= other.start) :
    (entry.journal merge range sequence).Apart other := by
  have ordered := range.ordered
  have bounds : ∀ {slot : DeferredSlot}, slot.Shaped ->
      slot.start = 0 ∧ slot.stop = 0 ∨ slot.start < slot.stop := by
    intro slot shape
    rcases shape with ⟨start, stop, _⟩ | ⟨owed, holds⟩
    · exact .inl ⟨start, stop⟩
    · rcases DeferredSlot.deferredReturn_eq_some.mp holds with ⟨start, stop, _, _⟩
      have ordered := owed.range.ordered
      exact .inr (by omega)
  have entryBounds := bounds shaped
  have otherBounds := bounds otherShaped
  unfold DeferredSlot.Apart at apart ⊢
  unfold DeferredSlot.journal
  cases merge with
  | false => exact clear.symm
  | true =>
    rw [if_pos rfl]
    dsimp only
    have touch := touching rfl
    omega

theorem journaled_booked (booked : Booked mm slots due) {slot : ReturnSlot} {owed : DeferredReturn}
    (numbered : owed.sequence ≠ 0) (received : receives mm slots slot owed.range = true)
    (empty : (slot.merge || unfilled mm slots slot.index) = true) :
    Booked mm (slots.modify slot.index (fun entry =>
      entry.journal slot.merge owed.range owed.sequence)) (owed :: due) := by
  rcases receives_spec received with ⟨entry, here, own, touching, clear⟩
  have shaped := booked.shaped slot.index entry here own
  refine booked.modified here (fun _ => DeferredSlot.journal_shaped shaped _ _ numbered) ?_ ?_
  · intro _ place other elsewhere found otherOwn
    exact DeferredSlot.journal_apart _ shaped (booked.shaped place other found otherOwn) touching
      (booked.apart slot.index place entry other here found own otherOwn elsewhere.symm)
      (clear place other elsewhere found otherOwn)
  intro earlier member
  rcases List.mem_cons.mp member with rfl | before
  · exact .inl (DeferredSlot.journal_covers own _ _)
  rcases booked.covers earlier before with ⟨place, other, found, covers⟩
  by_cases same : place = slot.index
  · subst same
    rw [here] at found
    cases found
    cases merge : slot.merge with
    | true => exact .inl (covers.journal owed)
    | false =>
      rw [merge, Bool.false_or] at empty
      exact absurd (booked.unfilled_blank here own empty).2.1 covers.filled
  · exact .inr ⟨place, other, same, found, covers⟩

/-- An acknowledgement frees the slots of sequences up to its own, and with
them only returns of such sequences. -/
theorem acknowledged_booked (booked : Booked mm slots due) (published : mm ≠ 0) (through : Nat) :
    Booked mm (slots.map (acknowledged mm through))
      (due.filter (fun owed => decide (through < owed.sequence))) := by
  have kept : ∀ (index : Nat) (slot : DeferredSlot),
      (slots.map (acknowledged mm through))[index]? = some slot -> slot.mm = mm ->
        slots[index]? = some slot := by
    intro index slot found own
    rw [List.getElem?_map] at found
    rcases Option.map_eq_some_iff.mp found with ⟨entry, here, rfl⟩
    unfold acknowledged at own ⊢
    split at own
    · exact absurd own published.symm
    · rename_i remains
      rw [if_neg remains]
      exact here
  refine ⟨?_, ?_, ?_⟩
  · intro index slot found own
    exact booked.shaped index slot (kept index slot found own) own
  · intro first second slot other found foundOther own otherOwn
    exact booked.apart first second slot other (kept first slot found own)
      (kept second other foundOther otherOwn) own otherOwn
  intro owed member
  rcases List.mem_filter.mp member with ⟨before, later⟩
  rcases booked.covers owed before with ⟨index, slot, here, covers⟩
  have behind := of_decide_eq_true later
  have sequence := covers.sequence
  refine ⟨index, slot, ?_, covers⟩
  rw [List.getElem?_map, here, Option.map_some]
  unfold acknowledged
  rw [if_neg (by omega)]

end Booking

/-! ## Whole runs -/

variable {root : Root}

theorem Event.complete_authentic {request : ReservationRequest} {around : Surroundings}
    {answer : Answer} {after : Root}
    (ran : Event.run ⟨.complete request, around⟩ root = (.ok answer, after)) :
    ∃ pending, root.pending = some pending ∧ root.authenticates pending request = true := by
  rcases ran_of_answering ran with ⟨result, completed⟩
  unfold Reservation.complete at completed
  rcases completeAs_cases request false (root.within around) with
    ⟨_, refused, _⟩ | ⟨pending, has, authentic, _⟩
  · rw [completed] at refused
    cases refused
  · exact ⟨pending, has, authentic⟩

/-- A deferring completion is refused, and gives its slot back, or commits the
pending request and journals its range. -/
theorem completeDeferringReturn_cases (completion : ReservationCompletion) (slot : ReturnSlot)
    (around : Surroundings) (journal : Journal) :
    (∃ reason root, completeDeferringReturn completion slot around journal =
        (.error reason, { journal with
          root := root
          slots := releaseReturn journal.mm slot journal.slots }) ∧
      (root = journal.root ∨ root = (Event.run ⟨.complete completion.request, around⟩ journal.root).2)) ∨
    ∃ answer pending, journal.root.pending = some pending ∧
      journal.root.authenticates pending completion.request = true ∧
      completeDeferringReturn completion slot around journal =
        (.ok answer, { journal with
          root := (Event.run ⟨.complete completion.request, around⟩ journal.root).2
          slots := journal.slots.modify slot.index (fun entry =>
            entry.journal slot.merge pending.request.range pending.request.sequence) }) := by
  unfold completeDeferringReturn
  cases has : journal.root.pending with
  | none => exact .inl ⟨.stale, journal.root, rfl, .inl rfl⟩
  | some pending =>
    dsimp only
    split
    · cases ran : Event.run ⟨.complete completion.request, around⟩ journal.root with
      | mk outcome after =>
        cases outcome with
        | error reason => exact .inl ⟨reason, after, rfl, .inr rfl⟩
        | ok answer =>
          rcases Event.complete_authentic ran with ⟨found, hasFound, authentic⟩
          rw [has] at hasFound
          cases hasFound
          exact .inr ⟨answer, pending, rfl, authentic, rfl⟩
    · exact .inl ⟨.invalid, journal.root, rfl, .inl rfl⟩

/-- What every step keeps: a published root that its calls lead to, and slots
that answer for every return that is due. -/
structure InOrder (journal : Journal) (due : List DeferredReturn) : Prop where
  published : journal.mm ≠ 0
  reachable : Reachable (fun _ _ => True) journal.root
  booked : Booked journal.mm journal.slots due

variable {due : List DeferredReturn}

theorem completeDeferringReturn_inOrder {journal : Journal}
    (inOrder : InOrder journal due) {completion : ReservationCompletion} {slot : ReturnSlot}
    {around : Surroundings}
    (orderly : (JournalEvent.completeDeferringReturn completion slot around).orderly journal = true) :
    InOrder ((JournalEvent.completeDeferringReturn completion slot around).run journal)
      ((JournalEvent.completeDeferringReturn completion slot around).due journal due) := by
  rcases (Bool.and_eq_true _ _).mp orderly with ⟨empty, received⟩
  have reachable := inOrder.reachable
  unfold JournalEvent.run JournalEvent.due
  dsimp only
  rcases completeDeferringReturn_cases completion slot (journal.around around) journal with
    ⟨reason, root, refused, sameOrRan⟩ | ⟨answer, pending, has, authentic, ran⟩
  · rw [refused]
    refine ⟨inOrder.published, ?_, releaseReturn_booked inOrder.booked empty⟩
    rcases sameOrRan with rfl | rfl
    · exact reachable
    · exact reachable.called trivial
  rw [ran, has]
  rw [has, Option.all_some, authentic, Bool.not_true, Bool.false_or] at received
  have numbered : pending.request.sequence ≠ 0 := by
    rw [<- (authenticates_iff.mp authentic).1]
    exact completion.numbered
  exact ⟨inOrder.published, reachable.called trivial,
    @journaled_booked _ _ _ inOrder.booked slot ⟨pending.request.range, pending.request.sequence⟩
      numbered received empty⟩

theorem JournalEvent.run_inOrder {journal : Journal}
    (inOrder : InOrder journal due) {event : JournalEvent} (legal : event.legal journal = true)
    (orderly : event.orderly journal = true) : InOrder (event.run journal) (event.due journal due) := by
  rcases inOrder with ⟨published, reachable, booked⟩
  cases event with
  | reserveReturn range races =>
    rcases (Bool.and_eq_true _ _).mp orderly with ⟨empty, emptyRaces⟩
    have reserved := @reserveReturn_booked _ _ _ range _ booked empty emptyRaces legal
    unfold run
    dsimp only
    cases ran : Reservation.reserveReturn journal.mm range races journal.slots with
    | mk outcome slots =>
      rw [ran] at reserved
      cases outcome with
      | error reason => exact ⟨published, reachable, reserved⟩
      | ok slot => exact ⟨published, reachable, reserved⟩
  | releaseReturn slot => exact ⟨published, reachable, releaseReturn_booked booked orderly⟩
  | completeDeferringReturn completion slot around =>
    exact completeDeferringReturn_inOrder ⟨published, reachable, booked⟩ orderly
  | acknowledgeDeferredReturns through =>
    unfold run JournalEvent.due
    dsimp only
    split
    · exact ⟨published, reachable, acknowledged_booked booked published through⟩
    · exact ⟨published, reachable, booked⟩
  | edit call around => exact ⟨published, reachable.called trivial, booked⟩
  | others slots => exact ⟨published, reachable, booked.of_interference legal⟩

theorem Journaled.inOrder {journal : Journal}
    (run : Journaled (fun before event => event.orderly before = true) journal due) :
    InOrder journal due := by
  induction run with
  | opened reachable published fresh _ =>
    refine ⟨published, reachable, ?_, ?_, ?_⟩
    · intro index slot here own
      exact absurd own (fresh slot (List.mem_of_getElem? here))
    · intro first second slot other here _ own
      exact absurd own (fresh slot (List.mem_of_getElem? here))
    · intro owed member
      cases member
  | stepped _ legal orderly ih =>
    exact JournalEvent.run_inOrder ih legal orderly

/-! ## What the journal promises -/

/-- The owed extents are disjoint, hold every return that is due, and are kept
from proposals and from the search for a hole. -/
structure KeepsReturns (journal : Journal) (due : List DeferredReturn) : Prop where
  disjoint : journal.owed.Pairwise (fun first second => ∀ address,
    ¬ (first.range.contains address = true ∧ second.range.contains address = true))
  owes : ∀ later address, later ∈ due -> later.range.contains address = true ->
    ∃ owed ∈ journal.owed, owed.range.contains address = true
  refuses : ∀ owed address, owed ∈ journal.owed -> owed.range.contains address = true ->
    ∀ proposal, proposal.operation ≠ .retire -> proposal.range.contains address = true ->
      ∀ around,
        checkProposal (journal.root.within (journal.around around)) proposal ≠ .ok ()
  withholds : ∀ owed address, owed ∈ journal.owed -> owed.range.contains address = true ->
    ∀ around len found,
      (journal.root.within (journal.around around)).firstFit len = some found ->
        ¬ (found <= address ∧ address < found + len)

theorem mem_deferred {mm : Nat} {slots : List DeferredSlot} {owed : DeferredReturn} :
    owed ∈ deferred mm slots <->
      ∃ (index : Nat) (slot : DeferredSlot), slots[index]? = some slot ∧ slot.mm = mm ∧
        slot.deferredReturn = some owed := by
  unfold deferred
  rw [List.mem_filterMap]
  refine ⟨fun ⟨slot, member, holds⟩ => ?_, fun ⟨index, slot, here, own, holds⟩ => ?_⟩
  · rcases List.mem_filter.mp member with ⟨inTable, owned⟩
    rcases List.mem_iff_getElem?.mp inTable with ⟨index, here⟩
    exact ⟨index, slot, here, DeferredSlot.owned_iff.mp owned, holds⟩
  · exact ⟨slot, List.mem_filter.mpr ⟨List.mem_of_getElem? here, DeferredSlot.owned_iff.mpr own⟩,
      holds⟩

theorem Booked.pairwise_apart {mm : Nat} {slots : List DeferredSlot}
    (booked : Booked mm slots due) : (deferred mm slots).Pairwise (fun first second =>
      ∀ address, ¬ (first.range.contains address = true ∧ second.range.contains address = true)) := by
  unfold deferred
  rw [List.pairwise_filterMap, List.pairwise_filter, List.pairwise_iff_getElem]
  intro first second firstInside secondInside before owned otherOwned owed holds other otherHolds
    address ⟨inFirst, inSecond⟩
  have apart := booked.apart first second _ _ (List.getElem?_eq_getElem firstInside)
    (List.getElem?_eq_getElem secondInside) (DeferredSlot.owned_iff.mp owned)
    (DeferredSlot.owned_iff.mp otherOwned) (Nat.ne_of_lt before)
  rcases DeferredSlot.deferredReturn_eq_some.mp holds with ⟨start, stop, _, _⟩
  rcases DeferredSlot.deferredReturn_eq_some.mp otherHolds with ⟨otherStart, otherStop, _, _⟩
  rw [ReservationRange.contains_iff] at inFirst inSecond
  unfold DeferredSlot.Apart at apart
  omega

theorem Booked.owes {mm : Nat} {slots : List DeferredSlot}
    (booked : Booked mm slots due) {later : DeferredReturn} (member : later ∈ due) {address : Nat}
    (inside : later.range.contains address = true) :
    ∃ owed ∈ deferred mm slots, owed.range.contains address = true := by
  rcases booked.covers later member with ⟨index, slot, here, covers⟩
  rcases booked.shaped index slot here covers.own with ⟨_, blank, _⟩ | ⟨owed, holds⟩
  · exact absurd blank covers.filled
  refine ⟨owed, mem_deferred.mpr ⟨index, slot, here, covers.own, holds⟩, ?_⟩
  rcases DeferredSlot.deferredReturn_eq_some.mp holds with ⟨start, stop, _, _⟩
  have coversStart := covers.start
  have coversStop := covers.stop
  rw [ReservationRange.contains_iff] at inside ⊢
  omega

theorem checkProposal_owed {proposal : ReservationProposal}
    (editing : proposal.operation ≠ .retire) (owed : root.returnOwedWithin proposal.range = true) :
    checkProposal root proposal ≠ .ok () := by
  intro checked
  have notStale := passed_of_throw checked
  have notBusy := passed_of_throw notStale
  have notPrepared := passed_of_throw notBusy
  have notImage := passed_of_throw notPrepared
  have notForeign := passed_of_throw notImage
  rw [if_pos ⟨editing, owed⟩] at notForeign
  cases notForeign

theorem firstFit_vacant (reachable : Reachable (fun _ _ => True) root) {around : Surroundings}
    {len found : Nat} (positive : 0 < len) (fits : (root.within around).firstFit len = some found) :
    Vacant (root.within around) len found := by
  have tidy : Tidy (root.within around).tree := reachable.aged.tidy
  have balanced : (root.within around).tree.Balanced mappingSummary := reachable.shaped.tree
  have least := firstFitFrom_spec positive tidy balanced (around.owed.length + 1)
    root.layout.arena.start (le_refl _)
    (lt_of_le_of_lt (List.length_filter_le _ _) (Nat.lt_succ_self _))
  exact (least.found found fits).2.1

/-- In every run whose steps are orderly, the journal keeps its word in every
state. -/
theorem journaled_keepsReturns {journal : Journal} {due : List DeferredReturn}
    (run : Journaled (fun before event => event.orderly before = true) journal due) :
    KeepsReturns journal due := by
  have inOrder := run.inOrder
  refine ⟨inOrder.booked.pairwise_apart, fun later address member inside => ?_, ?_, ?_⟩
  · exact inOrder.booked.owes member inside
  · intro owed address member inside proposal editing covers around
    refine checkProposal_owed editing (List.any_eq_true.mpr ⟨owed.range, ?_, ?_⟩)
    · exact List.mem_map_of_mem member
    · rw [ReservationRange.contains_iff] at inside covers
      unfold ReservationRange.overlaps
      rw [Bool.and_eq_true, decide_eq_true_iff, decide_eq_true_iff]
      omega
  · intro owed address member inside around len found fits offered
    have vacant := firstFit_vacant inOrder.reachable (by omega) fits
    have clear := vacant.returned owed.range (List.mem_map_of_mem member)
    rw [ReservationRange.contains_iff] at inside
    omega

/-! ## Runs of an example root -/

/-- The state and the returns due after the events. -/
def runJournal : List JournalEvent -> Journal × List DeferredReturn -> Journal × List DeferredReturn
  | [], state => state
  | event :: rest, (journal, due) => runJournal rest (event.run journal, event.due journal due)

/-- Every event may be taken where it comes. -/
def permits (check : Journal -> JournalEvent -> Bool) : List JournalEvent -> Journal -> Bool
  | [], _ => true
  | event :: rest, journal =>
    event.legal journal && check journal event && permits check rest (event.run journal)

theorem journaled_runJournal {allowed : Journal -> JournalEvent -> Prop}
    {check : Journal -> JournalEvent -> Bool}
    (allows : ∀ before event, check before event = true -> allowed before event)
    {events : List JournalEvent} {journal : Journal}
    (start : Journaled allowed journal due) (permitted : permits check events journal = true) :
    Journaled allowed (runJournal events (journal, due)).1 (runJournal events (journal, due)).2 := by
  induction events generalizing journal due with
  | nil => exact start
  | cons event rest ih =>
    rcases (Bool.and_eq_true _ _).mp permitted with ⟨here, later⟩
    rcases (Bool.and_eq_true _ _).mp here with ⟨legal, checked⟩
    exact ih (start.stepped legal (allows journal event checked)) later

/-- The example root with all slots of the table free. -/
def openedJournal : Journal := ⟨7, emptyRoot, List.replicate 64 .free, []⟩

theorem openedJournal_journaled (allowed : Journal -> JournalEvent -> Prop) :
    Journaled allowed openedJournal [] := by
  refine .opened (.claimed emptyRoot_claimed) (by decide) (fun slot member => ?_) rfl
  rw [List.eq_of_mem_replicate member]
  decide

/-- Three pages of the arena are mapped. -/
def threePagesMapped : List JournalEvent :=
  [.edit .finishImport (withLeftover none),
    .edit (.mmap (.fixed firstThreePages.start) 12288 .readWrite) (withLeftover none),
    .edit (.complete (requested 1 1 firstThreePages .prepare none)) (withLeftover none)]

/-- The unmapping of a range after `earlier` other requests. -/
def unmapping (earlier : Nat) (range : ReservationRange) : ReservationCompletion where
  request := ⟨7, earlier + 1, earlier + 1, range, .none, .retire, none⟩
  returnedBytes := 0
  numbered := Nat.succ_ne_zero earlier

/-- Unmapping a range, deferring its return. -/
def deferring (earlier : Nat) (range : ReservationRange) (slot : ReturnSlot) : List JournalEvent :=
  [.edit (.munmap range) (withLeftover none), .reserveReturn range [],
    .completeDeferringReturn (unmapping earlier range) slot (withLeftover none)]

/-- Two adjacent pages are retired one after the other, and an acknowledgement
of an earlier sequence comes in between. -/
def adjacentRetired : List JournalEvent :=
  threePagesMapped ++ deferring 1 firstArenaPage ⟨0, false⟩ ++
    [.acknowledgeDeferredReturns 1] ++ deferring 2 secondArenaPage ⟨0, true⟩

theorem journaled_keepsReturns_adjacent :
    (runJournal adjacentRetired (openedJournal, [])).2 =
        [⟨secondArenaPage, 3⟩, ⟨firstArenaPage, 2⟩] ∧
      (runJournal adjacentRetired (openedJournal, [])).1.owed.length = 1 ∧
      KeepsReturns (runJournal adjacentRetired (openedJournal, [])).1
        (runJournal adjacentRetired (openedJournal, [])).2 :=
  ⟨by decide +kernel, by decide +kernel, journaled_keepsReturns
    (journaled_runJournal (fun _ _ checked => checked) (openedJournal_journaled _) (by decide +kernel))⟩

/-- Two pages are retired that do not touch, and then the three pages they are
the ends of. -/
def bridgeRetired : List JournalEvent :=
  threePagesMapped ++ deferring 1 firstArenaPage ⟨0, false⟩ ++
    deferring 2 thirdArenaPage ⟨1, false⟩ ++ deferring 3 firstThreePages ⟨0, true⟩

/-- A slot is reserved, an earlier sequence is acknowledged, and the retirement
is committed. -/
def acknowledgedMeanwhile : List JournalEvent :=
  threePagesMapped ++
    [.edit (.munmap firstArenaPage) (withLeftover none), .reserveReturn firstArenaPage [],
      .acknowledgeDeferredReturns 1,
      .completeDeferringReturn (unmapping 1 firstArenaPage) ⟨0, false⟩ (withLeftover none)]

/-- A retirement that bridges two owed extents joins the first and overlaps the
second, and an acknowledgement while a slot is reserved loses the return. -/
theorem bridge_overlaps_and_return_lost :
    (∃ journal due, Journaled (fun _ _ => True) journal due ∧
      ¬ journal.owed.Pairwise (fun first second => ∀ address,
        ¬ (first.range.contains address = true ∧ second.range.contains address = true))) ∧
    ∃ journal due, Journaled (fun _ _ => True) journal due ∧
      ∃ later ∈ due, later.range.contains 0x6000000000 = true ∧ journal.owed = [] := by
  have runs : ∀ events, permits (fun _ _ => true) events openedJournal = true ->
      Journaled (fun _ _ => True) (runJournal events (openedJournal, [])).1
        (runJournal events (openedJournal, [])).2 :=
    fun events permitted => journaled_runJournal (fun _ _ _ => trivial) (openedJournal_journaled _)
      permitted
  refine ⟨⟨_, _, runs bridgeRetired (by decide +kernel), fun disjoint => ?_⟩,
    ⟨_, _, runs acknowledgedMeanwhile (by decide +kernel), ⟨firstArenaPage, 2⟩, by decide +kernel,
      by decide +kernel, by decide +kernel⟩⟩
  have both : ∃ first second, [first, second] =
      (runJournal bridgeRetired (openedJournal, [])).1.owed ∧
      first.range.contains 0x6000002000 = true ∧ second.range.contains 0x6000002000 = true := by
    exact ⟨⟨firstThreePages, 4⟩, ⟨thirdArenaPage, 3⟩, by decide +kernel, by decide +kernel,
      by decide +kernel⟩
  rcases both with ⟨first, second, owed, inFirst, inSecond⟩
  rw [<- owed] at disjoint
  exact (List.pairwise_cons.mp disjoint).1 second List.mem_cons_self _ ⟨inFirst, inSecond⟩

end Reservation
end Carrick
