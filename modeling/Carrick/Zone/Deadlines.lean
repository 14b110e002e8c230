import Carrick.Zone.Timers

namespace Carrick
namespace Zone

open Foundation
open Function (update_of_ne update_self)

/-!
# A timed park keeps its ticket

No step but a publication makes a record parked, and a record that stays parked is
left as it was.  So a ticket that is not live stays so, and a thread that removes
such a ticket takes no deadline from anybody.
-/

/-! ## What stays parked is left alone -/

/-- A record that is parked afterwards was so before, and did not change. -/
def Leaves (zone later : Tables) : Prop :=
  ∀ record, (later.record record).claim.isParked = true ->
    later.record record = zone.record record

namespace Leaves

variable {zone middle later : Tables}

theorem refl : Leaves zone zone :=
  fun _ _ => rfl

theorem trans (first : Leaves zone middle) (second : Leaves middle later) : Leaves zone later := by
  intro record parked
  have same := second record parked
  rw [same] at parked ⊢
  exact first record parked

theorem of_records (same : later.record = zone.record) : Leaves zone later := by
  intro record _
  rw [same]

theorem of_others (record : Nat) (own : (later.record record).claim.isParked = false)
    (others : ∀ other, other ≠ record -> later.record other = zone.record other) :
    Leaves zone later := by
  intro other parked
  by_cases same : other = record
  · rw [same, own] at parked
    cases parked
  · exact others other same

theorem release {bucket id record : Nat} (own : (zone.record record).claim.isParked = false) :
    Leaves zone ((zone.unlink bucket id).dropEntry record id) := by
  refine of_others record ?_ ?_
  · rw [dropEntry_record_reads _ (fun value => value.claim.isParked) (fun _ _ _ => rfl),
      unlink_record]
    exact own
  · intro other apart
    rw [dropEntry_record_other _ apart, unlink_record]

theorem setRecord {record : Nat} {value : ZoneRecord} (own : value.claim.isParked = false) :
    Leaves zone (zone.setRecord record value) := by
  refine of_others record ?_ ?_
  · rw [setRecord_record, if_pos rfl]
    exact own
  · intro other apart
    rw [setRecord_record, if_neg apart]

theorem claimed {bucket id record : Nat} {value : ZoneRecord} (own : value.claim.isParked = false) :
    Leaves zone (((zone.setRecord record value).unlink bucket id).dropEntry record id) := by
  refine (setRecord own).trans (release ?_)
  rw [setRecord_record, if_pos rfl]
  exact own

theorem walk {visit : Tables -> Nat -> Option Tables}
    (visits : ∀ zone id later, visit zone id = some later -> Leaves zone later)
    (fuel cursor limit : Nat) (zone : Tables) :
    Leaves zone (Tables.walk visit fuel cursor limit zone).1 := by
  induction fuel generalizing cursor limit zone with
  | zero => exact refl
  | succ fuel ih =>
    cases limit with
    | zero => exact refl
    | succ limit =>
      by_cases done : cursor = 0
      · rw [done, walk_end]
        exact refl
      cases hit : visit zone cursor with
      | none =>
        rw [walk_pass done hit]
        exact ih _ _ _
      | some later =>
        rw [walk_hit done hit]
        exact (visits zone cursor later hit).trans (ih _ _ _)

theorem wake {bucket mm uaddr bitset fuel cursor limit : Nat}
    {claim : Tables -> Nat -> Nat -> Claim × Handback}
    (takes : ∀ zone record seq, (claim zone record seq).1.isParked = false) :
    Leaves zone (Tables.walk (Tables.wakeVisit bucket mm uaddr bitset claim) fuel cursor limit
      zone).1 := by
  refine walk ?_ fuel cursor limit zone
  intro zone id later visited
  unfold Tables.wakeVisit at visited
  cases found : zone.eligible mm uaddr bitset id with
  | none =>
    rw [found] at visited
    cases visited
  | some record =>
    rw [found] at visited
    cases visited
    exact claimed (takes zone record (zone.entry id).seq)

theorem requeue {source target mm origin destination fuel cursor limit : Nat} :
    Leaves zone (Tables.walk (Tables.requeueVisit source target mm origin destination) fuel cursor
      limit zone).1 := by
  refine walk ?_ fuel cursor limit zone
  intro zone id later visited
  unfold Tables.requeueVisit at visited
  cases found : zone.eligible mm origin 4294967295 id with
  | none =>
    rw [found] at visited
    cases visited
  | some record =>
    rw [found] at visited
    cases visited
    refine of_records ?_
    rw [linkTail_record]
    exact unlink_record zone

theorem unlinkAll {record fuel : Nat} (own : (zone.record record).claim.isParked = false) :
    Leaves zone (zone.unlinkAll record fuel) := by
  induction fuel generalizing zone with
  | zero => exact refl
  | succ fuel ih =>
    unfold Tables.unlinkAll
    dsimp only
    split_ifs
    · exact refl
    · refine (release own).trans (ih ?_)
      rw [dropEntry_record_reads _ (fun value => value.claim.isParked) (fun _ _ _ => rfl),
        unlink_record]
      exact own

theorem enqueue {bucket record seq mm uaddr bitset index : Nat}
    (own : (zone.record record).claim.isParked = false) :
    Leaves zone ((zone.enqueue bucket record seq mm uaddr bitset index).getD zone) := by
  unfold Tables.enqueue
  cases zone.allocEntry with
  | none => exact refl
  | some id =>
    rw [Option.getD_some]
    refine Leaves.trans ?_ (of_records (linkTail_record _))
    exact setRecord own

theorem withdraw {bucket record : Nat} (own : (zone.record record).claim.isParked = false) :
    Leaves zone (zone.withdrawGuestPark bucket record) := by
  unfold Tables.withdrawGuestPark
  dsimp only
  split_ifs
  · exact setRecord own
  refine (release own).trans (setRecord ?_)
  show ((Tables.dropEntry _ record _).record record).claim.isParked = false
  rw [dropEntry_record_reads _ (fun value => value.claim.isParked) (fun _ _ _ => rfl),
    unlink_record]
  exact own

end Leaves

theorem perform_leaves {zone : Tables} {operation : Operation}
    (permitted : Permitted zone operation = true) : Leaves zone (perform zone operation) := by
  cases operation with
  | enqueue record seq mm uaddr bitset index =>
    have own : (zone.record record).claim.isParked = false := by
      simp only [Permitted, Bool.and_eq_true, Bool.not_eq_true'] at permitted
      exact permitted.1
    unfold perform
    exact Leaves.enqueue own
  | publish record seq => cases permitted
  | publishGuest record seq => cases permitted
  | withdraw record => cases permitted
  | unlinkAll record =>
    have own : (zone.record record).claim.isParked = false := by
      simpa [Permitted] using permitted
    exact Leaves.unlinkAll own
  | wakeEl1 mm uaddr bitset count placement place =>
    rw [perform]
    cases woken : zone.wakeEl1 (bucketOf mm uaddr) mm uaddr bitset count placement place with
    | error refusal => exact Leaves.refl
    | ok result =>
      unfold Tables.wakeEl1 at woken
      cases planned : zone.plan mm uaddr bitset (placement zone) Tables.rounds
          (zone.bucket (bucketOf mm uaddr)).head count with
      | error refusal =>
        rw [planned] at woken
        cases woken
      | ok limit =>
        rw [planned] at woken
        cases woken
        exact Leaves.wake (fun _ _ _ => rfl)
  | wakeBatch mm uaddr bitset count batch => exact Leaves.wake (fun _ _ _ => rfl)
  | wakeHost mm uaddr bitset count place =>
    refine Leaves.wake ?_
    intro zone record seq
    dsimp only
    split_ifs
    · cases place zone record with
      | none => rfl
      | some slot => rfl
    · rfl
  | requeue mm origin destination count => exact Leaves.requeue
  | hold record claim =>
    have own : claim.isParked = false := by
      simpa [Permitted] using permitted
    exact Leaves.setRecord own

/-! ## The invariant -/

/-- Every park that was armed and not taken over has its ticket in the index; a ticket
that is about to be removed is not live; and a parked record has an entry. -/
structure Serves (state : Timed) : Prop where
  armed : ∀ record ticket, state.armed record = some ticket -> state.live ticket = true ->
    state.index record = some { ticket := ticket, active := true }
  removing : ∀ thread ticket, state.thread thread = .removing ticket ->
    state.live ticket = false
  entered : ∀ record, state.parked record = true -> (state.zone.record record).firstEntry ≠ 0
  named : ∀ record ticket, state.armed record = some ticket -> ticket.record = record
  keyed : ∀ record lease, state.index record = some lease -> lease.ticket.record = record

/-- What must hold before a step: a park does not take up the sequence number of a
ticket that is still being removed; `expire_timer` does not find the entry of a live
park in another bucket than it has locked; and `unhome` cancels no live ticket but the
one that it hands over. -/
def Meets (state : Timed) : Act -> Prop
  | .publish thread => ∀ record seq timer, state.thread thread = .publishing record seq timer ->
      ∀ other ticket, state.thread other = .removing ticket -> ticket.record = record ->
        ticket.seq ≠ seq
  | .publishGuest thread _ => ∀ record seq timer,
      state.thread thread = .publishing record seq timer ->
      ∀ other ticket, state.thread other = .removing ticket -> ticket.record = record ->
        ticket.seq ≠ seq
  | .settle thread _ => ∀ ticket entry bucket,
      state.thread thread = .located ticket entry bucket ->
      (state.zone.entry entry).bucket ≠ bucket -> state.live ticket = false
  | .unhome thread => ∀ record timer, state.thread thread = .unhoming record timer ->
      ∀ ticket, state.index record = some { ticket := ticket, active := true } ->
        state.live ticket = true -> timer = some ticket
  | _ => True

section Live

variable {state : Timed} {ticket : Ticket}

theorem live_iff : state.live ticket = true <->
    state.incarnation ticket.record = ticket.incarnation ∧
      (state.zone.record ticket.record).claim = .parked ticket.seq ∧
      (state.zone.record ticket.record).deadline ≠ 0 ∧
      (state.zone.record ticket.record).deadline = ticket.deadline := by
  unfold Timed.live
  exact decide_eq_true_iff

theorem live_parked (alive : state.live ticket = true) : state.parked ticket.record = true := by
  unfold Timed.parked
  rw [(live_iff.mp alive).2.1]
  rfl

theorem dead_of_not (not : ¬ state.live ticket = true) : state.live ticket = false := by
  simpa using not

theorem live_of_leaves {later : Timed} (leaves : Leaves state.zone later.zone)
    (same : later.incarnation = state.incarnation) (alive : later.live ticket = true) :
    state.live ticket = true := by
  have parked := live_parked alive
  rcases live_iff.mp alive with ⟨incarnation, claim, set, deadline⟩
  have unchanged := leaves ticket.record parked
  rw [unchanged] at claim set deadline
  rw [same] at incarnation
  exact live_iff.mpr ⟨incarnation, claim, set, deadline⟩

end Live

theorem setThread_zone {state : Timed} {thread : Nat} {stage : Stage} :
    (state.setThread thread stage).zone = state.zone :=
  rfl

theorem setThread_self {state : Timed} {thread : Nat} {stage : Stage} :
    (state.setThread thread stage).thread thread = stage :=
  update_self ..

theorem setThread_other {state : Timed} {thread other : Nat} {stage : Stage}
    (apart : other ≠ thread) : (state.setThread thread stage).thread other = state.thread other :=
  update_of_ne apart ..

theorem armed_cases {armed : Nat -> Option Ticket} {record other : Nat} {value : Option Ticket}
    {ticket : Ticket} (set : Function.update armed record value other = some ticket) :
    (other = record ∧ value = some ticket) ∨ (other ≠ record ∧ armed other = some ticket) := by
  by_cases same : other = record
  · rw [same, update_self] at set
    exact .inl ⟨same, set⟩
  · rw [update_of_ne same] at set
    exact .inr ⟨same, set⟩

namespace Serves

variable {state later : Timed} {thread record : Nat} {stage : Stage}

theorem carried (serves : Serves state) (leaves : Leaves state.zone later.zone)
    (incarnation : later.incarnation = state.incarnation) (armed : later.armed = state.armed)
    (index : later.index = state.index)
    (removing : ∀ thread ticket, later.thread thread = .removing ticket ->
      state.live ticket = false ∨ later.live ticket = false) : Serves later where
  armed := by
    intro record ticket isArmed alive
    rw [armed] at isArmed
    rw [index]
    exact serves.armed record ticket isArmed (live_of_leaves leaves incarnation alive)
  removing := by
    intro thread ticket removes
    rcases removing thread ticket removes with before | after
    · cases alive : later.live ticket with
      | false => rfl
      | true =>
        rw [live_of_leaves leaves incarnation alive] at before
        cases before
    · exact after
  entered := by
    intro record parked
    have same := leaves record parked
    unfold Timed.parked at parked
    rw [same] at parked ⊢
    exact serves.entered record parked
  named := by
    intro record ticket isArmed
    rw [armed] at isArmed
    exact serves.named record ticket isArmed
  keyed := by
    intro record lease held
    rw [index] at held
    exact serves.keyed record lease held

theorem zoned {zone : Tables} (serves : Serves state) (leaves : Leaves state.zone zone) :
    Serves { state with zone := zone } :=
  serves.carried leaves rfl rfl rfl
    (fun thread ticket removes => .inl (serves.removing thread ticket removes))

theorem staged (serves : Serves state)
    (removing : ∀ ticket, stage = .removing ticket -> state.live ticket = false) :
    Serves (state.setThread thread stage) := by
  refine serves.carried Leaves.refl rfl rfl rfl ?_
  intro other ticket removes
  refine .inl ?_
  by_cases same : other = thread
  · rw [same, setThread_self] at removes
    exact removing ticket removes
  · rw [setThread_other same] at removes
    exact serves.removing other ticket removes

theorem indexed {index : Index} (serves : Serves state)
    (kept : ∀ record ticket, state.armed record = some ticket -> state.live ticket = true ->
      state.index record = some { ticket := ticket, active := true } ->
      index record = some { ticket := ticket, active := true })
    (keyed : ∀ record lease, index record = some lease ->
      state.index record = some lease ∨ lease.ticket.record = record) :
    Serves { state with index := index } where
  armed := fun record ticket isArmed alive =>
    kept record ticket isArmed alive (serves.armed record ticket isArmed alive)
  removing := serves.removing
  entered := serves.entered
  named := serves.named
  keyed := fun record lease held =>
    (keyed record lease held).elim (serves.keyed record lease) (fun here => here)

theorem unleased {lease : Option Lease} (serves : Serves state)
    (idle : state.parked record = false)
    (own : ∀ held, lease = some held -> held.ticket.record = record) :
    Serves { state with index := Function.update state.index record lease } := by
  refine serves.indexed ?_ ?_
  · intro other ticket isArmed alive held
    have apart : other ≠ record := by
      intro same
      have parked := live_parked alive
      rw [serves.named other ticket isArmed, same, idle] at parked
      cases parked
    rw [update_of_ne apart]
    exact held
  · intro other held leased
    by_cases same : other = record
    · rw [same, update_self] at leased
      rw [same]
      exact .inr (own held leased)
    · rw [update_of_ne same] at leased
      exact .inl leased

theorem published {seq : Nat} {timer : Option Ticket} (serves : Serves state)
    (entry : (state.zone.record record).firstEntry ≠ 0)
    (fresh : ∀ other ticket, state.thread other = .removing ticket ->
      ticket.record = record -> ticket.seq ≠ seq) :
    Serves (state.published thread record seq timer) := by
  have own : (state.published thread record seq timer).zone.record record =
      { state.zone.record record with lastSeq := seq, handback := none, claim := .parked seq } :=
    (setRecord_record _ _).trans (if_pos rfl)
  have others : ∀ other, other ≠ record ->
      (state.published thread record seq timer).zone.record other = state.zone.record other :=
    fun other apart => (setRecord_record _ _).trans (if_neg apart)
  have liveElsewhere : ∀ ticket : Ticket, ticket.record ≠ record ->
      (state.published thread record seq timer).live ticket = state.live ticket := by
    intro ticket apart
    unfold Timed.live
    rw [others ticket.record apart]
    rfl
  constructor
  case armed =>
    intro other ticket isArmed alive
    rcases armed_cases isArmed with ⟨_, wrong⟩ | ⟨apart, before⟩
    · cases wrong
    rw [liveElsewhere ticket (by rw [serves.named other ticket before]; exact apart)] at alive
    exact serves.armed other ticket before alive
  case removing =>
    intro other ticket removes
    have before : state.thread other = .removing ticket := by
      by_cases same : other = thread
      · rw [same] at removes
        have next : Function.update state.thread thread _ thread = .removing ticket := removes
        rw [update_self] at next
        cases timer with
        | none => cases next
        | some armed => cases next
      · exact (update_of_ne same ..).symm.trans removes
    by_cases here : ticket.record = record
    · cases alive : (state.published thread record seq timer).live ticket with
      | false => rfl
      | true =>
        have claim := (live_iff.mp alive).2.1
        rw [here, own] at claim
        injection claim with same
        exact absurd same.symm (fresh other ticket before here)
    · rw [liveElsewhere ticket here]
      exact serves.removing other ticket before
  case entered =>
    intro other parked
    by_cases same : other = record
    · rw [same, own]
      exact entry
    · unfold Timed.parked at parked
      rw [others other same] at parked ⊢
      exact serves.entered other parked
  case named =>
    intro other ticket isArmed
    rcases armed_cases isArmed with ⟨_, wrong⟩ | ⟨_, before⟩
    · cases wrong
    · exact serves.named other ticket before
  case keyed => exact serves.keyed

theorem activated {ticket : Ticket} (serves : Serves state) :
    Serves { state with
      index := Function.update state.index ticket.record (some { ticket := ticket, active := true })
      armed := Function.update state.armed ticket.record (some ticket) } where
  armed := by
    intro record other isArmed alive
    rcases armed_cases isArmed with ⟨same, equal⟩ | ⟨apart, before⟩
    · injection equal with equal
      rw [same, <- equal]
      exact update_self ..
    · exact (update_of_ne apart ..).trans (serves.armed record other before alive)
  removing := serves.removing
  entered := serves.entered
  named := by
    intro record other isArmed
    rcases armed_cases isArmed with ⟨same, equal⟩ | ⟨_, before⟩
    · injection equal with equal
      rw [same, <- equal]
    · exact serves.named record other before
  keyed := by
    intro record lease held
    by_cases same : record = ticket.record
    · have equal : Function.update state.index ticket.record
          (some { ticket := ticket, active := true }) record = some lease := held
      rw [same, update_self] at equal
      cases equal
      exact same.symm
    · exact serves.keyed record lease ((update_of_ne same ..).symm.trans held)

theorem removed {ticket : Ticket} (serves : Serves state)
    (unserved : ∀ record, state.armed record = some ticket -> state.live ticket = false) :
    Serves { state with index := state.index.remove ticket } := by
  unfold Index.remove
  by_cases found : (state.index ticket.record).map Lease.ticket = some ticket
  · rw [if_pos found]
    refine serves.indexed ?_ ?_
    · intro record other isArmed alive held
      have elsewhere : record ≠ ticket.record := by
        intro same
        rw [<- same, held] at found
        injection found with equal
        change other = ticket at equal
        rw [equal] at isArmed alive
        rw [unserved record isArmed] at alive
        cases alive
      rw [update_of_ne elsewhere]
      exact held
    · intro record lease held
      by_cases same : record = ticket.record
      · rw [same, update_self] at held
        cases held
      · rw [update_of_ne same] at held
        exact .inl held
  · rw [if_neg found]
    exact serves

theorem handed (serves : Serves state) (record : Nat) :
    Serves { state with
      index := Function.update state.index record none
      armed := Function.update state.armed record none } where
  armed := by
    intro other ticket isArmed alive
    rcases armed_cases isArmed with ⟨_, wrong⟩ | ⟨apart, before⟩
    · cases wrong
    exact (update_of_ne apart ..).trans (serves.armed other ticket before alive)
  removing := serves.removing
  entered := serves.entered
  named := by
    intro other ticket isArmed
    rcases armed_cases isArmed with ⟨_, wrong⟩ | ⟨_, before⟩
    · cases wrong
    · exact serves.named other ticket before
  keyed := by
    intro other lease held
    by_cases same : other = record
    · have equal : Function.update state.index record none other = some lease := held
      rw [same, update_self] at equal
      cases equal
    · exact serves.keyed other lease ((update_of_ne same ..).symm.trans held)

theorem renewed {value : Nat} (serves : Serves state) (idle : state.parked record = false) :
    Serves { state with incarnation := Function.update state.incarnation record value } := by
  have liveBefore : ∀ ticket : Ticket,
      Timed.live { state with incarnation := Function.update state.incarnation record value } ticket =
        true -> state.live ticket = true := by
    intro ticket alive
    have parked := live_parked alive
    change state.parked ticket.record = true at parked
    have apart : ticket.record ≠ record := by
      intro same
      rw [same, idle] at parked
      cases parked
    rcases live_iff.mp alive with ⟨incarnation, rest⟩
    exact live_iff.mpr ⟨(update_of_ne apart ..).symm.trans incarnation, rest⟩
  constructor
  case armed =>
    intro other ticket isArmed alive
    exact serves.armed other ticket isArmed (liveBefore ticket alive)
  case removing =>
    intro thread ticket removes
    have dead := serves.removing thread ticket removes
    cases alive : Timed.live { state with
        incarnation := Function.update state.incarnation record value } ticket with
    | false => rfl
    | true =>
      rw [liveBefore ticket alive] at dead
      cases dead
  case entered => exact serves.entered
  case named => exact serves.named
  case keyed => exact serves.keyed

theorem not_located {ticket : Ticket} (serves : Serves state)
    (ended : state.incarnation ticket.record ≠ ticket.incarnation ∨
      (state.zone.record ticket.record).claim = .free ∨
      (state.zone.record ticket.record).firstEntry = 0) : state.live ticket = false := by
  refine dead_of_not ?_
  intro alive
  rcases ended with renewed | freed | empty
  · exact renewed (live_iff.mp alive).1
  · rw [(live_iff.mp alive).2.1] at freed
    cases freed
  · exact serves.entered ticket.record (live_parked alive) empty

theorem expired_dead {ticket : Ticket} {entry bucket result : Nat}
    (expired : later.zone =
      state.zone.expireEntry bucket entry ticket.record ticket.slot ticket.seq result) :
    later.live ticket = false := by
  cases alive : later.live ticket with
  | false => rfl
  | true =>
    have claim := (live_iff.mp alive).2.1
    rw [expired, Tables.expireEntry, dropEntry_record_reads _ ZoneRecord.claim (fun _ _ _ => rfl),
      unlink_record, setRecord_record, if_pos rfl] at claim
    cases claim

theorem settled {ticket : Ticket} {entry bucket result : Nat} (serves : Serves state) :
    Serves ({ state with
      zone := state.zone.expireEntry bucket entry ticket.record ticket.slot ticket.seq
        result }.setThread thread (.removing ticket)) := by
  have leaves : Leaves state.zone
      (state.zone.expireEntry bucket entry ticket.record ticket.slot ticket.seq result) :=
    Leaves.claimed rfl
  refine (serves.zoned leaves).staged ?_
  intro other same
  injection same with same
  rw [<- same]
  exact @expired_dead state _ ticket entry bucket result rfl

end Serves

theorem Serves.next {state later : Timed} {act : Act} (serves : Serves state)
    (meets : Meets state act) (taken : state.next act = some later) : Serves later := by
  cases act with
  | operate operation =>
    rw [Timed.next] at taken
    split_ifs at taken with permitted
    injection taken with taken
    rw [<- taken]
    exact serves.zoned (perform_leaves permitted)
  | setDeadline record deadline =>
    rw [Timed.next] at taken
    split_ifs at taken with parked
    injection taken with taken
    rw [<- taken]
    exact serves.zoned (Leaves.setRecord (by simpa [Timed.parked] using parked))
  | withdraw record =>
    rw [Timed.next] at taken
    split_ifs at taken with parked
    injection taken with taken
    rw [<- taken]
    exact serves.zoned (Leaves.withdraw (by simpa [Timed.parked] using parked))
  | cancel record =>
    rw [Timed.next] at taken
    split_ifs at taken with parked
    injection taken with taken
    rw [<- taken]
    exact serves.unleased (by simpa using parked) nofun
  | renew record =>
    rw [Timed.next] at taken
    split_ifs at taken with parked
    injection taken with taken
    rw [<- taken]
    exact serves.renewed (by simpa using parked)
  | reserve slot record seq =>
    rw [Timed.next] at taken
    split_ifs at taken with parked
    injection taken with taken
    rw [<- taken]
    refine serves.unleased (by simpa using parked) ?_
    intro held reserved
    cases reserved
    rfl
  | prepare thread record seq =>
    rw [Timed.next] at taken
    split_ifs at taken with idle
    all_goals
      injection taken with taken
      rw [<- taken]
      refine serves.staged ?_
      intro ticket wrong
      cases wrong
  | publish thread =>
    rw [Timed.next] at taken
    cases doing : state.thread thread with
    | publishing record seq timer =>
      rw [doing] at taken
      dsimp only at taken
      split_ifs at taken with refused
      injection taken with taken
      rw [<- taken]
      rw [not_or] at refused
      exact serves.published refused.2 (meets record seq timer doing)
    | _ =>
      rw [doing] at taken
      cases taken
  | publishGuest thread slot =>
    rw [Timed.next] at taken
    cases doing : state.thread thread with
    | publishing record seq timer =>
      rw [doing] at taken
      dsimp only at taken
      split_ifs at taken with refused
      rw [not_or] at refused
      have idle : state.parked record = false := by simpa using refused.1
      split at taken
      · injection taken with taken
        rw [<- taken]
        exact serves.published refused.2 (meets record seq timer doing)
      · injection taken with taken
        rw [<- taken]
        exact serves.published refused.2 (meets record seq timer doing)
      injection taken with taken
      rw [<- taken]
      have withdrawn := (@unleased state record none serves idle
        (fun _ wrong => by cases wrong)).zoned
        (@Leaves.withdraw state.zone (enrolledBucket state.zone record) record idle)
      refine withdrawn.staged ?_
      intro ticket wrong
      cases wrong
    | _ =>
      rw [doing] at taken
      cases taken
  | activate thread =>
    rw [Timed.next] at taken
    cases doing : state.thread thread with
    | activating ticket =>
      rw [doing] at taken
      injection taken with taken
      rw [<- taken]
      refine Serves.staged ?_ nofun
      unfold Index.activate
      by_cases reserved : state.index.reserved ticket = true
      · rw [if_pos reserved, if_pos reserved]
        exact serves.activated
      · rw [if_neg reserved, if_neg reserved]
        exact serves
    | _ =>
      rw [doing] at taken
      cases taken
  | prune thread record =>
    rw [Timed.next] at taken
    split at taken
    · split_ifs at taken with alive
      injection taken with taken
      rw [<- taken]
      refine serves.staged ?_
      intro other same
      injection same with same
      rw [<- same]
      simpa using alive
    · cases taken
  | peek thread record =>
    rw [Timed.next] at taken
    split at taken
    · split_ifs at taken with alive
      injection taken with taken
      rw [<- taken]
      exact serves.staged nofun
    · cases taken
  | giveUp thread =>
    rw [Timed.next] at taken
    split at taken
    · injection taken with taken
      rw [<- taken]
      exact serves.staged nofun
    · injection taken with taken
      rw [<- taken]
      exact serves.staged nofun
    · cases taken
  | locate thread =>
    rw [Timed.next] at taken
    split at taken
    · split_ifs at taken with ended
      · injection taken with taken
        rw [<- taken]
        refine serves.staged ?_
        intro other same
        injection same with same
        rw [<- same]
        exact serves.not_located ended
      · injection taken with taken
        rw [<- taken]
        exact serves.staged nofun
    · cases taken
  | settle thread result =>
    rw [Timed.next] at taken
    cases doing : state.thread thread with
    | located ticket entry bucket =>
      rw [doing] at taken
      dsimp only at taken
      split_ifs at taken with ended
      · injection taken with taken
        rw [<- taken]
        refine serves.staged ?_
        intro other same
        injection same with same
        rw [<- same]
        rcases ended with moved | renewed | claimed
        · exact meets ticket entry bucket doing moved
        · exact dead_of_not (fun alive => renewed (live_iff.mp alive).1)
        · exact dead_of_not (fun alive => claimed (live_iff.mp alive).2.1)
      · injection taken with taken
        rw [<- taken]
        exact serves.settled
    | _ =>
      rw [doing] at taken
      cases taken
  | remove thread =>
    rw [Timed.next] at taken
    cases doing : state.thread thread with
    | removing ticket =>
      rw [doing] at taken
      injection taken with taken
      rw [<- taken]
      refine (serves.removed (fun _ _ => serves.removing thread ticket doing)).staged ?_
      intro other wrong
      cases wrong
    | _ =>
      rw [doing] at taken
      cases taken
  | takeForeign record =>
    rw [Timed.next] at taken
    split at taken
    · rename_i ticket held
      injection taken with taken
      rw [<- taken]
      have here : ticket.record = record := serves.keyed record _ held
      by_cases given : state.live ticket = true ∧ state.armed record = some ticket
      · rw [if_pos given, Index.remove, here, held, Option.map_some, if_pos rfl]
        exact serves.handed record
      rw [if_neg given]
      refine serves.removed ?_
      intro other isArmed
      refine dead_of_not (fun alive => given ⟨alive, ?_⟩)
      rw [<- here, serves.named other ticket isArmed]
      exact isArmed
    · cases taken
  | readHome thread record =>
    rw [Timed.next] at taken
    split_ifs at taken with idle
    injection taken with taken
    rw [<- taken]
    exact serves.staged nofun
  | unhome thread =>
    rw [Timed.next] at taken
    cases doing : state.thread thread with
    | unhoming record timer =>
      rw [doing] at taken
      injection taken with taken
      rw [<- taken]
      refine Serves.staged ?_ nofun
      by_cases handed : state.armed record = timer
      · rw [if_pos handed]
        exact serves.handed record
      rw [if_neg handed]
      refine serves.indexed ?_ ?_
      · intro other ticket isArmed alive held
        have apart : other ≠ record := by
          intro same
          rw [same] at isArmed held
          rw [meets record timer doing ticket held alive] at handed
          exact handed isArmed
        exact (update_of_ne apart ..).trans held
      · intro other lease held
        by_cases same : other = record
        · rw [same, Index.cancelRecord, update_self] at held
          cases held
        · rw [Index.cancelRecord, update_of_ne same] at held
          exact .inl held
    | _ =>
      rw [doing] at taken
      cases taken

/-! ## Runs -/

/-- A zone without parks and without timers. -/
def Timed.initial : Timed where
  zone := empty
  incarnation := fun _ => 0
  index := fun _ => none
  thread := fun _ => .idle
  armed := fun _ => none

def Timed.Starts (state : Timed) : Prop :=
  state = Timed.initial

def Timed.Step (state : Timed) (act : Act) (later : Timed) : Prop :=
  state.next act = some later

/-- A step that meets its condition. -/
def Timed.Careful (state : Timed) (act : Act) (later : Timed) : Prop :=
  state.Step act later ∧ Meets state act

theorem initial_serves : Serves Timed.initial where
  armed := nofun
  removing := nofun
  entered := nofun
  named := nofun
  keyed := nofun

/-- A ticket that was activated for a park, and that no host took over, stays in the
index while the park lasts, and what a thread removes is the ticket of no live park. -/
def KeepsTickets (state : Timed) : Prop :=
  (∀ record ticket, state.armed record = some ticket -> state.live ticket = true ->
    state.index record = some { ticket := ticket, active := true }) ∧
  ∀ thread ticket, state.thread thread = .removing ticket -> state.live ticket = false

/-- In every run whose steps meet their condition, a live park keeps its ticket. -/
theorem parks_keep_tickets {history : List Act} {state : Timed}
    (run : Run Timed.Starts Timed.Careful history state) : KeepsTickets state := by
  have serves : Serves state := by
    refine run.state_invariant Serves ?_ ?_
    · intro start starts
      rw [starts]
      exact initial_serves
    · intro before act after serves taken
      exact serves.next taken.2 taken.1
  exact ⟨serves.armed, serves.removing⟩

/-! ## A timed park that a requeue moves -/

/-- The ticket of a first park of record 1 on slot 3, at time 9. -/
def firstTicket : Ticket :=
  ⟨3, 1, 0, 1, 9⟩

def deadlineSet : Timed :=
  { Timed.initial with zone := empty.setRecord 1 { empty.record 1 with deadline := 9 } }

def timerReserved : Timed :=
  { deadlineSet with index := deadlineSet.index.reserve 3 1 0 1 }

def entryQueued : Timed :=
  { timerReserved with zone := perform timerReserved.zone (.enqueue 1 1 7 64 1 0) }

def timerAdmitted : Timed :=
  entryQueued.setThread 0 (.publishing 1 1 (some firstTicket))

def parkPublished : Timed :=
  timerAdmitted.published 0 1 1 (some firstTicket)

def timerActive : Timed :=
  { parkPublished with
    index := parkPublished.index.activate firstTicket
    armed := if parkPublished.index.reserved firstTicket then
      Function.update parkPublished.armed 1 (some firstTicket) else parkPublished.armed }.setThread 0
    .idle

/-- Thread 1 has looked up the bucket of the park when a requeue moves it. -/
def ticketPeeked : Timed :=
  timerActive.setThread 1 (.expiring firstTicket)

def bucketRead : Timed :=
  ticketPeeked.setThread 1 (.located firstTicket 1 (bucketOf 7 64))

def entryMoved : Timed :=
  { bucketRead with zone := perform bucketRead.zone (.requeue 7 64 68 1) }

def parkPassed : Timed :=
  entryMoved.setThread 1 (.removing firstTicket)

def ticketRemoved : Timed :=
  { parkPassed with index := parkPassed.index.remove firstTicket }.setThread 1 .idle

/-- What the states of this park read as, while it is prepared, published and moved. -/
theorem requeuedPark_reads :
    entryQueued.zone.record 1 =
      { claim := .free, result := 0, handback := none, firstEntry := 1, entryCount := 1,
        lastSeq := 0, deadline := 9, objectOperation := false } ∧
    timerActive.zone.record 1 =
      { claim := .parked 1, result := 0, handback := none, firstEntry := 1, entryCount := 1,
        lastSeq := 1, deadline := 9, objectOperation := false } ∧
    timerActive.index 1 = some { ticket := firstTicket, active := true } ∧
    timerActive.live firstTicket = true ∧
    enrolledBucket timerActive.zone 1 = bucketOf 7 64 ∧
    (entryMoved.zone.entry 1).bucket ≠ bucketOf 7 64 ∧
    ticketRemoved.armed 1 = some firstTicket ∧
    ticketRemoved.live firstTicket = true ∧
    ticketRemoved.index 1 = none := by
  decide +kernel

theorem timerActive_run : Run Timed.Starts Timed.Careful
    [.activate 0, .publish 0, .prepare 0 1 1, .operate (.enqueue 1 1 7 64 1 0), .reserve 3 1 1,
      .setDeadline 1 9] timerActive := by
  have record := requeuedPark_reads.1
  have set : Timed.initial.next (.setDeadline 1 9) = some deadlineSet := by
    rw [Timed.next, if_neg (by decide)]
    rfl
  have reserved : deadlineSet.next (.reserve 3 1 1) = some timerReserved := by
    rw [Timed.next, if_neg (by decide)]
    rfl
  have queued : timerReserved.next (.operate (.enqueue 1 1 7 64 1 0)) = some entryQueued := by
    rw [Timed.next, if_pos (by decide)]
    rfl
  have admitted : entryQueued.next (.prepare 0 1 1) = some timerAdmitted := by
    rw [Timed.next, if_pos (show entryQueued.thread 0 = .idle from rfl), record]
    rfl
  have published : timerAdmitted.next (.publish 0) = some parkPublished := by
    have zone : timerAdmitted.zone = entryQueued.zone := by
      rw [timerAdmitted, setThread_zone]
    have stage : timerAdmitted.thread 0 = .publishing 1 1 (some firstTicket) := setThread_self
    have unparked : ¬ (timerAdmitted.parked 1 = true ∨
        (timerAdmitted.zone.record 1).firstEntry = 0) := by
      unfold Timed.parked
      rw [zone, record]
      decide
    rw [Timed.next, stage]
    exact if_neg unparked
  have activated : parkPublished.next (.activate 0) = some timerActive := rfl
  have fresh : Meets timerAdmitted (.publish 0) := by
    intro record seq timer _ other ticket removes _
    have stage : timerAdmitted.thread other = Function.update (fun _ => Stage.idle) 0
        (.publishing 1 1 (some firstTicket)) other := rfl
    rw [stage] at removes
    by_cases same : other = 0
    · rw [same, update_self] at removes
      cases removes
    · rw [update_of_ne same] at removes
      cases removes
  refine .next (.next (.next (.next (.next (.next (.initial rfl) ⟨set, trivial⟩)
    ⟨reserved, trivial⟩) ⟨queued, trivial⟩) ⟨admitted, trivial⟩) ⟨published, fresh⟩)
    ⟨activated, trivial⟩

theorem parks_keep_tickets_armed : Run Timed.Starts Timed.Careful
    [.activate 0, .publish 0, .prepare 0 1 1, .operate (.enqueue 1 1 7 64 1 0), .reserve 3 1 1,
      .setDeadline 1 9] timerActive ∧ timerActive.armed 1 = some firstTicket ∧
    timerActive.live firstTicket = true ∧ KeepsTickets timerActive :=
  ⟨timerActive_run, rfl, requeuedPark_reads.2.2.2.1, parks_keep_tickets timerActive_run⟩

/-- `expire_timer` takes the ticket of a park that a requeue has moved and that it does
not end. -/
theorem requeued_park_loses_ticket :
    ¬ ∀ history state, Run Timed.Starts Timed.Step history state -> KeepsTickets state := by
  intro always
  rcases requeuedPark_reads with ⟨_, record, index, _, bucket, elsewhere, isArmed, alive, gone⟩
  have armed := timerActive_run.weaken (fun _ _ _ taken => taken.1)
  have peeked : timerActive.next (.peek 1 1) = some ticketPeeked := by
    have idle : timerActive.thread 1 = .idle := rfl
    rw [Timed.next, idle, index]
    refine if_pos (live_iff.mpr ?_)
    have zone : timerActive.zone.record firstTicket.record = timerActive.zone.record 1 := rfl
    rw [zone, record]
    decide
  have located : ticketPeeked.next (.locate 1) = some bucketRead := by
    have stage : ticketPeeked.thread 1 = .expiring firstTicket := setThread_self
    have zone : ticketPeeked.zone = timerActive.zone := by
      rw [ticketPeeked, setThread_zone]
    have here : firstTicket.record = 1 := rfl
    have onward : ¬ (ticketPeeked.incarnation 1 ≠ firstTicket.incarnation ∨
        (timerActive.zone.record 1).claim = .free ∨ (timerActive.zone.record 1).firstEntry = 0) := by
      rw [record]
      decide
    rw [Timed.next, stage]
    dsimp only
    rw [here, zone, if_neg onward, bucket, record]
    rfl
  have moved : bucketRead.next (.operate (.requeue 7 64 68 1)) = some entryMoved := by
    have allowed : Permitted bucketRead.zone (.requeue 7 64 68 1) = true := rfl
    rw [Timed.next, if_pos allowed, entryMoved]
  have passed : entryMoved.next (.settle 1 0) = some parkPassed := by
    have stage : entryMoved.thread 1 = .located firstTicket 1 (bucketOf 7 64) := by
      rw [entryMoved, bucketRead]
      dsimp only
      rw [setThread_self]
    rw [Timed.next, stage]
    exact if_pos (.inl elsewhere)
  have removed : parkPassed.next (.remove 1) = some ticketRemoved := by
    have stage : parkPassed.thread 1 = .removing firstTicket := setThread_self
    rw [Timed.next, stage, ticketRemoved]
  have run := Run.next (Run.next (Run.next (Run.next (Run.next armed peeked) located) moved) passed)
    removed
  have kept := (always _ _ run).1 1 firstTicket
  rw [gone] at kept
  cases kept isArmed alive

end Zone
end Carrick
