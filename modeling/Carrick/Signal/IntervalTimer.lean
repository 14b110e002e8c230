import Carrick.Foundation.Stages
import Carrick.Foundation.Word
import Mathlib.Order.Bounds.Basic

namespace Carrick
namespace Signal

open Foundation

/-!
# The interval timer of a process

A timer hands out a ticket each time it is armed, and an expiry is accepted only
for the ticket that is armed at that moment.  A periodic expiry arms a successor
under the same sequence number, so a ticket is told from its successors by the
deadline and from the tickets of other arms by the sequence.  Clock values and
spans are nanoseconds, natural numbers that the code keeps below `wordLimit`.
-/

universe u

structure IntervalSpec where
  value : Nat
  interval : Nat
deriving Repr, DecidableEq

/-- The right to complete one expiry: its owner, the sequence number of the arm
and the deadline. -/
structure TimerTicket (K : Type u) where
  owner : K
  sequence : Nat
  deadline : Nat
deriving Repr, DecidableEq

structure TimerUpdate (K : Type u) where
  previous : IntervalSpec
  ticket : Option (TimerTicket K)
deriving Repr, DecidableEq

structure TimerExpiry (K : Type u) where
  owner : K
  next : Option (TimerTicket K)
deriving Repr, DecidableEq

inductive TimerError where
  | clockOverflow
  | sequenceExhausted
deriving Repr, DecidableEq

/-- One interval timer of one process owner. -/
structure IntervalTimer (K : Type u) where
  owner : K
  sequence : Nat
  armed : Option (TimerTicket K)
  interval : Nat
deriving Repr, DecidableEq

variable {K : Type u}

namespace IntervalTimer

def new (owner : K) : IntervalTimer K where
  owner := owner
  sequence := 0
  armed := none
  interval := 0

/-- What `getitimer` reads: the time left, stopping at zero, and the interval. -/
def remaining (timer : IntervalTimer K) (now : Nat) : IntervalSpec where
  value := timer.armed.elim 0 (fun ticket => ticket.deadline - now)
  interval := timer.interval

/-- The ticket of a new arm; a zero value disarms. -/
def ticketFor (timer : IntervalTimer K) (sequence now value : Nat) :
    Except TimerError (Option (TimerTicket K)) :=
  if value = 0 then .ok none
  else
    match checkedAdd now value with
    | none => .error .clockOverflow
    | some deadline => .ok (some { owner := timer.owner, sequence, deadline })

def set (timer : IntervalTimer K) (now : Nat) (spec : IntervalSpec) :
    Except TimerError (TimerUpdate K) × IntervalTimer K :=
  match checkedAdd timer.sequence 1 with
  | none => (.error .sequenceExhausted, timer)
  | some sequence =>
    match timer.ticketFor sequence now spec.value with
    | .error refusal => (.error refusal, timer)
    | .ok ticket =>
      (.ok { previous := timer.remaining now, ticket },
        { timer with sequence, interval := spec.interval, armed := ticket })

/-- Cancelling takes the armed ticket and leaves the sequence number alone. -/
def cancel (timer : IntervalTimer K) : Option (TimerTicket K) × IntervalTimer K :=
  (timer.armed, { timer with interval := 0, armed := none })

/-- The ticket that follows an accepted one.  The sum is formed in 128 bits, so
only the final narrowing can refuse. -/
def successor (timer : IntervalTimer K) (ticket : TimerTicket K) (now : Nat) :
    Except TimerError (Option (TimerTicket K)) :=
  if timer.interval = 0 then .ok none
  else
    let elapsed := now - ticket.deadline
    let advance := (elapsed / timer.interval + 1) * timer.interval
    match checkedAdd ticket.deadline advance with
    | none => .error .clockOverflow
    | some deadline => .ok (some { ticket with deadline })

def expire [DecidableEq K] (timer : IntervalTimer K) (ticket : TimerTicket K) (now : Nat) :
    Except TimerError (Option (TimerExpiry K)) × IntervalTimer K :=
  if timer.armed ≠ some ticket ∨ now < ticket.deadline then (.ok none, timer)
  else
    match timer.successor ticket now with
    | .error refusal => (.error refusal, timer)
    | .ok next => (.ok (some { owner := timer.owner, next }), { timer with armed := next })

/-! ## What one operation does -/

/-- The deadlines after `now` that keep the phase of `deadline`. -/
def PhaseAfter (deadline interval now : Nat) : Set Nat :=
  { later | now < later ∧ ∃ k, 1 <= k ∧ later = deadline + k * interval }

variable {timer : IntervalTimer K} {now : Nat} {ticket : TimerTicket K}

theorem ticketFor_sequence {sequence value : Nat}
    (issued : timer.ticketFor sequence now value = .ok (some ticket)) :
    ticket.sequence = sequence := by
  unfold ticketFor at issued
  split at issued
  · cases issued
  · split at issued
    · cases issued
    · cases issued
      rfl

/-- A set that succeeds moves to the next sequence number, and a ticket it issues
carries that number. -/
theorem set_updated {spec : IntervalSpec} {update : TimerUpdate K}
    (succeeds : (timer.set now spec).1 = .ok update) :
    (timer.set now spec).2.sequence = timer.sequence + 1 ∧
      (timer.set now spec).2.armed = update.ticket ∧
      ∀ ticket, update.ticket = some ticket -> ticket.sequence = timer.sequence + 1 := by
  unfold set at succeeds ⊢
  cases counted : checkedAdd timer.sequence 1 with
  | none =>
    rw [counted] at succeeds
    cases succeeds
  | some sequence =>
    have same := (checkedAdd_eq_some_iff.mp counted).1
    rw [counted] at succeeds
    cases made : timer.ticketFor sequence now spec.value with
    | error refusal =>
      simp only [made] at succeeds
      cases succeeds
    | ok ticket =>
      simp only [made] at succeeds ⊢
      cases succeeds
      refine ⟨same.symm, rfl, ?_⟩
      intro issued present
      cases present
      rw [ticketFor_sequence made, same]

theorem set_refused {spec : IntervalSpec} {refusal : TimerError}
    (refused : (timer.set now spec).1 = .error refusal) :
    (timer.set now spec).2 = timer := by
  unfold set at refused ⊢
  split
  · rfl
  rename_i counted
  simp only [counted] at refused
  split
  · rfl
  · rename_i made
    simp only [made] at refused
    cases refused

/-- The multiple that the code adds is the first one to pass the clock. -/
theorem phaseAfter_isLeast {deadline interval : Nat} (periodic : interval ≠ 0)
    (due : deadline <= now) :
    IsLeast (PhaseAfter deadline interval now)
      (deadline + ((now - deadline) / interval + 1) * interval) := by
  have positive : 0 < interval := Nat.pos_of_ne_zero periodic
  constructor
  · refine ⟨?_, (now - deadline) / interval + 1, Nat.succ_pos _, rfl⟩
    have passes := Nat.lt_mul_of_div_lt (Nat.lt_succ_self ((now - deadline) / interval)) positive
    rw [Nat.succ_eq_add_one] at passes
    rw [Nat.mul_comm]
    rw [Nat.mul_comm] at passes
    omega
  rintro later ⟨after, k, _, rfl⟩
  have reached : (now - deadline) / interval < k := by
    rw [Nat.div_lt_iff_lt_mul positive]
    omega
  have multiples := Nat.mul_le_mul_right interval (Nat.succ_le_of_lt reached)
  rw [Nat.succ_eq_add_one] at multiples
  omega

/-- A successor exists exactly for a periodic timer; it keeps the sequence and
has the first deadline of the phase that the clock has not reached. -/
theorem successor_spec {next : Option (TimerTicket K)} (due : ticket.deadline <= now)
    (made : timer.successor ticket now = .ok next) :
    (next = none <-> timer.interval = 0) ∧
      ∀ later, next = some later ->
        later.owner = ticket.owner ∧ later.sequence = ticket.sequence ∧
          IsLeast (PhaseAfter ticket.deadline timer.interval now) later.deadline := by
  unfold successor at made
  by_cases once : timer.interval = 0
  · rw [if_pos once] at made
    cases made
    refine ⟨iff_of_true rfl once, ?_⟩
    intro later present
    cases present
  rw [if_neg once] at made
  dsimp only at made
  split at made
  · cases made
  rename_i deadline summed
  cases made
  refine ⟨iff_of_false (Option.some_ne_none _) once, ?_⟩
  intro later present
  cases present
  refine ⟨rfl, rfl, ?_⟩
  have least := phaseAfter_isLeast once due
  rw [(checkedAdd_eq_some_iff.mp summed).1] at least
  exact least

variable [DecidableEq K]

theorem expire_refused {refusal : TimerError}
    (refused : (timer.expire ticket now).1 = .error refusal) :
    (timer.expire ticket now).2 = timer := by
  unfold expire at refused ⊢
  split
  · rfl
  rename_i current
  rw [if_neg current] at refused
  split
  · rfl
  · rename_i made
    simp only [made] at refused
    cases refused

theorem expire_passed (passed : (timer.expire ticket now).1 = .ok none) :
    (timer.expire ticket now).2 = timer := by
  unfold expire at passed ⊢
  split
  · rfl
  rename_i current
  rw [if_neg current] at passed
  split
  · rfl
  · rename_i made
    simp only [made] at passed
    cases passed

theorem expire_accepted {expiry : TimerExpiry K}
    (accepted : (timer.expire ticket now).1 = .ok (some expiry)) :
    timer.armed = some ticket ∧ ticket.deadline <= now ∧
      timer.successor ticket now = .ok expiry.next ∧
      (timer.expire ticket now).2 = { timer with armed := expiry.next } := by
  unfold expire at accepted ⊢
  by_cases stale : timer.armed ≠ some ticket ∨ now < ticket.deadline
  · rw [if_pos stale] at accepted
    cases accepted
  rw [if_neg stale] at accepted ⊢
  push Not at stale
  cases made : timer.successor ticket now with
  | error refusal =>
    simp only [made] at accepted
    cases accepted
  | ok next =>
    simp only [made] at accepted ⊢
    cases accepted
    exact ⟨stale.1, stale.2, rfl, rfl⟩

end IntervalTimer

/-! ## Runs of one timer -/

/-- One call on the timer, with any clock value and any ticket. -/
inductive TimerEvent (K : Type u) where
  | set (now : Nat) (spec : IntervalSpec)
  | cancel
  | expire (ticket : TimerTicket K) (now : Nat)

variable [DecidableEq K]

namespace TimerEvent

def run (timer : IntervalTimer K) : TimerEvent K -> IntervalTimer K
  | set now spec => (timer.set now spec).2
  | cancel => timer.cancel.2
  | expire ticket now => (timer.expire ticket now).2

/-- The call answers with an error. -/
def fails (timer : IntervalTimer K) : TimerEvent K -> Prop
  | set now spec => ∃ refusal, (timer.set now spec).1 = .error refusal
  | cancel => False
  | expire ticket now => ∃ refusal, (timer.expire ticket now).1 = .error refusal

/-- The call accepts the ticket as expired. -/
def accepts (timer : IntervalTimer K) (ticket : TimerTicket K) : TimerEvent K -> Prop
  | expire expired now => expired = ticket ∧
      ∃ expiry, (timer.expire expired now).1 = .ok (some expiry)
  | _ => False

/-- The call answers with the ticket as the one to schedule. -/
def issues (timer : IntervalTimer K) (ticket : TimerTicket K) : TimerEvent K -> Prop
  | set now spec => ∃ update, (timer.set now spec).1 = .ok update ∧ update.ticket = some ticket
  | cancel => False
  | expire expired now => ∃ expiry, (timer.expire expired now).1 = .ok (some expiry) ∧
      expiry.next = some ticket

/-- The call replaces the arm: a cancel, or a set that is not refused. -/
def supersedes (timer : IntervalTimer K) : TimerEvent K -> Prop
  | set now spec => ∃ update, (timer.set now spec).1 = .ok update
  | cancel => True
  | expire _ _ => False

end TimerEvent

/-- The timer of `owner` before the call at position `n`. -/
def timerAt (owner : K) (calls : List (TimerEvent K)) (n : Nat) : IntervalTimer K :=
  stage TimerEvent.run (IntervalTimer.new owner) calls n

/-- The call at position `n` is `event`, and `property` holds of it there. -/
def CalledAt (owner : K) (calls : List (TimerEvent K)) (n : Nat)
    (property : IntervalTimer K -> TimerEvent K -> Prop) : Prop :=
  ∃ event, calls[n]? = some event ∧ property (timerAt owner calls n) event

/-- The discipline of tickets for one run of calls on one timer: a ticket is
accepted once at most, when it is due and its arm is current. -/
structure TicketSafety (owner : K) (calls : List (TimerEvent K)) : Prop where
  /-- A ticket is accepted at most once. -/
  once : ∀ m n ticket, CalledAt owner calls m (fun timer => TimerEvent.accepts timer ticket) ->
    CalledAt owner calls n (fun timer => TimerEvent.accepts timer ticket) -> m = n
  /-- What is accepted was issued before. -/
  issued : ∀ n ticket, CalledAt owner calls n (fun timer => TimerEvent.accepts timer ticket) ->
    ∃ m, m < n ∧ CalledAt owner calls m (fun timer => TimerEvent.issues timer ticket)
  /-- A ticket is not accepted before its deadline. -/
  due : ∀ n ticket now expiry, calls[n]? = some (.expire ticket now) ->
    ((timerAt owner calls n).expire ticket now).1 = .ok (some expiry) -> ticket.deadline <= now
  /-- A ticket is not accepted once the arm that issued it has been replaced. -/
  current : ∀ m n ticket, CalledAt owner calls m (fun timer => TimerEvent.issues timer ticket) ->
    CalledAt owner calls n (fun timer => TimerEvent.accepts timer ticket) ->
    ∀ k, m < k -> k < n -> ¬ CalledAt owner calls k TimerEvent.supersedes
  /-- A periodic timer answers with a successor, at the first deadline of its
  phase that the clock has not reached, and a one-shot timer with none. -/
  phase : ∀ n ticket now expiry, calls[n]? = some (.expire ticket now) ->
    ((timerAt owner calls n).expire ticket now).1 = .ok (some expiry) ->
    ((timerAt owner calls n).interval = 0 -> expiry.next = none) ∧
      ((timerAt owner calls n).interval ≠ 0 -> ∃ later, expiry.next = some later ∧
        later.owner = ticket.owner ∧ later.sequence = ticket.sequence ∧
        IsLeast (IntervalTimer.PhaseAfter ticket.deadline (timerAt owner calls n).interval now)
          later.deadline)
  /-- A call that answers with an error leaves the timer as it was. -/
  refused : ∀ n, CalledAt owner calls n TimerEvent.fails ->
    timerAt owner calls (n + 1) = timerAt owner calls n

/-! ## What a run keeps -/

/-- The armed ticket carries the current sequence number. -/
def Sequenced (timer : IntervalTimer K) : Prop :=
  ∀ armed, timer.armed = some armed -> armed.sequence = timer.sequence

/-- A ticket that can never be armed again: its arm is over, or its deadline has
been left behind within the arm. -/
structure Spent (ticket : TimerTicket K) (timer : IntervalTimer K) : Prop where
  reached : ticket.sequence <= timer.sequence
  passed : ∀ armed, timer.armed = some armed ->
    ticket.sequence < armed.sequence ∨ ticket.deadline < armed.deadline

/-- How the armed ticket and the sequence number may move in one call. -/
inductive Moves (before after : IntervalTimer K) : Prop
  /-- Nothing moves. -/
  | stays (same : after = before)
  /-- The arm is replaced, by nothing or under the next sequence number. -/
  | rearms (reached : before.sequence <= after.sequence)
      (renewed : ∀ armed, after.armed = some armed ->
        armed.sequence = after.sequence ∧ before.sequence < armed.sequence)
  /-- The armed ticket is accepted and followed by a later one of its arm. -/
  | advances (ticket : TimerTicket K) (armed : before.armed = some ticket)
      (reached : after.sequence = before.sequence)
      (follows : ∀ later, after.armed = some later ->
        later.sequence = ticket.sequence ∧ ticket.deadline < later.deadline)

variable {timer : IntervalTimer K}

omit [DecidableEq K] in
theorem set_rearms {now : Nat} {spec : IntervalSpec} {update : TimerUpdate K}
    (succeeds : (timer.set now spec).1 = .ok update) :
    Moves timer (timer.set now spec).2 := by
  rcases IntervalTimer.set_updated succeeds with ⟨counted, armed, numbered⟩
  refine .rearms (by omega) ?_
  intro ticket present
  have sequence := numbered ticket (armed ▸ present)
  omega

omit [DecidableEq K] in
theorem cancel_rearms (timer : IntervalTimer K) : Moves timer timer.cancel.2 := by
  refine .rearms le_rfl ?_
  intro armed present
  cases present

variable {ticket : TimerTicket K}

theorem expire_advances {now : Nat} {expiry : TimerExpiry K}
    (accepted : (timer.expire ticket now).1 = .ok (some expiry)) :
    Moves timer (timer.expire ticket now).2 := by
  rcases IntervalTimer.expire_accepted accepted with ⟨armed, due, made, moved⟩
  rw [moved]
  refine .advances ticket armed rfl ?_
  intro later present
  rcases (IntervalTimer.successor_spec due made).2 later present with ⟨_, sequence, least⟩
  exact ⟨sequence, Nat.lt_of_le_of_lt due least.1.1⟩

theorem TimerEvent.run_moves (timer : IntervalTimer K) (event : TimerEvent K) :
    Moves timer (event.run timer) := by
  cases event with
  | set now spec =>
    cases answer : (timer.set now spec).1 with
    | error refusal => exact .stays (IntervalTimer.set_refused answer)
    | ok update => exact set_rearms answer
  | cancel => exact cancel_rearms timer
  | expire ticket now =>
    cases answer : (timer.expire ticket now).1 with
    | error refusal => exact .stays (IntervalTimer.expire_refused answer)
    | ok outcome =>
      cases outcome with
      | none => exact .stays (IntervalTimer.expire_passed answer)
      | some expiry => exact expire_advances answer

variable {before after : IntervalTimer K}

omit [DecidableEq K] in
theorem Sequenced.moves (held : Sequenced before) (moves : Moves before after) :
    Sequenced after := by
  intro armed present
  cases moves with
  | stays same =>
    rw [same] at present ⊢
    exact held armed present
  | rearms _ renewed => exact (renewed armed present).1
  | advances ticket current reached follows =>
    rw [(follows armed present).1, reached]
    exact held ticket current

omit [DecidableEq K] in
theorem Moves.sequence_le (moves : Moves before after) :
    before.sequence <= after.sequence := by
  cases moves with
  | stays same => rw [same]
  | rearms reached _ => exact reached
  | advances _ _ reached _ => rw [reached]

omit [DecidableEq K] in
theorem Spent.moves (spent : Spent ticket before) (moves : Moves before after) :
    Spent ticket after := by
  refine ⟨Nat.le_trans spent.reached moves.sequence_le, ?_⟩
  intro armed present
  cases moves with
  | stays same =>
    rw [same] at present
    exact spent.passed armed present
  | rearms _ renewed =>
    exact .inl (Nat.lt_of_le_of_lt spent.reached (renewed armed present).2)
  | advances accepted current _ follows =>
    rcases follows armed present with ⟨sequence, later⟩
    cases spent.passed accepted current with
    | inl older => exact .inl (sequence ▸ older)
    | inr behind => exact .inr (Nat.lt_trans behind later)

variable {event : TimerEvent K}

theorem accepts_armed (accepted : event.accepts timer ticket) : timer.armed = some ticket := by
  cases event with
  | expire expired now =>
    rcases accepted with ⟨rfl, expiry, answer⟩
    exact (IntervalTimer.expire_accepted answer).1
  | set now spec => cases accepted
  | cancel => cases accepted

theorem Spent.not_accepted (spent : Spent ticket timer) : ¬ event.accepts timer ticket := by
  intro accepted
  cases spent.passed ticket (accepts_armed accepted) with
  | inl older => exact Nat.lt_irrefl _ older
  | inr behind => exact Nat.lt_irrefl _ behind

theorem accepts_spends (sequenced : Sequenced timer) (accepted : event.accepts timer ticket) :
    Spent ticket (event.run timer) := by
  have armed := accepts_armed accepted
  have moves := event.run_moves timer
  refine ⟨Nat.le_trans (Nat.le_of_eq (sequenced ticket armed)) moves.sequence_le, ?_⟩
  intro later present
  cases event with
  | expire expired now =>
    rcases accepted with ⟨rfl, expiry, answer⟩
    rcases IntervalTimer.expire_accepted answer with ⟨_, due, made, moved⟩
    rw [TimerEvent.run, moved] at present
    rcases (IntervalTimer.successor_spec due made).2 later present with ⟨_, _, least⟩
    exact .inr (Nat.lt_of_le_of_lt due least.1.1)
  | set now spec => cases accepted
  | cancel => cases accepted

theorem supersedes_spends (issued : ticket.sequence <= timer.sequence)
    (superseded : event.supersedes timer) : Spent ticket (event.run timer) := by
  refine ⟨Nat.le_trans issued (event.run_moves timer).sequence_le, ?_⟩
  intro armed present
  cases event with
  | set now spec =>
    rcases superseded with ⟨update, answer⟩
    rcases IntervalTimer.set_updated answer with ⟨_, same, numbered⟩
    have sequence := numbered armed (same ▸ present)
    exact .inl (by omega)
  | cancel => cases present
  | expire expired now => cases superseded

theorem issues_armed :
    event.issues timer ticket -> (event.run timer).armed = some ticket := by
  intro issued
  cases event with
  | set now spec =>
    rcases issued with ⟨update, answer, present⟩
    exact (IntervalTimer.set_updated answer).2.1.trans present
  | cancel => cases issued
  | expire expired now =>
    rcases issued with ⟨expiry, answer, present⟩
    rw [TimerEvent.run, (IntervalTimer.expire_accepted answer).2.2.2]
    exact present

/-- A ticket that is armed after a call and was not before was issued by it. -/
theorem armed_issued (armed : (event.run timer).armed = some ticket) :
    timer.armed = some ticket ∨ event.issues timer ticket := by
  cases event with
  | set now spec =>
    cases answer : (timer.set now spec).1 with
    | error refusal =>
      rw [TimerEvent.run, IntervalTimer.set_refused answer] at armed
      exact .inl armed
    | ok update =>
      exact .inr ⟨update, answer, (IntervalTimer.set_updated answer).2.1.symm.trans armed⟩
  | cancel => cases armed
  | expire expired now =>
    cases answer : (timer.expire expired now).1 with
    | error refusal =>
      rw [TimerEvent.run, IntervalTimer.expire_refused answer] at armed
      exact .inl armed
    | ok outcome =>
      cases outcome with
      | none =>
        rw [TimerEvent.run, IntervalTimer.expire_passed answer] at armed
        exact .inl armed
      | some expiry =>
        rw [TimerEvent.run, (IntervalTimer.expire_accepted answer).2.2.2] at armed
        exact .inr ⟨expiry, answer, armed⟩

/-! ## The whole run -/

section Run

variable {owner : K} {calls : List (TimerEvent K)}

variable {n : Nat}

theorem timerAt_next {event : TimerEvent K} (called : calls[n]? = some event) :
    timerAt owner calls (n + 1) = event.run (timerAt owner calls n) :=
  stage_next called

theorem timerAt_sequenced (n : Nat) : Sequenced (timerAt owner calls n) := by
  refine stage_invariant Sequenced ?_ ?_ n
  · intro armed present
    cases present
  · intro timer event _ held
    exact held.moves (event.run_moves timer)

variable {m : Nat}

theorem timerAt_spent (later : m <= n) (spent : Spent ticket (timerAt owner calls m)) :
    Spent ticket (timerAt owner calls n) :=
  stage_keeps (Spent ticket) (fun timer event _ held => held.moves (event.run_moves timer))
    later spent

theorem timerAt_sequence_le (later : m <= n) :
    (timerAt owner calls m).sequence <= (timerAt owner calls n).sequence :=
  stage_keeps (fun timer : IntervalTimer K => (timerAt owner calls m).sequence <= timer.sequence)
    (fun timer event _ held => Nat.le_trans held (TimerEvent.run_moves timer event).sequence_le)
    later le_rfl

theorem not_accepted_twice (before : m < n)
    (first : CalledAt owner calls m (fun timer => TimerEvent.accepts timer ticket)) :
    ¬ CalledAt owner calls n (fun timer => TimerEvent.accepts timer ticket) := by
  rcases first with ⟨event, called, accepted⟩
  rintro ⟨again, _, repeated⟩
  have spent := accepts_spends (timerAt_sequenced m) accepted
  rw [<- timerAt_next called] at spent
  exact (timerAt_spent before spent).not_accepted repeated

theorem not_accepted_superseded {k : Nat} (after : m < k) (before : k < n)
    (issued : CalledAt owner calls m (fun timer => TimerEvent.issues timer ticket))
    (superseded : CalledAt owner calls k TimerEvent.supersedes) :
    ¬ CalledAt owner calls n (fun timer => TimerEvent.accepts timer ticket) := by
  rcases issued with ⟨issuing, issuedBy, issues⟩
  rcases superseded with ⟨replacing, called, replaces⟩
  rintro ⟨accepting, _, accepted⟩
  have armed := issues_armed issues
  rw [<- timerAt_next issuedBy] at armed
  have reached := (timerAt_sequenced (m + 1) ticket armed).le.trans (timerAt_sequence_le after)
  have spent := supersedes_spends reached replaces
  rw [<- timerAt_next called] at spent
  exact (timerAt_spent before spent).not_accepted accepted

theorem armed_was_issued (armed : (timerAt owner calls n).armed = some ticket) :
    ∃ m, m < n ∧ CalledAt owner calls m (fun timer => TimerEvent.issues timer ticket) := by
  induction n with
  | zero => cases armed
  | succ n ih =>
    have earlier (held : (timerAt owner calls n).armed = some ticket) :
        ∃ m, m < n + 1 ∧
          CalledAt owner calls m (fun timer => TimerEvent.issues timer ticket) := by
      rcases ih held with ⟨m, before, issued⟩
      exact ⟨m, Nat.lt_succ_of_lt before, issued⟩
    cases present : calls[n]? with
    | none =>
      have same : timerAt owner calls (n + 1) = timerAt owner calls n := stage_past present
      exact earlier (same ▸ armed)
    | some event =>
      rw [timerAt_next present] at armed
      cases armed_issued armed with
      | inl held => exact earlier held
      | inr issued => exact ⟨n, Nat.lt_succ_self n, event, present, issued⟩

end Run

/-- Every run of calls on a new timer, with any tickets and any clock values,
keeps the discipline of tickets. -/
theorem intervalTimer_ticketSafety (owner : K) (calls : List (TimerEvent K)) :
    TicketSafety owner calls where
  once := by
    intro m n ticket first second
    rcases Nat.lt_trichotomy m n with before | same | after
    · exact absurd second (not_accepted_twice before first)
    · exact same
    · exact absurd first (not_accepted_twice after second)
  issued := by
    rintro n ticket ⟨event, _, accepted⟩
    exact armed_was_issued (accepts_armed accepted)
  due := by
    intro n ticket now expiry _ accepted
    exact (IntervalTimer.expire_accepted accepted).2.1
  current := by
    intro m n ticket issued accepted k after before superseded
    exact not_accepted_superseded after before issued superseded accepted
  phase := by
    intro n ticket now expiry _ accepted
    rcases IntervalTimer.expire_accepted accepted with ⟨_, due, made, _⟩
    have spec := IntervalTimer.successor_spec due made
    refine ⟨spec.1.mpr, ?_⟩
    intro periodic
    cases successor : expiry.next with
    | none => exact absurd (spec.1.mp successor) periodic
    | some later => exact ⟨later, rfl, spec.2 later successor⟩
  refused := by
    rintro n ⟨event, called, fails⟩
    rw [timerAt_next called]
    cases event with
    | set now spec =>
      rcases fails with ⟨refusal, answer⟩
      exact IntervalTimer.set_refused answer
    | cancel => cases fails
    | expire ticket now =>
      rcases fails with ⟨refusal, answer⟩
      exact IntervalTimer.expire_refused answer

end Signal
end Carrick
