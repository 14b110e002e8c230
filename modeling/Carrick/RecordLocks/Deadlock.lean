import Carrick.RecordLocks.WaitGraph

namespace Carrick
namespace RecordLocks

open Foundation Relation

/-!
# What a deadlock answer means

A poll answers `EDEADLK` when published edges lead from the blocking owner back
to the requester.  A published edge says what its wait found at its last poll,
not what holds now: the lock it was blocked on may be gone, and its ends may be
open file descriptions.  Where every edge on the way back is one of two
processes and still true of the locks, the answer is a real cycle of waiting
processes.
-/

namespace LogicalRecordLocks

/-- A process with a pending request that a lock of another process blocks. -/
def BlockedOn (table : LogicalRecordLocks) (waiter holder : LogicalRecordLockOwner) : Prop :=
  waiter.isProcess = true ∧ holder.isProcess = true ∧
    ∃ wait ∈ table.waits, wait.request.owner = waiter ∧
      ∃ lock ∈ table.state.locks, lock.owner = holder ∧ lock.blocks wait.request = true

/-- A published entry that names two processes and is still true of the locks:
whichever pending request of its waiter it belongs to, its holder blocks it. -/
def Current (table : LogicalRecordLocks) (entry : RecordLockWaitId × WaitEdge) : Prop :=
  entry.2.1.isProcess = true ∧ entry.2.2.isProcess = true ∧
    ∀ wait ∈ table.waits, wait.id = entry.1 -> wait.request.owner = entry.2.1 ->
      ∃ lock ∈ table.state.locks, lock.owner = entry.2.2 ∧ lock.blocks wait.request = true

/-- Every published entry on a chain from the lock that blocks the request back
to its owner is current. -/
def CurrentChains (table : LogicalRecordLocks) (request : LogicalRecordLockRequest) : Prop :=
  ∀ blocker, conflictLocked table.state.locks request = some blocker ->
    ∀ entry ∈ table.state.waitingOn,
      ReflTransGen table.state.Published blocker.owner entry.2.1 ->
      ReflTransGen table.state.Published entry.2.2 request.owner -> table.Current entry

/-! ## Every published entry belongs to a pending request -/

/-- Each published entry's token and waiter are those of a pending request. -/
def Attributed (table : LogicalRecordLocks) : Prop :=
  ∀ entry ∈ table.state.waitingOn,
    ∃ wait ∈ table.waits, wait.id = entry.1 ∧ wait.request.owner = entry.2.1

variable {table : LogicalRecordLocks}

theorem Attributed.settle {after : LogicalRecordLocks} (attributed : table.Attributed)
    {wait : LogicalRecordLockWait}
    (kept : ∀ entry ∈ after.state.waitingOn,
      entry ∈ table.state.waitingOn ∧ entry.1 ≠ wait.id)
    (waits : after.waits = table.waits.erase wait) : after.Attributed := by
  intro entry listed
  rcases kept entry listed with ⟨old, other⟩
  rcases attributed entry old with ⟨pending, member, token, owner⟩
  refine ⟨pending, ?_, token, owner⟩
  rw [waits]
  refine (List.mem_erase_of_ne ?_).mpr member
  intro same
  exact other (token.symm.trans (congrArg LogicalRecordLockWait.id same))

theorem mem_retractWait {state : LogicalRecordLockState} {wait : RecordLockWaitId}
    {entry : RecordLockWaitId × WaitEdge} (listed : entry ∈ (state.retractWait wait).waitingOn) :
    entry ∈ state.waitingOn ∧ entry.1 ≠ wait := by
  have member := List.mem_filter.mp listed
  exact ⟨member.1, by simpa using member.2⟩

theorem attributed_poll (attributed : table.Attributed)
    {wait : LogicalRecordLockWait} (listed : wait ∈ table.waits) :
    (table.poll wait).1.Attributed := by
  have state := table.poll_state wait
  have waits := table.poll_waits wait
  rw [table.poll_answer wait] at waits
  rcases table.state.pollSetLocked_cases wait.request wait.id with
    ⟨_, outcome⟩ | ⟨blocker, _, ⟨_, _, _, outcome⟩ | ⟨_, outcome⟩⟩
  · rw [outcome] at state waits
    refine attributed.settle ?_ (by simpa using waits)
    intro entry member
    rw [state] at member
    exact mem_retractWait member
  · rw [outcome] at state waits
    refine attributed.settle ?_ (by simpa using waits)
    intro entry member
    rw [state] at member
    exact mem_retractWait member
  rw [outcome] at state waits
  intro entry member
  rw [state] at member
  have same : (table.poll wait).1.waits = table.waits := by simpa using waits
  rw [same]
  rcases List.mem_append.mp member with old | new
  · exact attributed entry (mem_retractWait old).1
  · rw [List.mem_singleton.mp new]
    exact ⟨wait, listed, rfl, rfl⟩

theorem attributed_step {before after : LogicalRecordLocks} {event : Event}
    (attributed : before.Attributed) (taken : before.Step event after) : after.Attributed := by
  cases event with
  | poll wait =>
    rcases step_poll taken with ⟨listed, same⟩
    subst same
    exact attributed_poll attributed listed
  | retract wait =>
    rcases step_retract taken with ⟨_, same⟩
    subst same
    exact attributed.settle (fun _ member => mem_retractWait member) rfl
  | mintWait request =>
    cases taken
    intro entry listed
    rcases attributed entry listed with ⟨pending, member, found⟩
    exact ⟨pending, List.mem_append_left _ member, found⟩
  | trySet request =>
    cases taken
    intro entry listed
    refine attributed entry ?_
    simp only [LogicalRecordLockState.trySet] at listed
    split at listed
    · exact listed
    · exact listed
  | tryFlock file owner write =>
    cases taken
    intro entry listed
    refine attributed entry ?_
    simp only [LogicalRecordLockState.tryFlock] at listed
    split_ifs at listed
    · exact listed
    · exact listed
  | _ =>
    cases taken
    exact attributed

theorem attributed_run {history : List Event}
    (run : Run (fun start => start = default) Step history table) : table.Attributed := by
  refine run.state_invariant Attributed ?_ ?_
  · intro start starts
    subst starts
    intro entry listed
    cases listed
  · intro before event after attributed taken
    exact attributed_step attributed taken

/-! ## Current chains are real cycles -/

theorem Current.blockedOn (attributed : table.Attributed)
    {entry : RecordLockWaitId × WaitEdge} (current : table.Current entry)
    (listed : entry ∈ table.state.waitingOn) : table.BlockedOn entry.2.1 entry.2.2 := by
  rcases attributed entry listed with ⟨wait, member, token, owner⟩
  exact ⟨current.1, current.2.1, wait, member, owner, current.2.2 wait member token owner⟩

/-- A chain of published edges to `last` whose entries are current, wherever
they lie between `first` and `last`, is a chain of blocked processes. -/
theorem blocked_chain (attributed : table.Attributed)
    {first last : LogicalRecordLockOwner}
    (current : ∀ entry ∈ table.state.waitingOn,
      ReflTransGen table.state.Published first entry.2.1 ->
      ReflTransGen table.state.Published entry.2.2 last -> table.Current entry)
    {owner : LogicalRecordLockOwner} (before : ReflTransGen table.state.Published first owner)
    (path : ReflTransGen table.state.Published owner last) :
    ReflTransGen table.BlockedOn owner last := by
  induction path using ReflTransGen.head_induction_on with
  | refl => exact .refl
  | head edge rest ih =>
    rcases List.mem_map.mp edge with ⟨entry, listed, same⟩
    have waiter := congrArg Prod.fst same
    have holder := congrArg Prod.snd same
    simp only at waiter holder
    have live := current entry listed (waiter ▸ before) (holder ▸ rest)
    have blocked := live.blockedOn attributed listed
    rw [waiter, holder] at blocked
    exact .head blocked (ih (before.tail edge))

/-- In every run, a poll answered `EDEADLK` reports a real cycle of waiting
processes through the requester, when the published entries on the chains from
the blocking owner back to it are current. -/
theorem edeadlk_reports_a_cycle {history : List Event} {table : LogicalRecordLocks}
    (run : Run (fun start => start = default) Step history table)
    (wait : LogicalRecordLockWait) (listed : wait ∈ table.waits)
    (current : table.CurrentChains wait.request)
    (refused : (table.poll wait).2 = .error .edeadlk) :
    TransGen table.BlockedOn wait.request.owner wait.request.owner := by
  have attributed := attributed_run run
  rw [poll_answer] at refused
  rcases table.state.pollSetLocked_cases wait.request wait.id with
    ⟨_, outcome⟩ | ⟨blocker, conflict, ⟨waiting, holding, found, outcome⟩ | ⟨_, outcome⟩⟩
  · rw [outcome] at refused
    cases refused
  · have path := (table.state.wouldDeadlock_iff wait.request.owner blocker.owner).mp found
    have chain := blocked_chain attributed (current blocker conflict) .refl path
    have blocking := conflictLocked_some conflict
    have first : table.BlockedOn wait.request.owner blocker.owner :=
      ⟨waiting, holding, wait, listed, rfl, blocker, blocking.1, rfl, blocking.2⟩
    exact TransGen.head' first chain
  · rw [outcome] at refused
    cases refused

/-- The second process is refused and the two do wait for each other. -/
theorem crossed_requests_are_a_cycle :
    (crossed.poll ⟨1, byteRequest 2 10⟩).2 = .error .edeadlk ∧
      TransGen crossed.BlockedOn (.process 2 1) (.process 2 1) := by
  have refused : (crossed.poll ⟨1, byteRequest 2 10⟩).2 = .error .edeadlk := by decide
  refine ⟨refused, ?_⟩
  refine edeadlk_reports_a_cycle run_crossed ⟨1, byteRequest 2 10⟩ (by decide) ?_ refused
  intro blocker _ entry listed _ _
  rw [List.mem_singleton.mp listed]
  refine ⟨rfl, rfl, ?_⟩
  intro wait member token _
  refine ⟨(byteRequest 2 0).lock, by decide, rfl, ?_⟩
  rcases List.mem_cons.mp member with same | later
  · rw [same]
    decide
  · rw [List.mem_singleton.mp later] at token
    cases token

/-- Unlocking its byte first does not help the second process: the first one's
entry is still published, and the request is refused although nobody waits for
a lock of the second process any more. -/
theorem stale_edge_refuses_without_a_cycle :
    ¬ ∀ (history : List Event) (table : LogicalRecordLocks),
      Run (fun start => start = default) Step history table ->
      ∀ wait ∈ table.waits, (table.poll wait).2 = .error .edeadlk ->
        TransGen table.BlockedOn wait.request.owner wait.request.owner := by
  intro sound
  have run := Run.next run_crossed
    (rfl : crossed.Step (.unlock (.path "data") (.process 2 1) ⟨0, 1⟩) _)
  have cycle := sound _ _ run ⟨1, byteRequest 2 10⟩ (by decide) (by decide)
  rcases TransGen.tail'_iff.mp cycle with ⟨waiter, _, _, _, wait, _, _, lock, held, owner, _⟩
  have left : (crossed.state.unlock (.path "data") (.process 2 1) ⟨0, 1⟩).locks =
      [(byteRequest 1 10).lock] := by decide
  rw [left] at held
  rw [List.mem_singleton.mp held] at owner
  cases owner

end LogicalRecordLocks

end RecordLocks
end Carrick
