import Carrick.PipeCore.Wake

namespace Carrick
namespace PipeCore

open Foundation

/-!
# The revision and the refusals

A view that binds a revision advances it once in each operation that changes
what a waiter can observe: the unread count, the pages in use, the capacity, or
whether an end is closed.  The advance is refused before any effect when the
word is exhausted, so the revision never wraps.  An operation that answers an
error leaves the record, the page metadata, the queue and the revision alone;
a fill callback that faulted may have scribbled over bytes that no page holds.
-/

/-- The error that an operation answers. -/
def Pipe.failure (pipe : Pipe) : Operation -> Option Error
  | .writeWith len fill => errorOf (pipe.writeWith len fill).step.result
  | .readWith max copy => errorOf (pipe.readWith max copy).step.result
  | .peekWith max copy => errorOf (pipe.peekWith max copy).step.result
  | .consume count => errorOf (pipe.consume count).step.result
  | .setCapacity requested growthLimit =>
    errorOf (pipe.setCapacity requested growthLimit).1.result
  | .replaceStorage bytes slots => errorOf (pipe.replaceStorage bytes slots)
  | .retain endpoint => errorOf (pipe.retain endpoint).1
  | .release endpoint => errorOf (pipe.release endpoint).1.result
where
  errorOf {T : Type} : Except Error T -> Option Error
    | .ok _ => none
    | .error error => some error

/-- What waiters can observe is the same: the bytes to read, the room to write
and whether an end is closed. -/
structure SameReadiness (before after : Pipe) : Prop where
  unread : after.state.unread = before.state.unread
  used : after.state.used = before.state.used
  capacity : after.state.capacity = before.state.capacity
  closed : ∀ endpoint, after.state.references endpoint = 0 <->
    before.state.references endpoint = 0

/-- Nothing that a refusal promises to keep has changed. -/
structure Untouched (before after : Pipe) : Prop where
  state : after.state = before.state
  slots : after.slots = before.slots
  content : after.content = before.content
  revision : after.revision = before.revision

/-- The operation left the revision and the readiness alone, or advanced a
revision that was not exhausted. -/
def Advances (before after : Pipe) : Prop :=
  (after.revision = before.revision ∧ SameReadiness before after) ∨
    (before.revisionAvailable = true ∧ after.revision = before.revision.map (· + 1))

/-- What an operation that answers this result does to the pipe. -/
structure Accountable {T : Type} (before : Pipe) (result : Except Error T) (after : Pipe) : Prop where
  advances : Advances before after
  refuses : ∀ error, result = .error error -> Untouched before after

section Operations

variable {pipe : Pipe}

theorem Untouched.refl (pipe : Pipe) : Untouched pipe pipe :=
  ⟨rfl, rfl, rfl, rfl⟩

theorem Untouched.advances {before after : Pipe} (untouched : Untouched before after) :
    Advances before after := by
  refine .inl ⟨untouched.revision, ?_, ?_, ?_, ?_⟩
  · rw [untouched.state]
  · rw [untouched.state]
  · rw [untouched.state]
  · intro endpoint
    rw [untouched.state]

theorem Accountable.refl {T : Type} (pipe : Pipe) (result : Except Error T) :
    Accountable pipe result pipe :=
  ⟨(Untouched.refl pipe).advances, fun _ _ => Untouched.refl pipe⟩

theorem Accountable.advanced {T : Type} {after : Pipe} (value : T)
    (available : pipe.revisionAvailable = true) (same : after.revision = pipe.revision) :
    Accountable pipe (.ok value : Except Error T) after.advanceRevision := by
  refine ⟨.inr ⟨available, ?_⟩, nofun⟩
  show after.revision.map (· + 1) = _
  rw [same]

/-! ## Writing -/

theorem writeLoop_idle (fill : FillCallback) (len turns : Nat) (state : WriteState)
    (idle : (writeLoop pipe fill len turns state).done = 0) :
    (writeLoop pipe fill len turns state).slots = state.slots ∧
      (writeLoop pipe fill len turns state).used = state.used := by
  cases turns with
  | zero => exact ⟨rfl, rfl⟩
  | succ turns =>
    unfold writeLoop at idle ⊢
    split at idle
    · rename_i more
      rw [if_pos more]
      dsimp only at idle ⊢
      split at idle
      · rename_i nothing
        rw [if_pos nothing]
        exact ⟨rfl, rfl⟩
      · rename_i something
        have kept := (writeLoop_done_le pipe fill len turns _).1.trans_eq idle
        dsimp only at kept
        omega
    · rename_i finished
      rw [if_neg finished]
      exact ⟨rfl, rfl⟩

theorem set_getD_self (slots : List Page) (index : Nat) :
    slots.set index (slots.getD index default) = slots := by
  by_cases inside : index < slots.length
  · rw [List.getD_eq_getElem?_getD, List.getElem?_eq_getElem inside, Option.getD_some,
      List.set_getElem_self]
  · exact List.set_eq_of_length_le (Nat.le_of_not_lt inside)

theorem mergeTail_idle (fill : FillCallback) (len : Nat)
    (idle : (mergeTail pipe fill len).done = 0) :
    (mergeTail pipe fill len).slots = pipe.slots ∧
      (mergeTail pipe fill len).used = pipe.state.used := by
  unfold mergeTail at idle ⊢
  dsimp only at idle ⊢
  split at idle
  · rename_i uneven
    rw [if_pos uneven]
    split at idle
    · rename_i fits
      rw [if_pos fits]
      dsimp only at idle ⊢
      refine ⟨?_, rfl⟩
      rw [idle, Nat.add_zero]
      exact set_getD_self _ _
    · rename_i apart
      rw [if_neg apart]
      exact ⟨rfl, rfl⟩
  · rename_i even
    rw [if_neg even]
    exact ⟨rfl, rfl⟩

theorem writeWith_accountable (wellFormed : WellFormed pipe) (len : Nat) (fill : FillCallback) :
    Accountable pipe (pipe.writeWith len fill).step.result (pipe.writeWith len fill).pipe := by
  rcases writeWith_spec wellFormed len fill with ⟨_, content, _, answers⟩
  unfold Pipe.writeWith at content answers ⊢
  split
  · exact Accountable.refl pipe _
  rename_i nonempty
  rw [if_neg nonempty] at content answers
  split
  · exact Accountable.refl pipe _
  rename_i readers
  rw [if_neg readers] at content answers
  split
  · exact Accountable.refl pipe _
  rename_i backed
  rw [if_neg backed] at content answers
  split
  · exact Accountable.refl pipe _
  rename_i available
  rw [if_neg available] at content answers
  have available : pipe.revisionAvailable = true := by simpa using available
  have merged : (writeLoop pipe fill len pipe.state.capacityPages
      (mergeTail pipe fill len)).done = 0 -> (mergeTail pipe fill len).done = 0 := by
    intro idle
    have kept := (writeLoop_done_le pipe fill len pipe.state.capacityPages
      (mergeTail pipe fill len)).1
    omega
  have untouched : (writeLoop pipe fill len pipe.state.capacityPages
      (mergeTail pipe fill len)).done = 0 ->
      (writeLoop pipe fill len pipe.state.capacityPages
        (mergeTail pipe fill len)).slots = pipe.slots ∧
      (writeLoop pipe fill len pipe.state.capacityPages
        (mergeTail pipe fill len)).used = pipe.state.used := by
    intro idle
    rcases writeLoop_idle fill len _ _ idle with ⟨slots, used⟩
    rcases mergeTail_idle fill len (merged idle) with ⟨before, count⟩
    exact ⟨slots.trans before, used.trans count⟩
  dsimp only at content answers ⊢
  generalize writeLoop pipe fill len pipe.state.capacityPages
    (mergeTail pipe fill len) = after at *
  split
  · exact Accountable.advanced _ available rfl
  rename_i idle
  have idle : after.done = 0 := not_not.mp idle
  rcases untouched idle with ⟨slots, used⟩
  rw [if_neg (not_not.mpr idle)] at content answers
  have failed : ∀ error, Pipe.content { pipe with
      bytes := after.bytes
      slots := after.slots
      state := { pipe.state with
        used := after.used
        unread := pipe.state.unread + after.done } } = pipe.content ->
      Accountable pipe (.error error : Except Error Nat) { pipe with
        bytes := after.bytes
        slots := after.slots
        state := { pipe.state with
          used := after.used
          unread := pipe.state.unread + after.done } } := by
    intro error same
    have kept : Untouched pipe { pipe with
        bytes := after.bytes
        slots := after.slots
        state := { pipe.state with
          used := after.used
          unread := pipe.state.unread + after.done } } := by
      refine ⟨?_, slots, same, rfl⟩
      dsimp only
      rw [used, idle, Nat.add_zero]
    exact ⟨kept.advances, fun _ _ => kept⟩
  split
  · rename_i faulted
    rw [if_pos faulted] at content answers
    refine failed _ ?_
    rw [answers.1, List.append_nil] at content
    exact content
  rename_i full
  rw [if_neg full] at content answers
  refine failed _ ?_
  rw [answers.1, List.append_nil] at content
  exact content

/-! ## Reading -/

theorem readAction_accountable (wellFormed : WellFormed pipe) (max : Nat) (copy : CopyCallback)
    (action : ReadAction) :
    Accountable pipe (pipe.readAction max copy action).step.result
      (pipe.readAction max copy action).pipe := by
  have answer := readAction_spec wellFormed max copy action
  have still : (pipe.readAction max copy action).step.wake.writers = false ->
      Accountable pipe (pipe.readAction max copy action).step.result
        (pipe.readAction max copy action).pipe := by
    intro silent
    rw [answer.quiet (.inl silent)]
    exact Accountable.refl pipe _
  unfold Pipe.readAction at still ⊢
  split
  · exact Accountable.refl pipe _
  rename_i positive
  rw [if_neg positive] at still
  split
  · exact Accountable.refl pipe _
  rename_i nonempty
  rw [if_neg nonempty] at still
  split
  · exact Accountable.refl pipe _
  rename_i available
  rw [if_neg available] at still
  dsimp only at still ⊢
  split
  · rename_i error failed
    rw [failed] at still
    exact still rfl
  rename_i finished
  rw [finished] at still
  dsimp only at still
  split
  · rename_i idle
    rw [if_pos idle] at still
    exact still rfl
  rename_i moved
  rw [if_neg moved] at still
  by_cases peeking : action = .peek
  · refine still ?_
    show decide (action ≠ .peek) = false
    rw [peeking]
    rfl
  have available : pipe.revisionAvailable = true := by
    by_contra exhausted
    exact available ⟨peeking, by simpa using exhausted⟩
  simp only [if_neg peeking]
  exact Accountable.advanced _ available rfl

theorem consume_accountable (wellFormed : WellFormed pipe) (count : Nat) :
    Accountable pipe (pipe.consume count).step.result (pipe.consume count).pipe := by
  unfold Pipe.consume
  split
  · exact Accountable.refl pipe _
  · exact readAction_accountable wellFormed count takeWhole .consume

/-! ## The record alone -/

theorem setCapacity_accountable (requested growthLimit : Nat) :
    Accountable pipe (pipe.setCapacity requested growthLimit).1.result
      (pipe.setCapacity requested growthLimit).2 := by
  unfold Pipe.setCapacity
  cases roundedCapacity pipe.state.pageSize requested with
  | error error => exact Accountable.refl pipe _
  | ok capacity =>
    dsimp only
    split
    · exact Accountable.refl pipe _
    split
    · exact Accountable.refl pipe _
    split
    · split
      · exact Accountable.refl pipe _
      · split
        · exact Accountable.refl pipe _
        · rename_i available
          exact Accountable.advanced _ (by simpa using available) rfl
    split
    · exact Accountable.refl pipe _
    split
    · exact Accountable.refl pipe _
    · split
      · exact Accountable.refl pipe _
      · rename_i available
        exact Accountable.advanced _ (by simpa using available) rfl

theorem references_setReferences (record : PipeRecord) (count : Nat) (endpoint other : End) :
    (record.setReferences count endpoint).references other =
      if other = endpoint then count else record.references other := by
  cases endpoint with
  | reader =>
    cases other with
    | reader => rfl
    | writer => rfl
  | writer =>
    cases other with
    | reader => rfl
    | writer => rfl

theorem setReferences_readiness (endpoint : End) {count : Nat}
    (before : pipe.state.references endpoint ≠ 0) (after : count ≠ 0) :
    SameReadiness pipe { pipe with state := pipe.state.setReferences count endpoint } := by
  have closed : ∀ other, (pipe.state.setReferences count endpoint).references other = 0 <->
      pipe.state.references other = 0 := by
    intro other
    rw [references_setReferences]
    split_ifs with same
    · rw [same]
      exact ⟨fun wrong => absurd wrong after, fun wrong => absurd wrong before⟩
    · exact Iff.rfl
  cases endpoint with
  | reader => exact ⟨rfl, rfl, rfl, closed⟩
  | writer => exact ⟨rfl, rfl, rfl, closed⟩

theorem retain_accountable (endpoint : End) :
    Accountable pipe (pipe.retain endpoint).1 (pipe.retain endpoint).2 := by
  unfold Pipe.retain
  split
  · exact Accountable.refl pipe _
  rename_i live
  split
  · exact Accountable.refl pipe _
  rename_i count counted
  refine ⟨.inl ⟨rfl, setReferences_readiness endpoint live ?_⟩, nofun⟩
  unfold checkedAdd at counted
  split_ifs at counted
  cases counted
  omega

theorem release_accountable (endpoint : End) :
    Accountable pipe (pipe.release endpoint).1.result (pipe.release endpoint).2 := by
  unfold Pipe.release
  split
  · exact Accountable.refl pipe _
  rename_i refused
  split
  · exact Accountable.refl pipe _
  rename_i live
  dsimp only
  split
  · rename_i final
    have last : pipe.state.references endpoint - 1 = 0 := of_decide_eq_true final
    have available : pipe.revisionAvailable = true := by
      by_contra exhausted
      exact refused ⟨by omega, by simpa using exhausted⟩
    exact Accountable.advanced _ available rfl
  · rename_i more
    have left : pipe.state.references endpoint - 1 ≠ 0 := by simpa using more
    exact ⟨.inl ⟨rfl, setReferences_readiness endpoint live left⟩,
      nofun⟩

end Operations

/-! ## Over a run -/

section Runs

variable {pipe : Pipe}

theorem apply_accountable (wellFormed : WellFormed pipe) (operation : Operation) :
    Advances pipe (pipe.apply operation).2 ∧
      ∀ error, pipe.failure operation = some error -> Untouched pipe (pipe.apply operation).2 := by
  have told : ∀ {T : Type} {result : Except Error T} {after : Pipe},
      Accountable pipe result after -> Advances pipe after ∧
        ∀ error, Pipe.failure.errorOf result = some error -> Untouched pipe after := by
    intro T result after accountable
    refine ⟨accountable.advances, ?_⟩
    intro error failed
    cases result with
    | ok value => cases failed
    | error other => exact accountable.refuses other rfl
  cases operation with
  | writeWith len fill => exact told (writeWith_accountable wellFormed len fill)
  | readWith max copy => exact told (readAction_accountable wellFormed max copy .copyAndConsume)
  | peekWith max copy => exact told (readAction_accountable wellFormed max copy .peek)
  | consume count => exact told (consume_accountable wellFormed count)
  | setCapacity requested growthLimit =>
    exact told (setCapacity_accountable requested growthLimit)
  | replaceStorage bytes slots =>
    have replaced := replaceStorage_spec wellFormed bytes slots
    cases answer : pipe.replaceStorage bytes slots with
    | ok moved =>
      have passed : pipe.failure (.replaceStorage bytes slots) = none := by
        show Pipe.failure.errorOf (pipe.replaceStorage bytes slots) = none
        rw [answer]
        rfl
      rw [answer] at replaced
      rw [apply_replaceStorage_ok answer, passed]
      rcases replaced with ⟨_, _, state, revision, _⟩
      refine ⟨.inl ⟨revision, ?_, ?_, ?_, ?_⟩, nofun⟩
      · rw [state]
      · rw [state]
      · rw [state]
        rfl
      intro endpoint
      rw [state]
      cases endpoint with
      | reader => exact Iff.rfl
      | writer => exact Iff.rfl
    | error error =>
      rw [apply_replaceStorage_error answer]
      exact ⟨(Untouched.refl pipe).advances, fun _ _ => Untouched.refl pipe⟩
  | retain endpoint => exact told (retain_accountable endpoint)
  | release endpoint => exact told (release_accountable endpoint)

def RevisionBound (pipe : Pipe) : Prop :=
  ∀ revision, pipe.revision = some revision -> revision < wordLimit

theorem Advances.bound {before after : Pipe} (advances : Advances before after)
    (bound : RevisionBound before) : RevisionBound after := by
  intro revision present
  rcases advances with ⟨same, _⟩ | ⟨available, advanced⟩
  · rw [same] at present
    exact bound revision present
  rw [advanced] at present
  rcases Option.map_eq_some_iff.mp present with ⟨earlier, there, next⟩
  have below := bound earlier there
  unfold Pipe.revisionAvailable at available
  rw [there] at available
  have spare : earlier ≠ wordLimit - 1 := of_decide_eq_true available
  omega

theorem run_revisionBound {history : List Operation} (run : Run starts step history pipe) :
    RevisionBound pipe := by
  refine run.invariant (fun _ pipe => RevisionBound pipe) ?_ ?_
  · rintro fresh ⟨initial, _⟩ revision present
    rcases initial with unbound | zero
    · rw [unbound] at present
      cases present
    · rw [zero] at present
      cases present
      decide
  · intro history before operation after earlier bound taken
    rw [show after = _ from taken]
    exact (apply_accountable (run_wellFormed earlier) operation).1.bound bound

end Runs

/-- What the operations of a pipe owe to a waiter that read the revision: it
grows whenever readiness changes, and a refusal leaves the pipe as it was. -/
structure KeepsRevision (pipe : Pipe) (revision : Nat) (operation : Operation) : Prop where
  monotone : ∃ later, (pipe.apply operation).2.revision = some later ∧ revision <= later ∧
    later < wordLimit ∧ (SameReadiness pipe (pipe.apply operation).2 ∨ revision < later)
  refused : ∀ error, pipe.failure operation = some error ->
    Untouched pipe (pipe.apply operation).2

/-- On every reachable pipe with a bound revision, an operation never lowers the
revision and raises it when it changes the readiness, and one that fails leaves
everything as it was. -/
theorem reachable_pipe_keeps_revision {history : List Operation} {pipe : Pipe}
    (run : Run starts step history pipe) {revision : Nat} (bound : pipe.revision = some revision)
    (operation : Operation) : KeepsRevision pipe revision operation := by
  rcases apply_accountable (run_wellFormed run) operation with ⟨advances, refused⟩
  have word := advances.bound (run_revisionBound run)
  refine ⟨?_, refused⟩
  rcases advances with ⟨same, still⟩ | ⟨_, advanced⟩
  · rw [bound] at same
    exact ⟨revision, same, le_rfl, word revision same, .inl still⟩
  · rw [bound, Option.map_some] at advanced
    exact ⟨revision + 1, advanced, Nat.le_succ _, word _ advanced, .inr (Nat.lt_succ_self _)⟩

/-- An empty pipe bound to a fresh revision, whose last writer closes. -/
theorem reachable_pipe_keeps_revision_close :
    KeepsRevision (emptyPipe 1 0) 0 (.release .writer) := by
  have created : starts (emptyPipe 1 0) := ⟨.inr rfl, 4096, 4096, .inr ⟨rfl, rfl, rfl⟩⟩
  exact reachable_pipe_keeps_revision (.initial created) rfl (.release .writer)

end PipeCore
end Carrick
