import Carrick.PipeCore.Queue

namespace Carrick
namespace PipeCore

open Foundation

/-!
# No wakeup is lost

A write blocks when every page is in use and its remainder does not fit behind
the tail page; a read blocks when the queue is empty and a writer is left.
`WritersStill` and `ReadersStill` say that a step opens nothing for the writers
or the readers, and every operation that does not wake an end leaves it still.

A write on an exhausted revision is refused before the ring is looked at.  The
step that exhausts the revision wakes only whom its own effect concerns.
-/

/-- The remainder of a write of `len` bytes fits behind the tail page. -/
def Pipe.Merges (pipe : Pipe) (len : Nat) : Prop :=
  pipe.state.used ≠ 0 ∧ len % pipe.state.pageSize ≠ 0 ∧
    (pipe.slots.getD (pipe.slotIndex (pipe.state.used - 1)) default).offset +
      (pipe.slots.getD (pipe.slotIndex (pipe.state.used - 1)) default).len +
      len % pipe.state.pageSize <= pipe.state.pageSize

/-- The ring has no room for a write of `len` bytes. -/
def Pipe.Full (pipe : Pipe) (len : Nat) : Prop :=
  pipe.state.capacityPages <= pipe.state.used ∧ ¬ pipe.Merges len

/-! ## When a transfer blocks -/

section Blocking

variable {pipe : Pipe}

theorem mergeTail_of_not_merges {len : Nat} (fill : FillCallback) (apart : ¬ pipe.Merges len) :
    mergeTail pipe fill len = ⟨pipe.bytes, pipe.slots, pipe.state.used, 0, false, []⟩ := by
  unfold mergeTail
  dsimp only
  by_cases uneven : pipe.state.used ≠ 0 ∧ len % pipe.state.pageSize ≠ 0
  · rw [if_pos uneven, if_neg (fun fits => apart ⟨uneven.1, uneven.2, fits⟩)]
  · rw [if_neg uneven]

/-- A merge publishes bytes or faults, and only lengthens the tail page. -/
theorem mergeTail_of_merges {len : Nat} (fill : FillCallback) (merges : pipe.Merges len) :
    ((mergeTail pipe fill len).done ≠ 0 ∨ (mergeTail pipe fill len).faulted = true) ∧
      (mergeTail pipe fill len).used = pipe.state.used ∧
      ∃ count, (mergeTail pipe fill len).slots =
        pipe.slots.set (pipe.slotIndex (pipe.state.used - 1))
          ⟨(pipe.slots.getD (pipe.slotIndex (pipe.state.used - 1)) default).offset,
            (pipe.slots.getD (pipe.slotIndex (pipe.state.used - 1)) default).len + count⟩ := by
  rcases merges with ⟨used, uneven, fits⟩
  unfold mergeTail
  dsimp only
  rw [if_pos ⟨used, uneven⟩, if_pos fits]
  refine ⟨?_, rfl, _, rfl⟩
  dsimp only
  generalize min _ (len % pipe.state.pageSize) = filled
  by_cases short : filled < len % pipe.state.pageSize
  · exact .inr (decide_eq_true short)
  · exact .inl (by omega)

theorem writeLoop_of_faulted {fill : FillCallback} {len turns : Nat} {state : WriteState}
    (faulted : state.faulted = true) : writeLoop pipe fill len turns state = state := by
  cases turns with
  | zero => rfl
  | succ turns =>
    unfold writeLoop
    rw [if_neg (fun more => by rw [faulted] at more; cases more.1)]

theorem writeLoop_of_full {fill : FillCallback} {len turns : Nat} {state : WriteState}
    (full : pipe.state.capacityPages <= state.used) :
    writeLoop pipe fill len turns state = state := by
  cases turns with
  | zero => rfl
  | succ turns =>
    unfold writeLoop
    rw [if_neg (fun more => absurd more.2.2 (Nat.not_lt_of_le full))]

theorem writeLoop_done_le (pipe : Pipe) (fill : FillCallback) (len turns : Nat) (state : WriteState) :
    state.done <= (writeLoop pipe fill len turns state).done ∧
      state.used <= (writeLoop pipe fill len turns state).used := by
  induction turns generalizing state with
  | zero => exact ⟨le_rfl, le_rfl⟩
  | succ turns ih =>
    unfold writeLoop
    split
    · dsimp only
      split
      · exact ⟨le_rfl, le_rfl⟩
      · refine ⟨Nat.le_trans ?_ (ih _).1,
          Nat.le_trans ?_ (ih _).2⟩
        · exact Nat.le_add_right _ _
        · exact Nat.le_add_right _ _
    · exact ⟨le_rfl, le_rfl⟩

/-- A write of a positive length blocks exactly when nothing refuses it before
the ring is looked at and the ring has no room for it. -/
theorem writeWith_blocks_iff (wellFormed : WellFormed pipe) {len : Nat} (positive : 0 < len)
    (fill : FillCallback) :
    (pipe.writeWith len fill).step.result = .error (.wouldBlock .writable) <->
      pipe.state.readers ≠ 0 ∧ pipe.isBacked = true ∧ pipe.revisionAvailable = true ∧
        pipe.Full len := by
  unfold Pipe.writeWith
  rw [if_neg (by omega)]
  by_cases broken : pipe.state.readers = 0
  · rw [if_pos broken]
    exact ⟨nofun, fun blocked => absurd broken blocked.1⟩
  rw [if_neg broken]
  cases backed : pipe.isBacked with
  | false =>
    rw [if_pos rfl]
    exact ⟨nofun, fun blocked => by cases blocked.2.1⟩
  | true =>
    rw [if_neg (by decide)]
    cases available : pipe.revisionAvailable with
    | false =>
      rw [if_pos rfl]
      exact ⟨nofun, fun blocked => by cases blocked.2.2.1⟩
    | true =>
      rw [if_neg (by decide)]
      dsimp only
      constructor
      · intro blocked
        have idle : (writeLoop pipe fill len pipe.state.capacityPages
              (mergeTail pipe fill len)).done = 0 ∧
            (writeLoop pipe fill len pipe.state.capacityPages
              (mergeTail pipe fill len)).faulted = false := by
          split at blocked
          · cases blocked
          rename_i nothing
          split at blocked
          · cases blocked
          · rename_i whole
            exact ⟨not_not.mp nothing, Bool.eq_false_iff.mpr whole⟩
        have apart : ¬ pipe.Merges len := by
          intro merges
          rcases (mergeTail_of_merges fill merges).1 with some | faulted
          · have kept := (writeLoop_done_le pipe fill len pipe.state.capacityPages
              (mergeTail pipe fill len)).1
            omega
          · rw [writeLoop_of_faulted faulted, faulted] at idle
            cases idle.2
        refine ⟨broken, rfl, rfl, ?_, apart⟩
        have ringIn := wellFormed.ringIn backed
        rw [mergeTail_of_not_merges fill apart] at idle
        rcases writeLoop_spec fill len pipe.state.capacityPages ringIn with ⟨calls, loop⟩
        have fuel : pipe.state.capacityPages <=
            (⟨pipe.bytes, pipe.slots, pipe.state.used, 0, false, []⟩ : WriteState).used +
              pipe.state.capacityPages := Nat.le_add_left _ _
        have finished := writeLoop_finished pipe fill len fuel
        rcases finished with faulted | written | full
        · rw [faulted] at idle
          cases idle.2
        · omega
        · rw [(loop.idle idle.1).2] at full
          exact full
      · rintro ⟨_, _, _, full, apart⟩
        rw [mergeTail_of_not_merges fill apart, writeLoop_of_full full]
        rfl

/-- A write on an exhausted revision that nothing else refuses says so. -/
theorem writeWith_exhausted {len : Nat} (positive : 0 < len) (fill : FillCallback)
    (readers : pipe.state.readers ≠ 0) (backed : pipe.isBacked = true)
    (exhausted : pipe.revisionAvailable = false) :
    (pipe.writeWith len fill).step.result = .error .revisionExhausted := by
  unfold Pipe.writeWith
  rw [if_neg (by omega), if_neg readers, if_neg (by rw [backed]; decide), if_pos exhausted]
  rfl

/-- A read of a positive length blocks exactly when the queue is empty and a
writer is left. -/
theorem readWith_blocks_iff (wellFormed : WellFormed pipe) {max : Nat} (positive : 0 < max)
    (copy : CopyCallback) :
    (pipe.readWith max copy).step.result = .error (.wouldBlock .readable) <->
      pipe.state.unread = 0 ∧ pipe.state.writers ≠ 0 := by
  refine ⟨(readAction_spec wellFormed max copy .copyAndConsume).blocks, ?_⟩
  rintro ⟨empty, writers⟩
  unfold Pipe.readWith Pipe.readAction
  rw [if_neg (by omega), if_pos empty, if_neg writers]
  rfl

end Blocking

/-! ## What an operation opens -/

/-- Nothing opened for the writers: no reader left, no page became free and no
write that had no room has room now. -/
structure WritersStill (before after : Pipe) : Prop where
  readers : before.state.readers ≠ 0 -> after.state.readers ≠ 0
  occupied : before.state.capacityPages <= before.state.used ->
    after.state.capacityPages <= after.state.used
  full : ∀ len, before.isBacked = true -> before.Full len ->
    after.isBacked = true ∧ after.Full len

/-- Nothing opened for the readers: the queue stayed empty and no writer left. -/
structure ReadersStill (before after : Pipe) : Prop where
  empty : before.state.unread = 0 -> after.state.unread = 0
  writers : before.state.writers ≠ 0 -> after.state.writers ≠ 0

theorem WritersStill.refl (pipe : Pipe) : WritersStill pipe pipe :=
  ⟨fun readers => readers, fun occupied => occupied, fun _ backed full => ⟨backed, full⟩⟩

theorem ReadersStill.refl (pipe : Pipe) : ReadersStill pipe pipe :=
  ⟨fun empty => empty, fun writers => writers⟩

/-- An end that an operation does not wake is left still. -/
def Quiet (before : Pipe) (wake : WakeSet) (after : Pipe) : Prop :=
  (wake.writers = false -> WritersStill before after) ∧
    (wake.readers = false -> ReadersStill before after)

theorem Quiet.refl (pipe : Pipe) (wake : WakeSet) : Quiet pipe wake pipe :=
  ⟨fun _ => .refl pipe, fun _ => .refl pipe⟩

section Stillness

variable {pipe : Pipe}

theorem not_merges_of_longer_tail (pipe other : Pipe) (count : Nat) {len : Nat}
    (pageSize : other.state.pageSize = pipe.state.pageSize)
    (used : other.state.used = pipe.state.used)
    (tail : (other.slots.getD (other.slotIndex (other.state.used - 1)) default) =
      ⟨(pipe.slots.getD (pipe.slotIndex (pipe.state.used - 1)) default).offset,
        (pipe.slots.getD (pipe.slotIndex (pipe.state.used - 1)) default).len + count⟩)
    (apart : ¬ pipe.Merges len) : ¬ other.Merges len := by
  rintro ⟨inUse, uneven, fits⟩
  rw [tail, pageSize] at fits
  rw [pageSize] at uneven
  rw [used] at inUse
  dsimp only at fits
  exact apart ⟨inUse, uneven, by omega⟩

theorem merged_not_merges (wellFormed : WellFormed pipe) (backed : pipe.isBacked = true)
    (fill : FillCallback) (written : Nat) {len : Nat} {bytes : List UInt8} {unread : Nat}
    {revision : Option Nat} (apart : ¬ pipe.Merges len) :
    ¬ Pipe.Merges ⟨{ pipe.state with
      used := (mergeTail pipe fill written).used, unread := unread },
      bytes, (mergeTail pipe fill written).slots, revision⟩ len := by
  by_cases merges : pipe.Merges written
  · rcases mergeTail_of_merges fill merges with ⟨_, used, count, slots⟩
    rw [used, slots]
    have pages := Nat.zero_lt_of_lt wellFormed.ring.head_lt
    have inSlots : pipe.slotIndex (pipe.state.used - 1) < pipe.slots.length :=
      Nat.lt_of_lt_of_le (Nat.mod_lt _ pages) (isBacked_iff.mp backed).2
    refine not_merges_of_longer_tail pipe _ count rfl rfl ?_ apart
    exact getD_set_self inSlots _
  · rw [mergeTail_of_not_merges fill merges]
    exact apart

/-- A write wakes no writer, and on a full ring it only lengthens the tail. -/
theorem writeWith_quiet (wellFormed : WellFormed pipe) (len : Nat) (fill : FillCallback) :
    Quiet pipe (pipe.writeWith len fill).step.wake (pipe.writeWith len fill).pipe := by
  unfold Pipe.writeWith
  split
  · exact .refl pipe _
  split
  · exact .refl pipe _
  rename_i readers
  split
  · exact .refl pipe _
  rename_i backed
  have isBacked : pipe.isBacked = true := by simpa using backed
  split
  · exact .refl pipe _
  have ringIn := wellFormed.ringIn isBacked
  rcases mergeTail_spec fill len ringIn with ⟨merged, merge⟩
  rcases writeLoop_spec fill len pipe.state.capacityPages merge.ringIn with ⟨looped, loop⟩
  have used := (writeLoop_done_le pipe fill len pipe.state.capacityPages
    (mergeTail pipe fill len)).2
  have mergedUsed : (mergeTail pipe fill len).used = pipe.state.used := by
    by_cases merges : pipe.Merges len
    · exact (mergeTail_of_merges fill merges).2.1
    · rw [mergeTail_of_not_merges fill merges]
  have still : ∀ revision, WritersStill pipe ⟨{ pipe.state with
      used := (writeLoop pipe fill len pipe.state.capacityPages
        (mergeTail pipe fill len)).used
      unread := pipe.state.unread + (writeLoop pipe fill len pipe.state.capacityPages
        (mergeTail pipe fill len)).done },
      (writeLoop pipe fill len pipe.state.capacityPages (mergeTail pipe fill len)).bytes,
      (writeLoop pipe fill len pipe.state.capacityPages (mergeTail pipe fill len)).slots,
      revision⟩ := by
    intro revision
    refine ⟨fun same => same, ?_, ?_⟩
    · intro occupied
      show pipe.state.capacityPages <= (writeLoop pipe fill len _ _).used
      omega
    rintro other _ ⟨occupied, apart⟩
    refine ⟨isBacked_iff.mpr ⟨loop.ringIn.bytes_fit, loop.ringIn.slots_fit⟩, ?_, ?_⟩
    · show pipe.state.capacityPages <= (writeLoop pipe fill len _ _).used
      omega
    · rw [writeLoop_of_full (by rw [mergedUsed]; exact occupied)]
      exact merged_not_merges wellFormed isBacked fill len apart
  generalize writeLoop pipe fill len pipe.state.capacityPages
    (mergeTail pipe fill len) = after at *
  have readersStill : after.done = 0 -> ∀ revision, ReadersStill pipe
      ⟨{ pipe.state with
        used := after.used, unread := pipe.state.unread + after.done },
        after.bytes, after.slots, revision⟩ := by
    intro zero revision
    refine ⟨fun empty => ?_, fun writers => writers⟩
    show pipe.state.unread + after.done = 0
    omega
  dsimp only
  split
  · exact ⟨fun _ => still _, nofun⟩
  · rename_i nothing
    split
    · exact ⟨fun _ => still _, fun _ => readersStill (not_not.mp nothing) _⟩
    · exact ⟨fun _ => still _, fun _ => readersStill (not_not.mp nothing) _⟩

theorem readWith_quiet {max : Nat} {copy : CopyCallback}
    {action : ReadAction} {transfer : Transfer CopyCall}
    (answer : ReadAnswer pipe max copy action transfer) :
    Quiet pipe transfer.step.wake transfer.pipe := by
  refine ⟨fun quiet => ?_, fun _ => ⟨fun empty => ?_, fun writers => ?_⟩⟩
  · rw [answer.quiet (.inl quiet)]
    exact .refl pipe
  · rw [answer.quiet (.inr empty)]
    exact empty
  · rw [answer.writers_eq]
    exact writers

/-- A shrink needs a free page, so a resize that wakes no writer found room or
changed nothing. -/
theorem setCapacity_quiet (requested growthLimit : Nat) :
    Quiet pipe (pipe.setCapacity requested growthLimit).1.wake
      (pipe.setCapacity requested growthLimit).2 := by
  have shrunk : ∀ {pages : Nat} {bytes : List UInt8} {slots : List Page}
      {revision : Option Nat} {wake : WakeSet},
      wake = ⟨false, decide (pipe.state.capacityPages < pages)⟩ ->
      pages ≠ pipe.state.capacityPages -> ¬ pages < pipe.state.used ->
      Quiet pipe wake
        ⟨{ pipe.state with head := 0, capacityPages := pages }, bytes, slots, revision⟩ := by
    rintro pages bytes slots revision _ rfl changed room
    refine ⟨fun quiet => ?_, fun _ => ⟨fun empty => empty, fun writers => writers⟩⟩
    have smaller : ¬ pipe.state.capacityPages < pages := of_decide_eq_false quiet
    refine ⟨fun readers => readers, fun occupied => ?_, ?_⟩
    · omega
    · rintro len _ ⟨occupied, _⟩
      omega
  unfold Pipe.setCapacity
  split
  · exact .refl pipe _
  rename_i capacity _
  dsimp only
  split
  · exact .refl pipe _
  split
  · exact .refl pipe _
  rename_i room
  split
  · split
    · exact .refl pipe _
    · rename_i changed
      split
      · exact .refl pipe _
      · exact shrunk rfl changed room
  split
  · exact .refl pipe _
  split
  · exact .refl pipe _
  · rename_i changed
    split
    · exact .refl pipe _
    · exact shrunk rfl changed room

theorem replaceStorage_quiet (wellFormed : WellFormed pipe) (bytes : List UInt8)
    (slots : List Page) (wake : WakeSet) :
    Quiet pipe wake (pipe.apply (.replaceStorage bytes slots)).2 := by
  have replaced := replaceStorage_spec wellFormed bytes slots
  cases answer : pipe.replaceStorage bytes slots with
  | error error =>
    rw [apply_replaceStorage_error answer]
    exact .refl pipe wake
  | ok moved =>
    rw [answer] at replaced
    rw [apply_replaceStorage_ok answer]
    rcases replaced with ⟨_, _, state, _, backed, pages⟩
    refine ⟨fun _ => ⟨?_, ?_, ?_⟩, fun _ => ⟨?_, ?_⟩⟩
    · rw [state]
      exact fun readers => readers
    · rw [state]
      exact fun occupied => occupied
    · rintro len _ ⟨occupied, apart⟩
      refine ⟨backed, by rw [state]; exact occupied, ?_⟩
      have positive : 0 < pipe.state.used := by
        have := wellFormed.ring.head_lt
        omega
      have inside := wellFormed.ring.used_le
      have tailIndex : moved.slotIndex (moved.state.used - 1) = pipe.state.used - 1 := by
        unfold Pipe.slotIndex
        rw [state]
        dsimp only
        rw [Nat.zero_add]
        exact Nat.mod_eq_of_lt (by omega)
      refine not_merges_of_longer_tail pipe moved 0 (by rw [state]) (by rw [state]) ?_ apart
      rw [tailIndex]
      exact pages (pipe.state.used - 1) (by omega)
    · rw [state]
      exact fun empty => empty
    · rw [state]
      exact fun writers => writers

theorem retain_quiet (endpoint : End) (wake : WakeSet) :
    Quiet pipe wake (pipe.retain endpoint).2 := by
  unfold Pipe.retain
  split
  · exact .refl pipe wake
  split
  · exact .refl pipe wake
  rename_i count counted
  have total := (checkedAdd_eq_some_iff.mp counted).1
  cases endpoint with
  | reader =>
    refine ⟨fun _ => ⟨fun _ => ?_, fun occupied => occupied,
      fun _ backed full => ⟨backed, full⟩⟩, fun _ => ⟨fun empty => empty, fun writers => writers⟩⟩
    show count ≠ 0
    omega
  | writer =>
    refine ⟨fun _ => ⟨fun readers => readers, fun occupied => occupied,
      fun _ backed full => ⟨backed, full⟩⟩, fun _ => ⟨fun empty => empty, fun _ => ?_⟩⟩
    show count ≠ 0
    omega

/-- The last reference of an end wakes the other end, any other opens nothing. -/
theorem release_quiet (endpoint : End) :
    Quiet pipe (pipe.release endpoint).1.wake (pipe.release endpoint).2 := by
  unfold Pipe.release
  split
  · exact .refl pipe _
  split
  · exact .refl pipe _
  rename_i nonzero
  cases endpoint with
  | reader =>
    dsimp only
    by_cases final : pipe.state.references .reader - 1 = 0
    · rw [decide_eq_true final]
      exact ⟨nofun,
        fun _ => ⟨fun empty => empty, fun writers => writers⟩⟩
    · rw [decide_eq_false final]
      refine ⟨fun _ => ⟨fun _ => final, fun occupied => occupied,
        fun _ backed full => ⟨backed, full⟩⟩, fun _ => ⟨fun empty => empty, fun writers => writers⟩⟩
  | writer =>
    dsimp only
    by_cases final : pipe.state.references .writer - 1 = 0
    · rw [decide_eq_true final]
      exact ⟨fun _ => ⟨fun readers => readers, fun occupied => occupied,
        fun _ backed full => ⟨backed, full⟩⟩, nofun⟩
    · rw [decide_eq_false final]
      exact ⟨fun _ => ⟨fun readers => readers, fun occupied => occupied,
        fun _ backed full => ⟨backed, full⟩⟩, fun _ => ⟨fun empty => empty, fun _ => final⟩⟩

theorem apply_quiet (wellFormed : WellFormed pipe) (operation : Operation) :
    Quiet pipe (pipe.apply operation).1 (pipe.apply operation).2 := by
  cases operation with
  | writeWith len fill => exact writeWith_quiet wellFormed len fill
  | readWith max copy =>
    exact readWith_quiet (readAction_spec wellFormed max copy .copyAndConsume)
  | peekWith max copy =>
    have peeked : (pipe.apply (.peekWith max copy)).2 = pipe :=
      (readAction_spec wellFormed max copy .peek).peeked rfl
    rw [peeked]
    exact .refl pipe _
  | consume count => exact readWith_quiet (consume_spec wellFormed count).1
  | setCapacity requested growthLimit => exact setCapacity_quiet requested growthLimit
  | replaceStorage bytes slots => exact replaceStorage_quiet wellFormed bytes slots _
  | retain endpoint => exact retain_quiet endpoint _
  | release endpoint => exact release_quiet endpoint

end Stillness

/-! ## Wakeups -/

def WakeSet.names (wake : WakeSet) : End -> Bool
  | .reader => wake.readers
  | .writer => wake.writers

/-- Some bit went from false to true. -/
def Readiness.Rises (before after : Readiness) : Prop :=
  (before.readable = false ∧ after.readable = true) ∨
  (before.writable = false ∧ after.writable = true) ∨
  (before.hup = false ∧ after.hup = true) ∨ (before.err = false ∧ after.err = true)

/-- The wake set names every end for which a blocked transfer became possible
or a readiness bit rose.  A write refused because its revision is exhausted
did not become possible. -/
structure NoLostWakeup (before : Pipe) (wake : WakeSet) (after : Pipe) : Prop where
  writers : ∀ len fill later, 0 < len ->
    (before.writeWith len fill).step.result = .error (.wouldBlock .writable) ->
    (after.writeWith len later).step.result ≠ .error (.wouldBlock .writable) ->
    (after.writeWith len later).step.result ≠ .error .revisionExhausted -> wake.writers = true
  readers : ∀ len copy later, 0 < len ->
    (before.readWith len copy).step.result = .error (.wouldBlock .readable) ->
    (after.readWith len later).step.result ≠ .error (.wouldBlock .readable) ->
    wake.readers = true
  readiness : ∀ endpoint, (before.state.readiness endpoint).Rises
    (after.state.readiness endpoint) -> wake.names endpoint = true

theorem Quiet.rises {before after : Pipe} {wake : WakeSet} (quiet : Quiet before wake after)
    {endpoint : End}
    (rises : (before.state.readiness endpoint).Rises (after.state.readiness endpoint)) :
    wake.names endpoint = true := by
  by_contra unnamed
  cases endpoint with
  | reader =>
    have still := quiet.2 (Bool.eq_false_iff.mpr unnamed)
    rcases rises with ⟨low, high⟩ | ⟨low, high⟩ | ⟨low, high⟩ | ⟨low, high⟩
    · have empty : before.state.unread = 0 := not_not.mp (of_decide_eq_false low)
      exact (of_decide_eq_true high) (still.empty empty)
    · cases high
    · exact still.writers (of_decide_eq_false low) (of_decide_eq_true high)
    · cases high
  | writer =>
    have still := quiet.1 (Bool.eq_false_iff.mpr unnamed)
    rcases rises with ⟨low, high⟩ | ⟨low, high⟩ | ⟨low, high⟩ | ⟨low, high⟩
    · cases high
    · have occupied := still.occupied (Nat.le_of_not_lt (of_decide_eq_false low))
      exact absurd (of_decide_eq_true high) (Nat.not_lt_of_le occupied)
    · cases high
    · exact still.readers (of_decide_eq_false low) (of_decide_eq_true high)

/-- In every reachable pipe, no operation lets a blocked transfer become
possible, or a readiness bit rise, without waking that end. -/
theorem reachable_pipe_loses_no_wakeup {history : List Operation} {pipe : Pipe}
    (run : Run starts step history pipe) (operation : Operation) :
    NoLostWakeup pipe (pipe.apply operation).1 (pipe.apply operation).2 := by
  have wellFormed := run_wellFormed run
  have quiet := apply_quiet wellFormed operation
  have afterWellFormed := apply_wellFormed wellFormed operation
  generalize (pipe.apply operation).1 = wake at *
  generalize (pipe.apply operation).2 = after at *
  refine ⟨?_, ?_, fun endpoint => quiet.rises⟩
  · intro len fill later positive blocked unblocked refused
    by_contra unnamed
    have still := quiet.1 (Bool.eq_false_iff.mpr unnamed)
    rcases (writeWith_blocks_iff wellFormed positive fill).mp blocked with
      ⟨readers, backed, _, full⟩
    have afterFull := still.full len backed full
    cases available : after.revisionAvailable with
    | true =>
      exact unblocked ((writeWith_blocks_iff afterWellFormed positive later).mpr
        ⟨still.readers readers, afterFull.1, available, afterFull.2⟩)
    | false =>
      exact refused (writeWith_exhausted positive later (still.readers readers) afterFull.1
        available)
  · intro len copy later positive blocked unblocked
    by_contra unnamed
    have still := quiet.2 (Bool.eq_false_iff.mpr unnamed)
    rcases (readWith_blocks_iff wellFormed positive copy).mp blocked with ⟨empty, writers⟩
    exact unblocked ((readWith_blocks_iff afterWellFormed positive later).mpr
      ⟨still.empty empty, still.writers writers⟩)

/-- A reader that waits on an empty pipe is woken when the last writer leaves. -/
theorem last_writer_wakes_reader :
    ∃ pipe, Run starts step [] pipe ∧
      NoLostWakeup pipe (pipe.apply (.release .writer)).1 (pipe.apply (.release .writer)).2 ∧
      (pipe.apply (.release .writer)).1.readers = true := by
  have created : starts ⟨.fresh 4096 1, [], [], none⟩ :=
    ⟨.inl rfl, 4096, 4096, .inr ⟨rfl, rfl, rfl⟩⟩
  exact ⟨_, .initial created, reachable_pipe_loses_no_wakeup (.initial created) _, by decide⟩

/-! ## The step that exhausts the revision -/

/-- An empty pipe without storage. -/
def emptyPipe (pages revision : Nat) : Pipe :=
  ⟨.fresh 4096 pages, [], [], some revision⟩

/-- A pipe of one page that holds `len` bytes. -/
def onePagePipe (bytes : List UInt8) (len revision : Nat) : Pipe :=
  ⟨⟨4096, 1, 0, 1, len, 1, 1⟩, bytes, [⟨0, len⟩], some revision⟩

/-- A callback that keeps every chunk as it is and reports it filled. -/
def fillWhole : FillCallback := ⟨fun _ _ chunk => (chunk, chunk.length), fun _ _ _ => rfl⟩

theorem setCapacity_unbacked {pipe : Pipe} {requested growthLimit capacity pages : Nat}
    (rounded : roundedCapacity pipe.state.pageSize requested = .ok capacity)
    (paged : capacity / pipe.state.pageSize = pages) (permitted : capacity <= growthLimit) (unused : pipe.state.used = 0)
    (noBytes : pipe.bytes = []) (noSlots : pipe.slots = [])
    (changes : pages ≠ pipe.state.capacityPages)
    (available : pipe.revisionAvailable = true) :
    (pipe.setCapacity requested growthLimit).2 = Pipe.advanceRevision { pipe with
      state := { pipe.state with head := 0, capacityPages := pages } } := by
  unfold Pipe.setCapacity
  rw [rounded]
  dsimp only
  rw [paged, if_neg (by omega), if_neg (by omega), if_pos (by rw [noBytes, noSlots]; rfl),
    if_neg changes, if_neg (by rw [available]; decide)]

variable {revision : Nat}

theorem emptyPipe_available {pages : Nat} (available : revision ≠ wordLimit - 1) :
    (emptyPipe pages revision).revisionAvailable = true :=
  decide_eq_true available

theorem emptyPipe_grown (available : revision ≠ wordLimit - 1) :
    ((emptyPipe 1 revision).setCapacity 8192 8192).2 = emptyPipe 2 (revision + 1) := by
  have valid : validatePageSize 4096 = .ok () := rfl
  have rounded : roundedCapacity 4096 8192 = .ok 8192 := by
    have power : Nat.clog 2 8192 = 13 := Nat.clog_pow 2 13 (by decide)
    simp [roundedCapacity, valid, power, i32Max]
  exact setCapacity_unbacked rounded (by decide : 8192 / 4096 = 2) le_rfl rfl rfl rfl
    (by decide : 2 ≠ 1) (emptyPipe_available available)

theorem emptyPipe_shrunk (available : revision ≠ wordLimit - 1) :
    ((emptyPipe 2 revision).setCapacity 4096 4096).2 = emptyPipe 1 (revision + 1) := by
  have valid : validatePageSize 4096 = .ok () := rfl
  have rounded : roundedCapacity 4096 4096 = .ok 4096 := by
    have power : Nat.clog 2 4096 = 12 := Nat.clog_pow 2 12 (by decide)
    simp [roundedCapacity, valid, power, i32Max]
  exact setCapacity_unbacked rounded (by decide : 4096 / 4096 = 1) le_rfl rfl rfl rfl
    (by decide : 1 ≠ 2) (emptyPipe_available available)

theorem emptyPipe_reached (rounds : Nat) (inWord : 2 * rounds < wordLimit) :
    ∃ history, Run starts step history (emptyPipe 1 (2 * rounds)) := by
  induction rounds with
  | zero =>
    have created : starts (emptyPipe 1 0) :=
      ⟨.inr rfl, 4096, 4096, .inr ⟨rfl, rfl, rfl⟩⟩
    exact ⟨[], .initial created⟩
  | succ rounds ih =>
    rcases ih (by omega) with ⟨history, run⟩
    have grown := emptyPipe_grown (by omega : 2 * rounds ≠ wordLimit - 1)
    have shrunk := emptyPipe_shrunk (by omega : 2 * rounds + 1 ≠ wordLimit - 1)
    have up : step (emptyPipe 1 (2 * rounds)) (.setCapacity 8192 8192)
      (emptyPipe 2 (2 * rounds + 1)) := grown.symm
    have down : step (emptyPipe 2 (2 * rounds + 1)) (.setCapacity 4096 4096)
      (emptyPipe 1 (2 * (rounds + 1))) := shrunk.symm
    exact ⟨_, .next (.next run up) down⟩

theorem emptyPipe_backed {bytes : List UInt8} (fits : bytes.length = 4096) (revision : Nat) :
    ((emptyPipe 1 revision).apply (.replaceStorage bytes [default])).2 =
      ⟨.fresh 4096 1, bytes, [default], some revision⟩ := by
  simp [Pipe.apply, Pipe.replaceStorage, emptyPipe, PipeRecord.fresh, PipeRecord.capacity, fits]

theorem onePagePipe_first {bytes : List UInt8} (fits : bytes.length = 4096)
    (available : revision ≠ wordLimit - 1) :
    ∃ written, written.length = 4096 ∧
      (Pipe.apply ⟨.fresh 4096 1, bytes, [default], some revision⟩ (.writeWith 1 fillWhole)).2 =
        onePagePipe written 1 (revision + 1) := by
  have chunk : (slice bytes 0 1).length = 1 := length_slice (by omega)
  refine ⟨overwrite bytes 0 (slice bytes 0 1), ?_, ?_⟩
  · rw [length_overwrite (by omega), fits]
  · simp [Pipe.apply, Pipe.writeWith, PipeRecord.fresh, Pipe.isBacked, PipeRecord.capacity, fits,
      Pipe.revisionAvailable, available, mergeTail, writeLoop, Pipe.slotIndex, fillWhole, chunk,
      onePagePipe, Pipe.advanceRevision]

theorem onePagePipe_merged {bytes : List UInt8} (fits : bytes.length = 4096) {len : Nat}
    (room : len < 4096) (available : revision ≠ wordLimit - 1) :
    ∃ written, written.length = 4096 ∧
      (onePagePipe bytes len revision).apply (.writeWith 1 fillWhole) =
        (⟨true, false⟩, onePagePipe written (len + 1) (revision + 1)) := by
  have chunk : (slice bytes len 1).length = 1 := length_slice (by omega)
  have roomForOne : len + 1 <= 4096 := room
  refine ⟨overwrite bytes len (slice bytes len 1), ?_, ?_⟩
  · rw [length_overwrite (by omega), fits]
  · simp [Pipe.apply, Pipe.writeWith, Pipe.isBacked, PipeRecord.capacity, fits,
      Pipe.revisionAvailable, available, mergeTail, writeLoop, Pipe.slotIndex, fillWhole, chunk,
      onePagePipe, Pipe.advanceRevision, roomForOne, Step.changed]

/-- A full page, one step before its revision is exhausted: a write of a whole
page waits, and one more merged byte, which wakes only readers, turns the
answer of that write into a refusal. -/
theorem exhausting_write_wakes_no_writer :
    ∃ history pipe operation len fill, Run starts step history pipe ∧ 0 < len ∧
      (pipe.writeWith len fill).step.result = .error (.wouldBlock .writable) ∧
      ((pipe.apply operation).2.writeWith len fill).step.result ≠
        .error (.wouldBlock .writable) ∧
      (pipe.apply operation).1.writers = false := by
  have rounds : 2 * (2 ^ 63 - 2) < wordLimit := by decide
  rcases emptyPipe_reached (2 ^ 63 - 2) rounds with ⟨history, run⟩
  have storage : (List.replicate 4096 (0 : UInt8)).length = 4096 := List.length_replicate
  have backed := emptyPipe_backed storage (2 * (2 ^ 63 - 2))
  rcases onePagePipe_first storage (by decide : 2 * (2 ^ 63 - 2) ≠ wordLimit - 1) with
    ⟨first, firstFits, firstWrite⟩
  rcases onePagePipe_merged firstFits (by decide : 1 < 4096)
    (by decide : 2 * (2 ^ 63 - 2) + 1 ≠ wordLimit - 1) with ⟨second, secondFits, secondWrite⟩
  rcases onePagePipe_merged secondFits (by decide : 2 < 4096)
    (by decide : 2 * (2 ^ 63 - 2) + 1 + 1 ≠ wordLimit - 1) with ⟨third, thirdFits, thirdWrite⟩
  have full : Run starts step _ (onePagePipe second 2 (2 * (2 ^ 63 - 2) + 1 + 1)) :=
    .next (.next (.next run backed.symm) firstWrite.symm) (congrArg Prod.snd secondWrite).symm
  have isBacked : ∀ {bytes : List UInt8} {len revision : Nat}, bytes.length = 4096 ->
      (onePagePipe bytes len revision).isBacked = true := by
    intro bytes len revision fits
    simp [Pipe.isBacked, onePagePipe, PipeRecord.capacity, fits]
  have readers : ∀ {bytes : List UInt8} {len revision : Nat},
      (onePagePipe bytes len revision).state.readers ≠ 0 := Nat.one_ne_zero
  refine ⟨_, _, .writeWith 1 fillWhole, 4096, fillWhole, full, by decide, ?_, ?_, ?_⟩
  · have available : (onePagePipe second 2 (2 * (2 ^ 63 - 2) + 1 + 1)).revisionAvailable = true :=
      decide_eq_true (by decide : 2 * (2 ^ 63 - 2) + 1 + 1 ≠ wordLimit - 1)
    refine (writeWith_blocks_iff (run_wellFormed full) (by decide) fillWhole).mpr
      ⟨readers, isBacked secondFits, available, le_rfl, ?_⟩
    rintro ⟨_, uneven, _⟩
    exact uneven (Nat.mod_self 4096)
  · have exhausted : (onePagePipe third (2 + 1)
        (2 * (2 ^ 63 - 2) + 1 + 1 + 1)).revisionAvailable = false :=
      decide_eq_false (by decide : ¬ 2 * (2 ^ 63 - 2) + 1 + 1 + 1 ≠ wordLimit - 1)
    rw [thirdWrite, writeWith_exhausted (by decide) fillWhole readers (isBacked thirdFits)
      exhausted]
    exact nofun
  · rw [thirdWrite]

end PipeCore
end Carrick
