import Carrick.PipeCore.Ring

namespace Carrick
namespace PipeCore

open Foundation
open List (append_assoc append_nil length_append length_set length_take)

/-!
# What a staged transfer does to the queue

`HandsInOrder` says that a copy callback saw the queue in order: every chunk is
a prefix of what is left after the bytes delivered so far.  `FillsInOrder` says
the same of the source offsets a fill callback was asked for.  The two loops of
the pipe are specified against them, from any ring state and for any callback.
-/

/-- The calls hand the queue to the callback in order, and each records the
callback's own answer. -/
def HandsInOrder (copy : CopyCallback) :
    List CopyCall -> List UInt8 -> List CopyCall -> Prop
  | _, _, [] => True
  | earlier, queue, call :: rest => call.chunk <+: queue ∧
      call.delivered = min (copy earlier call.chunk) call.chunk.length ∧
      HandsInOrder copy (earlier ++ [call]) (queue.drop call.delivered) rest

/-- The calls ask the callback for consecutive offsets, and each records the
callback's own answer. -/
def FillsInOrder (fill : FillCallback) : List FillCall -> Nat -> List FillCall -> Prop
  | _, _, [] => True
  | earlier, done, call :: rest => call.offset = done ∧
      (∃ before, call.chunk = (fill.call earlier done before).1 ∧
        call.filled = min (fill.call earlier done before).2 before.length) ∧
      FillsInOrder fill (earlier ++ [call]) (done + call.filled) rest

/-- The callback fills from a source: the filled part of every chunk is the
source at the offset asked for. -/
def FillCallback.CopiesFrom (fill : FillCallback) (source : List UInt8) : Prop :=
  ∀ calls offset chunk,
    (fill.call calls offset chunk).1.take (min (fill.call calls offset chunk).2 chunk.length) =
      slice source offset (min (fill.call calls offset chunk).2 chunk.length)

theorem fillFrom_copiesFrom (source : List UInt8) : (fillFrom source).CopiesFrom source := by
  intro calls offset chunk
  have short : (slice source offset chunk.length).length <= chunk.length := by
    unfold slice
    rw [length_take]
    exact Nat.min_le_left _ _
  show (slice source offset chunk.length ++ _).take (min (slice source offset chunk.length).length
    chunk.length) = slice source offset (min (slice source offset chunk.length).length chunk.length)
  rw [Nat.min_eq_left short, List.take_left' rfl]
  unfold slice
  rw [length_take, List.take_eq_take_iff, List.length_drop]
  omega

variable {copy : CopyCallback}

theorem HandsInOrder.queue_eq {earlier calls : List CopyCall} {queue : List UInt8}
    (ordered : HandsInOrder copy earlier queue calls) :
    queue = deliveredBytes calls ++ queue.drop (deliveredBytes calls).length := by
  induction calls generalizing earlier queue with
  | nil => rfl
  | cons call rest ih =>
    rcases ordered with ⟨leading, answered, later⟩
    rcases leading with ⟨behind, rfl⟩
    have within : call.delivered <= call.chunk.length := by omega
    have tail := ih later
    rw [List.drop_append_of_le_length within] at tail
    have unfolded : deliveredBytes (call :: rest) =
        call.chunk.take call.delivered ++ deliveredBytes rest := rfl
    have taken : (call.chunk.take call.delivered).length = call.delivered := by
      rw [length_take]
      omega
    rw [unfolded, length_append, taken, <- List.drop_drop,
      List.drop_append_of_le_length within, append_assoc, <- tail, <- append_assoc,
      List.take_append_drop]

theorem filledBytes_append (first second : List FillCall) :
    filledBytes (first ++ second) = filledBytes first ++ filledBytes second :=
  List.flatMap_append

variable {fill : FillCallback}

/-- A callback that fills from a source publishes a slice of that source. -/
theorem FillsInOrder.source_eq {source : List UInt8} (copies : fill.CopiesFrom source)
    {earlier calls : List FillCall} {done : Nat} (ordered : FillsInOrder fill earlier done calls) :
    filledBytes calls = slice source done (filledBytes calls).length := by
  induction calls generalizing earlier done with
  | nil => simp [filledBytes]
  | cons call rest ih =>
    rcases ordered with ⟨_, ⟨before, chunk, filled⟩, later⟩
    have tail := ih later
    have first : call.chunk.take call.filled = slice source done call.filled := by
      rw [chunk, filled]
      exact copies earlier done before
    have taken : (call.chunk.take call.filled).length = call.filled := by
      rw [length_take, chunk, fill.length_eq]
      omega
    have unfolded : filledBytes (call :: rest) =
        call.chunk.take call.filled ++ filledBytes rest := rfl
    rw [unfolded, length_append, taken, slice_append, <- first, <- tail]

/-! ## The read loop -/

/-- The content seen from the loop variables of a read. -/
def Pipe.contentAt (pipe : Pipe) (state : ReadState) : List UInt8 :=
  ringContent pipe.state.pageSize pipe.state.capacityPages pipe.bytes state.slots
    state.head state.used

/-- The ring described by the loop variables of a read. -/
def Pipe.RingAt (pipe : Pipe) (state : ReadState) : Prop :=
  Ring pipe.state.pageSize pipe.state.capacityPages pipe.bytes state.slots state.head state.used

/-- What a run of the read loop from `state` has done when it ends in `after`. -/
structure ReadDone (pipe : Pipe) (copy : CopyCallback) (action : ReadAction) (total : Nat)
    (state after : ReadState) (calls : List CopyCall) : Prop where
  calls_eq : after.calls = state.calls ++ calls
  done_eq : after.done = state.done + (deliveredBytes calls).length
  hands : HandsInOrder copy state.calls (pipe.contentAt state) calls
  peeked : action = .peek -> after.slots = state.slots
  consumed : action ≠ .peek -> pipe.RingAt after ∧
    pipe.contentAt state = deliveredBytes calls ++ pipe.contentAt after
  idle : after.done = state.done ->
    after.slots = state.slots ∧ after.head = state.head ∧ after.used = state.used
  length_eq : after.slots.length = state.slots.length
  bounded : state.done <= total -> after.done <= total
  finished : total <= after.done ∨
    ∃ call ∈ calls, call.delivered < call.chunk.length

variable {pipe : Pipe} {action : ReadAction} {total : Nat} {state : ReadState}

theorem ReadDone.refl (ring : pipe.RingAt state) (finished : total <= state.done) :
    ReadDone pipe copy action total state state [] where
  calls_eq := (append_nil _).symm
  done_eq := rfl
  hands := trivial
  peeked := fun _ => rfl
  consumed := fun _ => ⟨ring, rfl⟩
  idle := fun _ => ⟨rfl, rfl, rfl⟩
  length_eq := rfl
  bounded := fun below => below
  finished := .inl finished

theorem readLoop_exit (pipe : Pipe) (copy : CopyCallback) (action : ReadAction) (turns : Nat)
    (finished : total <= state.done) :
    readLoop pipe copy action total turns state = (.ok (), state) := by
  cases turns with
  | zero => rfl
  | succ turns =>
    unfold readLoop
    rw [if_neg (by omega)]

/-- The call that the next turn of the read loop makes. -/
def nextCopy (pipe : Pipe) (copy : CopyCallback) (total : Nat) (state : ReadState) : CopyCall :=
  let page := state.slots.getD state.head default
  let n := min page.len (total - state.done)
  let chunk := slice pipe.bytes (state.head * pipe.state.pageSize + page.offset) n
  ⟨chunk, min (copy state.calls chunk) n⟩

theorem readLoop_succ {turns : Nat} (more : state.done < total)
    (live : (state.slots.getD state.head default).Live pipe.state.pageSize) :
    readLoop pipe copy action total (turns + 1) state =
      if (nextCopy pipe copy total state).delivered <
          min (state.slots.getD state.head default).len (total - state.done) then
        (.ok (), state.deliver pipe.state.capacityPages action (nextCopy pipe copy total state))
      else readLoop pipe copy action total turns
        (state.deliver pipe.state.capacityPages action (nextCopy pipe copy total state)) := by
  have positive := live.1
  have bound := live.2
  conv_lhs => unfold readLoop
  rw [if_pos more]
  dsimp only
  rw [if_neg (by omega)]
  rfl

theorem nextCopy_spec (copy : CopyCallback) (total : Nat) (ring : pipe.RingAt state)
    (nonempty : 0 < state.used) :
    let call := nextCopy pipe copy total state
    let page := state.slots.getD state.head default
    page.Live pipe.state.pageSize ∧ call.chunk.length = min page.len (total - state.done) ∧
      call.chunk <+: pipe.contentAt state ∧
      call.delivered = min (copy state.calls call.chunk) call.chunk.length ∧
      call.chunk.take call.delivered =
        slice pipe.bytes (state.head * pipe.state.pageSize + page.offset) call.delivered := by
  rcases state with ⟨slots, head, used, done, calls⟩
  cases used with
  | zero => exact absurd nonempty (Nat.lt_irrefl 0)
  | succ used =>
    have live := Ring.pages_live ring head (List.mem_cons_self ..)
    have fits := (Ring.bytes_fit ring).resolve_left (Nat.succ_ne_zero used)
    have pageLength := length_pageBytes (Ring.head_lt ring) fits live
    dsimp only at live pageLength
    intro call page
    have taken : call.chunk = (pageBytes pipe.state.pageSize pipe.bytes slots head).take
        (min page.len (total - done)) :=
      (take_slice _ _ _ _ (Nat.min_le_left _ _)).symm
    have chunkLength : call.chunk.length = min page.len (total - done) := by
      rw [taken, length_take, pageLength]
      exact Nat.min_eq_left (Nat.min_le_left _ _)
    have answered : call.delivered = min (copy calls call.chunk) call.chunk.length := by
      rw [chunkLength]
      rfl
    refine ⟨live, chunkLength, ?_, answered, ?_⟩
    · show call.chunk <+: ringContent _ _ _ slots head (used + 1)
      rw [taken, ringContent_cons]
      exact (List.take_prefix _ _).trans (List.prefix_append _ _)
    · exact take_slice _ _ _ _ (Nat.min_le_right _ _)

/-- What the edits of a turn do: the page is used up and leaves the ring, or it
stays shortened.  After a peek only the first of the two is visible. -/
theorem deliver_spec (action : ReadAction) (ring : pipe.RingAt state) (nonempty : 0 < state.used)
    (call : CopyCall) (within : call.delivered <= (state.slots.getD state.head default).len) :
    let after := state.deliver pipe.state.capacityPages action call
    let page := state.slots.getD state.head default
    (action ≠ .peek ∨ call.delivered = page.len -> pipe.RingAt after ∧
        pipe.contentAt state = slice pipe.bytes (state.head * pipe.state.pageSize + page.offset)
          call.delivered ++ pipe.contentAt after) ∧
      (call.delivered = 0 -> after.slots = state.slots ∧ after.head = state.head ∧
        after.used = state.used) := by
  rcases state with ⟨slots, head, used, done, calls⟩
  cases used with
  | zero => exact absurd nonempty (Nat.lt_irrefl 0)
  | succ used =>
    unfold Pipe.RingAt at ring
    dsimp only at ring within
    have live := ring.pages_live head (List.mem_cons_self ..)
    have positive := live.1
    have slotsFit := ring.slots_fit.resolve_left (by omega)
    have inSlots : head < slots.length := Nat.lt_of_lt_of_le ring.head_lt slotsFit
    unfold ReadState.deliver Pipe.RingAt Pipe.contentAt
    dsimp only
    generalize found : slots.getD head default = page at *
    constructor
    · intro edited
      by_cases whole : call.delivered = page.len
      · rw [whole, Nat.sub_self, if_pos rfl, if_pos rfl, Nat.add_sub_cancel, ringContent_cons]
        have popped := ring.pop ⟨page.offset + page.len, 0⟩
        have headBytes : pageBytes pipe.state.pageSize pipe.bytes slots head =
            slice pipe.bytes (head * pipe.state.pageSize + page.offset) page.len := by
          unfold pageBytes
          rw [found]
        rw [headBytes]
        by_cases peeking : action = .peek
        · rw [if_pos peeking]
          exact ⟨ring.skip, rfl⟩
        · rw [if_neg peeking, popped.2]
          exact ⟨popped.1, rfl⟩
      · have notPeek : action ≠ .peek := edited.resolve_right whole
        have shortened : ¬ page.len - call.delivered = 0 := by omega
        have consumed := ring.consume
          (by rw [found]; omega : call.delivered < (slots.getD head default).len)
        rw [found] at consumed
        rw [if_neg notPeek, if_neg shortened, if_neg shortened]
        exact consumed
    · intro nothing
      have kept : ¬ page.len - 0 = 0 := by omega
      rw [nothing, if_neg kept, if_neg kept]
      refine ⟨?_, rfl, rfl⟩
      by_cases peeking : action = .peek
      · rw [if_pos peeking]
      · rw [if_neg peeking]
        have unchanged : (⟨page.offset + 0, page.len - 0⟩ : Page) = slots.getD head default :=
          found.symm
        rw [unchanged, List.getD_eq_getElem _ _ inSlots, List.set_getElem_self]

/-- A turn that uses up the head page, followed by the rest of the loop. -/
theorem ReadDone.cons {next after : ReadState} {call : CopyCall} {calls : List CopyCall}
    (nextCalls : next.calls = state.calls ++ [call])
    (nextDone : next.done = state.done + call.delivered)
    (nextSlots : action = .peek -> next.slots = state.slots)
    (nextLength : next.slots.length = state.slots.length)
    (leading : call.chunk <+: pipe.contentAt state)
    (answered : call.delivered = min (copy state.calls call.chunk) call.chunk.length)
    (positive : 0 < call.delivered) (within : next.done <= total)
    (content : pipe.contentAt state = call.chunk.take call.delivered ++ pipe.contentAt next)
    (rest : ReadDone pipe copy action total next after calls) :
    ReadDone pipe copy action total state after (call :: calls) := by
  have taken : (call.chunk.take call.delivered).length = call.delivered := by
    rw [length_take]
    omega
  have unfolded : deliveredBytes (call :: calls) =
      call.chunk.take call.delivered ++ deliveredBytes calls := rfl
  have length := rest.done_eq
  constructor
  · rw [rest.calls_eq, nextCalls, append_assoc, List.singleton_append]
  · rw [unfolded, length_append, taken]
    omega
  · refine ⟨leading, answered, ?_⟩
    rw [content, List.drop_left' taken, <- nextCalls]
    exact rest.hands
  · intro peeking
    rw [rest.peeked peeking, nextSlots peeking]
  · intro consuming
    have restConsumed := rest.consumed consuming
    refine ⟨restConsumed.1, ?_⟩
    rw [content, restConsumed.2, unfolded, append_assoc]
  · intro idle
    omega
  · exact rest.length_eq.trans nextLength
  · exact fun _ => rest.bounded within
  · rcases rest.finished with reached | ⟨short, member, less⟩
    · exact .inl reached
    · exact .inr ⟨short, List.mem_cons_of_mem _ member, less⟩

/-- From any ring that holds enough content, the read loop ends without an
error and hands the content over in order. -/
theorem readLoop_spec (copy : CopyCallback) (action : ReadAction) (turns : Nat)
    (ring : pipe.RingAt state) (enough : total <= state.done + (pipe.contentAt state).length)
    (fuel : total <= state.done + turns) :
    (readLoop pipe copy action total turns state).1 = .ok () ∧ ∃ calls,
      ReadDone pipe copy action total state (readLoop pipe copy action total turns state).2
        calls := by
  induction turns generalizing state with
  | zero => exact ⟨rfl, [], .refl ring fuel⟩
  | succ turns ih =>
    by_cases more : state.done < total
    · have nonempty : 0 < state.used := by
        by_contra empty
        have noContent : pipe.contentAt state = [] := by
          unfold Pipe.contentAt
          rw [Nat.eq_zero_of_not_pos empty]
          rfl
        rw [noContent] at enough
        simp only [List.length_nil] at enough
        omega
      have handed := nextCopy_spec copy total ring nonempty
      dsimp only at handed
      rw [readLoop_succ more handed.1]
      generalize nextCopy pipe copy total state = call at *
      generalize found : state.slots.getD state.head default = page at *
      rcases handed with ⟨live, chunkLength, leading, answered, taken⟩
      have pagePositive := live.1
      have delivered := deliver_spec action ring nonempty call
        (by rw [found]; omega : call.delivered <= (state.slots.getD state.head default).len)
      dsimp only at delivered
      rw [found] at delivered
      have nextDone : (state.deliver pipe.state.capacityPages action call).done =
          state.done + call.delivered := rfl
      have nextCalls : (state.deliver pipe.state.capacityPages action call).calls =
          state.calls ++ [call] := rfl
      have nextSlots : action = .peek ->
          (state.deliver pipe.state.capacityPages action call).slots = state.slots := by
        rintro rfl
        rfl
      have nextLength : (state.deliver pipe.state.capacityPages action call).slots.length =
          state.slots.length := by
        unfold ReadState.deliver
        dsimp only
        split
        · rfl
        · exact length_set
      generalize state.deliver pipe.state.capacityPages action call = next at *
      by_cases whole : call.delivered = page.len
      · -- The page is used up: the loop goes on with the rest of the ring.
        rcases delivered.1 (.inr whole) with ⟨nextRing, content⟩
        have nextEnough : total <= next.done + (pipe.contentAt next).length := by
          have lengths := congrArg List.length content
          rw [length_append, <- taken, length_take] at lengths
          omega
        have rest := ih nextRing nextEnough (by omega)
        have notShort : ¬ call.delivered < min page.len (total - state.done) := by omega
        rw [if_neg notShort]
        rcases rest.2 with ⟨calls, finished⟩
        rw [<- taken] at content
        exact ⟨rest.1, call :: calls, .cons nextCalls nextDone nextSlots nextLength leading
          answered (by omega) (by omega) content finished⟩
      -- The page stays: the callback came short or everything is delivered.
      have last : (if call.delivered < min page.len (total - state.done) then
          (Except.ok (), next) else readLoop pipe copy action total turns next) =
          (.ok (), next) := by
        split
        · rfl
        · exact readLoop_exit pipe copy action turns (by omega)
      rw [last]
      dsimp only
      have takenLength : (call.chunk.take call.delivered).length = call.delivered := by
        rw [length_take]
        omega
      have single : deliveredBytes [call] = call.chunk.take call.delivered :=
        List.flatMap_singleton ..
      refine ⟨rfl, [call], nextCalls, ?_, ⟨leading, answered, trivial⟩, nextSlots, ?_, ?_,
        nextLength, fun _ => by omega, ?_⟩
      · rw [single, takenLength, nextDone]
      · intro consuming
        rw [single, taken]
        exact delivered.1 (.inl consuming)
      · intro idle
        exact delivered.2 (by omega)
      · by_cases short : call.delivered < call.chunk.length
        · exact .inr ⟨call, List.mem_singleton.mpr rfl, short⟩
        · exact .inl (by omega)
    · rw [readLoop_exit pipe copy action (turns + 1) (by omega)]
      exact ⟨rfl, [], .refl ring (by omega)⟩

/-! ## The write loop -/

/-- The content seen from the loop variables of a write. -/
def Pipe.contentIn (pipe : Pipe) (state : WriteState) : List UInt8 :=
  ringContent pipe.state.pageSize pipe.state.capacityPages state.bytes state.slots
    pipe.state.head state.used

/-- The ring described by the loop variables of a write, with storage for the
whole capacity. -/
structure Pipe.RingIn (pipe : Pipe) (state : WriteState) : Prop where
  ring : Ring pipe.state.pageSize pipe.state.capacityPages state.bytes state.slots
    pipe.state.head state.used
  bytes_fit : pipe.state.capacityPages * pipe.state.pageSize <= state.bytes.length
  slots_fit : pipe.state.capacityPages <= state.slots.length

/-- What a part of a write from `state` has done when it ends in `after`. -/
structure WriteDone (pipe : Pipe) (fill : FillCallback) (state after : WriteState)
    (calls : List FillCall) : Prop where
  calls_eq : after.calls = state.calls ++ calls
  done_eq : after.done = state.done + (filledBytes calls).length
  fills : FillsInOrder fill state.calls state.done calls
  ringIn : pipe.RingIn after
  content_eq : pipe.contentIn after = pipe.contentIn state ++ filledBytes calls
  idle : after.done = state.done -> after.slots = state.slots ∧ after.used = state.used

variable {state : WriteState}

theorem WriteDone.refl (ringIn : pipe.RingIn state) :
    WriteDone pipe fill state state [] where
  calls_eq := (append_nil _).symm
  done_eq := rfl
  fills := trivial
  ringIn := ringIn
  content_eq := (append_nil _).symm
  idle := fun _ => ⟨rfl, rfl⟩

theorem FillsInOrder.append {earlier first second : List FillCall} {done : Nat}
    (left : FillsInOrder fill earlier done first)
    (right : FillsInOrder fill (earlier ++ first) (done + (filledBytes first).length) second) :
    FillsInOrder fill earlier done (first ++ second) := by
  induction first generalizing earlier done with
  | nil =>
    rw [append_nil] at right
    exact right
  | cons call rest ih =>
    rcases left with ⟨offset, ⟨before, chunk, filled⟩, later⟩
    refine ⟨offset, ⟨before, chunk, filled⟩, ih later ?_⟩
    have taken : (call.chunk.take call.filled).length = call.filled := by
      rw [length_take, chunk, fill.length_eq]
      omega
    have unfolded : filledBytes (call :: rest) =
        call.chunk.take call.filled ++ filledBytes rest := rfl
    rw [unfolded, length_append, taken, <- Nat.add_assoc] at right
    rw [append_assoc]
    exact right

theorem WriteDone.trans {next after : WriteState} {first second : List FillCall}
    (left : WriteDone pipe fill state next first) (right : WriteDone pipe fill next after second) :
    WriteDone pipe fill state after (first ++ second) := by
  have leftDone := left.done_eq
  have rightDone := right.done_eq
  constructor
  · rw [right.calls_eq, left.calls_eq, append_assoc]
  · rw [filledBytes_append, length_append]
    omega
  · refine left.fills.append ?_
    rw [<- left.calls_eq, <- leftDone]
    exact right.fills
  · exact right.ringIn
  · rw [right.content_eq, left.content_eq, filledBytes_append, append_assoc]
  · intro idle
    have second := right.idle (by omega)
    have first := left.idle (by omega)
    exact ⟨second.1.trans first.1, second.2.trans first.2⟩

theorem WriteDone.single {after : WriteState} {chunk before : List UInt8} {filled : Nat}
    (answer : chunk = (fill.call state.calls state.done before).1)
    (counted : filled = min (fill.call state.calls state.done before).2 before.length)
    (calls : after.calls = state.calls ++ [⟨state.done, chunk, filled⟩])
    (done : after.done = state.done + filled) (ringIn : pipe.RingIn after)
    (content : pipe.contentIn after = pipe.contentIn state ++ chunk.take filled)
    (idle : filled = 0 -> after.slots = state.slots ∧ after.used = state.used) :
    WriteDone pipe fill state after [⟨state.done, chunk, filled⟩] := by
  have single : filledBytes [⟨state.done, chunk, filled⟩] = chunk.take filled :=
    List.flatMap_singleton ..
  have taken : (chunk.take filled).length = filled := by
    rw [length_take, answer, fill.length_eq]
    omega
  refine ⟨calls, ?_, ⟨rfl, ⟨before, answer, counted⟩, trivial⟩, ringIn, ?_, ?_⟩
  · rw [single, taken, done]
  · rw [single, content]
  · intro same
    exact idle (by omega)

/-- The merge appends its filled part to the tail page, or does nothing. -/
theorem mergeTail_spec (fill : FillCallback) (len : Nat)
    (ringIn : pipe.RingIn ⟨pipe.bytes, pipe.slots, pipe.state.used, 0, false, []⟩) :
    ∃ calls, WriteDone pipe fill ⟨pipe.bytes, pipe.slots, pipe.state.used, 0, false, []⟩
      (mergeTail pipe fill len) calls := by
  unfold mergeTail
  dsimp only
  by_cases uneven : pipe.state.used ≠ 0 ∧ len % pipe.state.pageSize ≠ 0
  · rw [if_pos uneven]
    generalize found : pipe.slots.getD (pipe.slotIndex (pipe.state.used - 1)) default = page
    by_cases fits : page.offset + page.len + len % pipe.state.pageSize <= pipe.state.pageSize
    · rw [if_pos fits]
      rcases Nat.exists_eq_succ_of_ne_zero uneven.1 with ⟨used, used_eq⟩
      have ring := ringIn.ring
      have bytesFit := ringIn.bytes_fit
      dsimp only at ring bytesFit
      rw [used_eq] at ring
      have isTail : pipe.slotIndex (pipe.state.used - 1) =
          (pipe.state.head + used) % pipe.state.capacityPages := by
        rw [used_eq]
        rfl
      have below : pipe.slotIndex (pipe.state.used - 1) < pipe.state.capacityPages := by
        rw [isTail]
        exact Nat.mod_lt _ (by have := ring.used_le; omega)
      have stretch := page_stretch_le pipe.state.pageSize below
      generalize pipe.slotIndex (pipe.state.used - 1) = tail at *
      have beforeLength : (slice pipe.bytes (tail * pipe.state.pageSize +
          (page.offset + page.len)) (len % pipe.state.pageSize)).length =
          len % pipe.state.pageSize := length_slice (by omega)
      generalize slice pipe.bytes (tail * pipe.state.pageSize +
        (page.offset + page.len)) (len % pipe.state.pageSize) = before at *
      have chunkLength := fill.length_eq [] 0 before
      have grown := ring.grow isTail found
        (by omega : min (fill.call [] 0 before).2 before.length <= (fill.call [] 0 before).1.length)
        (by omega)
      refine ⟨[⟨0, (fill.call [] 0 before).1, min (fill.call [] 0 before).2 before.length⟩], ?_⟩
      rw [<- beforeLength]
      refine .single rfl rfl rfl (Nat.zero_add _).symm ⟨?_, ?_, ?_⟩ ?_ ?_
      · show Ring _ _ _ _ _ pipe.state.used
        rw [used_eq]
        exact grown.1
      · show _ <= (overwrite _ _ _).length
        rw [length_overwrite (by omega)]
        exact bytesFit
      · show _ <= (List.set _ _ _).length
        rw [length_set]
        exact ringIn.slots_fit
      · show ringContent _ _ _ _ _ pipe.state.used = ringContent _ _ _ _ _ pipe.state.used ++ _
        rw [used_eq]
        exact grown.2
      intro nothing
      refine ⟨?_, rfl⟩
      have inSlots : tail < pipe.slots.length := Nat.lt_of_lt_of_le below ringIn.slots_fit
      have unchanged : (⟨page.offset, page.len + min (fill.call [] 0 before).2 before.length⟩ :
          Page) = pipe.slots.getD tail default := by
        rw [nothing, found]
        rfl
      show pipe.slots.set tail _ = pipe.slots
      rw [unchanged, List.getD_eq_getElem _ _ inSlots, List.set_getElem_self]
    · rw [if_neg fits]
      exact ⟨[], .refl ringIn⟩
  · rw [if_neg uneven]
    exact ⟨[], .refl ringIn⟩

/-- The write loop appends whole chunks to the ring, in source order. -/
theorem writeLoop_spec (fill : FillCallback) (len turns : Nat)
    (ringIn : pipe.RingIn state) :
    ∃ calls, WriteDone pipe fill state (writeLoop pipe fill len turns state) calls := by
  induction turns generalizing state with
  | zero => exact ⟨[], .refl ringIn⟩
  | succ turns ih =>
    unfold writeLoop
    by_cases more : state.faulted = false ∧ state.done < len ∧
        state.used < pipe.state.capacityPages
    · rw [if_pos more]
      dsimp only
      have bytesFit := ringIn.bytes_fit
      have room := more.2.2
      have below : pipe.slotIndex state.used < pipe.state.capacityPages :=
        Nat.mod_lt _ (by omega)
      have stretch := page_stretch_le pipe.state.pageSize below
      have beforeLength : (slice state.bytes (pipe.slotIndex state.used * pipe.state.pageSize)
          (min pipe.state.pageSize (len - state.done))).length =
          min pipe.state.pageSize (len - state.done) := length_slice (by omega)
      generalize slice state.bytes (pipe.slotIndex state.used * pipe.state.pageSize)
        (min pipe.state.pageSize (len - state.done)) = before at *
      rw [<- beforeLength]
      have chunkLength := fill.length_eq state.calls state.done before
      generalize answered : fill.call state.calls state.done before = answer at *
      generalize counted : min answer.2 before.length = filled
      have firstAnswer : answer.1 = (fill.call state.calls state.done before).1 := by
        rw [answered]
      have secondAnswer : filled = min (fill.call state.calls state.done before).2
          before.length := by
        rw [answered, counted]
      have inside : pipe.slotIndex state.used * pipe.state.pageSize + answer.1.length <=
          state.bytes.length := by omega
      by_cases nothing : filled = 0
      · rw [if_pos nothing]
        have scribbled := ringIn.ring.scribble below (next_not_mem ringIn.ring.head_lt room)
          (by omega : answer.1.length <= pipe.state.pageSize) bytesFit
        refine ⟨_, .single firstAnswer secondAnswer rfl ?_
          ⟨scribbled.1, ?_, ringIn.slots_fit⟩ ?_ ?_⟩
        · rw [nothing]
          rfl
        · rw [length_overwrite inside]
          exact bytesFit
        · rw [nothing, List.take_zero, append_nil]
          exact scribbled.2
        · exact fun _ => ⟨rfl, rfl⟩
      rw [if_neg nothing]
      have pushed := ringIn.ring.push room (Nat.pos_of_ne_zero nothing)
        (by omega : filled <= answer.1.length) (by omega) bytesFit ringIn.slots_fit
      have turn : WriteDone pipe fill state
          { bytes := overwrite state.bytes (pipe.slotIndex state.used * pipe.state.pageSize)
              answer.1
            slots := state.slots.set (pipe.slotIndex state.used) ⟨0, filled⟩
            used := state.used + 1
            done := state.done + filled
            faulted := decide (filled < before.length)
            calls := state.calls ++ [⟨state.done, answer.1, filled⟩] }
          [⟨state.done, answer.1, filled⟩] := by
        refine .single firstAnswer secondAnswer rfl rfl ⟨pushed.1, ?_, ?_⟩ pushed.2 ?_
        · rw [length_overwrite inside]
          exact bytesFit
        · rw [length_set]
          exact ringIn.slots_fit
        · exact fun impossible => absurd impossible nothing
      rcases ih turn.ringIn with ⟨calls, rest⟩
      exact ⟨_, turn.trans rest⟩
    · rw [if_neg more]
      exact ⟨[], .refl ringIn⟩

/-- With a turn for every free page, the write loop stops because a fill came
short, the whole length is written or the ring is full. -/
theorem writeLoop_finished (pipe : Pipe) (fill : FillCallback) (len : Nat) {turns : Nat}
    (fuel : pipe.state.capacityPages <= state.used + turns) :
    (writeLoop pipe fill len turns state).faulted = true ∨
      len <= (writeLoop pipe fill len turns state).done ∨
      pipe.state.capacityPages <= (writeLoop pipe fill len turns state).used := by
  induction turns generalizing state with
  | zero => exact .inr (.inr fuel)
  | succ turns ih =>
    unfold writeLoop
    by_cases more : state.faulted = false ∧ state.done < len ∧
        state.used < pipe.state.capacityPages
    · rw [if_pos more]
      dsimp only
      split
      · exact .inl rfl
      · apply ih
        show pipe.state.capacityPages <= state.used + 1 + turns
        omega
    rw [if_neg more]
    by_cases short : state.faulted = true
    · exact .inl short
    · have whole := Bool.eq_false_iff.mpr short
      by_cases written : len <= state.done
      · exact .inr (.inl written)
      · exact .inr (.inr (Nat.le_of_not_lt fun room => more ⟨whole, by omega, room⟩))

end PipeCore
end Carrick
