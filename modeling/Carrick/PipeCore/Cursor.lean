import Carrick.Foundation.Stages
import Carrick.PipeCore.Wake

namespace Carrick
namespace PipeCore

open Foundation

/-!
# Atomic small writes and resumed large ones

A write of at most one page finds room for all of itself or for nothing.  A
larger write may stop wherever the ring is full; its cursor keeps the offset it
has reached, and each later step asks for the rest from that offset on.
-/

/-- The byte progress of one blocking write. -/
structure WriteProgress where
  len : Nat
  written : Nat
  deriving DecidableEq, Repr

namespace WriteProgress

def new (len : Nat) : WriteProgress := ⟨len, 0⟩

def remaining (progress : WriteProgress) : Nat := progress.len - progress.written

def isComplete (progress : WriteProgress) : Bool := decide (progress.len <= progress.written)

end WriteProgress

/-- The callback asked for offsets from `base` on.  It remembers its earlier
calls by the offsets of the original source. -/
def FillCallback.shifted (fill : FillCallback) (base : Nat) : FillCallback where
  call := fun calls offset chunk =>
    fill.call (calls.map fun call => { call with offset := base + call.offset }) (base + offset)
      chunk
  length_eq := fun _ offset chunk => fill.length_eq _ (base + offset) chunk

/-- Resumes a suspended write over the part that is not written yet. -/
def Pipe.writeProgress (pipe : Pipe) (progress : WriteProgress) (fill : FillCallback) :
    Transfer FillCall × WriteProgress :=
  let transfer := pipe.writeWith progress.remaining (fill.shifted progress.written)
  match transfer.step.result with
  | .ok count => (transfer, { progress with written := progress.written + count })
  | .error _ => (transfer, progress)

structure WriteCursor where
  source : List UInt8
  progress : WriteProgress

namespace WriteCursor

def new (source : List UInt8) : WriteCursor := ⟨source, .new source.length⟩

def written (cursor : WriteCursor) : Nat := cursor.progress.written

def isComplete (cursor : WriteCursor) : Bool := cursor.progress.isComplete

def advance (cursor : WriteCursor) (pipe : Pipe) : Transfer FillCall × WriteCursor :=
  let resumed := pipe.writeProgress cursor.progress (fillFrom cursor.source)
  (resumed.1, { cursor with progress := resumed.2 })

end WriteCursor

/-! ## A write of at most one page -/

/-- The callback fills every chunk it is handed. -/
def FillCallback.FillsWhole (fill : FillCallback) : Prop :=
  ∀ calls offset chunk, chunk.length <= (fill.call calls offset chunk).2

section Small

variable {pipe : Pipe} {fill : FillCallback} {len : Nat}

theorem writeLoop_of_written {turns : Nat} {state : WriteState} (written : len <= state.done) :
    writeLoop pipe fill len turns state = state := by
  cases turns with
  | zero => rfl
  | succ turns =>
    unfold writeLoop
    rw [if_neg (fun more => absurd more.2.1 (Nat.not_lt_of_le written))]

theorem mergeTail_whole (wellFormed : WellFormed pipe) (backed : pipe.isBacked = true)
    (whole : fill.FillsWhole) (small : len <= pipe.state.pageSize) (merges : pipe.Merges len) :
    (mergeTail pipe fill len).done = len := by
  rcases merges with ⟨used, uneven, fits⟩
  have below : len < pipe.state.pageSize := by
    rcases Nat.lt_or_eq_of_le small with less | same
    · exact less
    · rw [same, Nat.mod_self] at uneven
      exact absurd rfl uneven
  have remainder : len % pipe.state.pageSize = len := Nat.mod_eq_of_lt below
  have inside : pipe.slotIndex (pipe.state.used - 1) < pipe.state.capacityPages :=
    Nat.mod_lt _ (by have := wellFormed.ring.used_le; omega)
  have stretch := page_stretch_le pipe.state.pageSize inside
  have storage := (isBacked_iff.mp backed).1
  unfold mergeTail
  dsimp only
  rw [if_pos ⟨used, uneven⟩, if_pos fits]
  dsimp only
  rw [remainder] at fits ⊢
  refine Nat.min_eq_right ?_
  refine Nat.le_trans (Nat.le_of_eq ?_) (whole _ _ _)
  exact (length_slice (by omega)).symm

theorem writeLoop_whole (ringIn : pipe.RingIn ⟨pipe.bytes, pipe.slots, pipe.state.used, 0, false, []⟩)
    (whole : fill.FillsWhole) (positive : 0 < len) (small : len <= pipe.state.pageSize)
    (room : pipe.state.used < pipe.state.capacityPages) {turns : Nat} (fuel : 0 < turns) :
    (writeLoop pipe fill len turns
      ⟨pipe.bytes, pipe.slots, pipe.state.used, 0, false, []⟩).done = len := by
  rcases Nat.exists_eq_succ_of_ne_zero (Nat.pos_iff_ne_zero.mp fuel) with ⟨rest, rfl⟩
  have inside : pipe.slotIndex pipe.state.used < pipe.state.capacityPages :=
    Nat.mod_lt _ (by omega)
  have stretch := page_stretch_le pipe.state.pageSize inside
  have storage := ringIn.bytes_fit
  dsimp only at storage
  have taken : min pipe.state.pageSize (len - 0) = len := by omega
  have length : (slice pipe.bytes (pipe.slotIndex pipe.state.used * pipe.state.pageSize)
      len).length = len := length_slice (by omega)
  have filled : min (fill.call [] 0 (slice pipe.bytes
      (pipe.slotIndex pipe.state.used * pipe.state.pageSize) len)).2 len = len := by
    refine Nat.min_eq_right ?_
    exact Nat.le_trans (Nat.le_of_eq length.symm) (whole _ _ _)
  unfold writeLoop
  rw [if_pos ⟨rfl, positive, room⟩]
  dsimp only
  rw [taken, filled, if_neg (Nat.pos_iff_ne_zero.mp positive), Nat.zero_add]
  rw [writeLoop_of_written (Nat.le_refl len)]

/-- What becomes of a write of at most one page by a callback that fills whole
chunks: all of it is appended, or nothing. -/
structure SmallWrite (pipe : Pipe) (len : Nat) (fill : FillCallback) : Prop where
  whole_or_none :
    ((pipe.writeWith len fill).step.result = .ok len ∧
        (filledBytes (pipe.writeWith len fill).calls).length = len ∧
        (pipe.writeWith len fill).pipe.content =
          pipe.content ++ filledBytes (pipe.writeWith len fill).calls) ∨
      ((pipe.writeWith len fill).pipe.content = pipe.content ∧
        ((pipe.writeWith len fill).step.result = .error (.wouldBlock .writable) ∨
          pipe.state.readers = 0 ∧ (pipe.writeWith len fill).step.result = .error .brokenPipe ∨
          pipe.revisionAvailable = false ∧
            (pipe.writeWith len fill).step.result = .error .revisionExhausted))
  succeeds : pipe.state.readers ≠ 0 -> pipe.revisionAvailable = true ->
    (pipe.state.readiness .writer).writable = true ->
    (pipe.writeWith len fill).step.result = .ok len

/-- The answer of a small write that nothing refuses before the ring is looked
at. -/
theorem writeWith_small (wellFormed : WellFormed pipe) (backed : pipe.isBacked = true)
    (whole : fill.FillsWhole) (positive : 0 < len) (small : len <= pipe.state.pageSize)
    (readers : pipe.state.readers ≠ 0) (available : pipe.revisionAvailable = true) :
    (pipe.Full len ∧ (pipe.writeWith len fill).step.result = .error (.wouldBlock .writable)) ∨
      (¬ pipe.Full len ∧ (pipe.writeWith len fill).step.result = .ok len) := by
  by_cases full : pipe.Full len
  · refine .inl ⟨full, ?_⟩
    exact (writeWith_blocks_iff wellFormed positive fill).mpr ⟨readers, backed, available, full⟩
  refine .inr ⟨full, ?_⟩
  have done : (writeLoop pipe fill len pipe.state.capacityPages
      (mergeTail pipe fill len)).done = len := by
    by_cases merges : pipe.Merges len
    · have merged := mergeTail_whole wellFormed backed whole small merges
      rw [writeLoop_of_written (Nat.le_of_eq merged.symm), merged]
    have room : pipe.state.used < pipe.state.capacityPages := by
      by_contra filled
      exact full ⟨Nat.le_of_not_lt filled, merges⟩
    rw [mergeTail_of_not_merges fill merges]
    exact writeLoop_whole (wellFormed.ringIn backed) whole positive small room
      (Nat.lt_of_le_of_lt (Nat.zero_le _) room)
  unfold Pipe.writeWith
  rw [if_neg (Nat.pos_iff_ne_zero.mp positive), if_neg readers,
    if_neg (by rw [backed]; decide), if_neg (by rw [available]; decide)]
  dsimp only
  rw [done, if_pos (Nat.pos_iff_ne_zero.mp positive)]
  rfl

theorem small_write (wellFormed : WellFormed pipe) (backed : pipe.isBacked = true)
    (whole : fill.FillsWhole) (small : len <= pipe.state.pageSize) : SmallWrite pipe len fill := by
  rcases writeWith_spec wellFormed len fill with ⟨_, content, _, answers⟩
  have appended (answer : (pipe.writeWith len fill).step.result = .ok len) :
      (filledBytes (pipe.writeWith len fill).calls).length = len := by
    rw [answer] at answers
    exact answers.symm
  have unchanged {error : Error} (answer : (pipe.writeWith len fill).step.result = .error error) :
      (pipe.writeWith len fill).pipe.content = pipe.content := by
    rw [answer] at answers
    rw [content, answers.1, List.append_nil]
  rcases Nat.eq_zero_or_pos len with rfl | positive
  · have answer : (pipe.writeWith 0 fill).step.result = .ok 0 := rfl
    exact ⟨.inl ⟨answer, appended answer, content⟩, fun _ _ _ => answer⟩
  by_cases readers : pipe.state.readers = 0
  · have answer : (pipe.writeWith len fill).step.result = .error .brokenPipe := by
      unfold Pipe.writeWith
      rw [if_neg (Nat.pos_iff_ne_zero.mp positive), if_pos readers]
      rfl
    exact ⟨.inr ⟨unchanged answer, .inr (.inl ⟨readers, answer⟩)⟩,
      fun left => absurd readers left⟩
  cases available : pipe.revisionAvailable with
  | false =>
    have answer := writeWith_exhausted positive fill readers backed available
    exact ⟨.inr ⟨unchanged answer, .inr (.inr ⟨available, answer⟩)⟩,
      fun _ more => by rw [available] at more; cases more⟩
  | true =>
    rcases writeWith_small wellFormed backed whole positive small readers available with
      ⟨full, answer⟩ | ⟨_, answer⟩
    · refine ⟨.inr ⟨unchanged answer, .inl answer⟩, ?_⟩
      intro _ _ writable
      exact absurd (of_decide_eq_true writable) (Nat.not_lt_of_le full.1)
    · exact ⟨.inl ⟨answer, appended answer, content⟩, fun _ _ _ => answer⟩

end Small

/-! ## A resumed write -/

inductive Writer where
  | cursor
  | other
  deriving DecidableEq, Repr

/-- One step at a pipe: the cursor goes on, or anything else happens. -/
inductive CursorEvent where
  | advance
  | other (operation : Operation)

/-- A pipe and a cursor, with the bytes read so far and the chunks that were
appended, oldest first, each with who appended it. -/
structure Relay where
  pipe : Pipe
  cursor : WriteCursor
  delivered : List UInt8
  appended : List (Writer × List UInt8)

/-- The bytes an operation appends. -/
def Pipe.appendedBy (pipe : Pipe) : Operation -> List UInt8
  | .writeWith len fill => filledBytes (pipe.writeWith len fill).calls
  | _ => []

/-- The bytes an operation takes out. -/
def Pipe.deliveredBy (pipe : Pipe) : Operation -> List UInt8
  | .readWith max copy => deliveredBytes (pipe.readWith max copy).calls
  | .consume count => deliveredBytes (pipe.consume count).calls
  | _ => []

def CursorEvent.run (relay : Relay) : CursorEvent -> Relay
  | .advance =>
    { relay with
      pipe := (relay.cursor.advance relay.pipe).1.pipe
      cursor := (relay.cursor.advance relay.pipe).2
      appended := relay.appended ++
        [(.cursor, filledBytes (relay.cursor.advance relay.pipe).1.calls)] }
  | .other operation =>
    { relay with
      pipe := (relay.pipe.apply operation).2
      delivered := relay.delivered ++ relay.pipe.deliveredBy operation
      appended := relay.appended ++ [(.other, relay.pipe.appendedBy operation)] }

/-- The relay before the event at position `n`. -/
def relayAt (pipe : Pipe) (source : List UInt8) (events : List CursorEvent) (n : Nat) : Relay :=
  stage CursorEvent.run ⟨pipe, .new source, [], []⟩ events n

/-- Everything appended since the start, in order. -/
def Relay.stream (relay : Relay) : List UInt8 :=
  relay.appended.flatMap (fun chunk => chunk.2)

/-- What the cursor appended, in order. -/
def Relay.ownBytes (relay : Relay) : List UInt8 :=
  (relay.appended.filter (fun chunk => decide (chunk.1 = .cursor))).flatMap (fun chunk => chunk.2)

/-- The bytes of the cursor in the stream that leaves the pipe are the source as
far as the cursor says, and the whole source when it is complete. -/
structure Resumed (pipe : Pipe) (source : List UInt8) (relay : Relay) : Prop where
  stream : pipe.content ++ relay.stream = relay.delivered ++ relay.pipe.content
  own : relay.ownBytes = source.take relay.cursor.written
  bounded : relay.cursor.written <= source.length
  complete : relay.cursor.isComplete = true -> relay.ownBytes = source

section Resumption

variable {pipe : Pipe}

/-- Every operation moves the content as its appended and delivered bytes say. -/
theorem apply_content (wellFormed : WellFormed pipe) (operation : Operation) :
    pipe.content ++ pipe.appendedBy operation =
      pipe.deliveredBy operation ++ (pipe.apply operation).2.content := by
  cases operation with
  | writeWith len fill => exact (writeWith_spec wellFormed len fill).2.1.symm
  | readWith max copy =>
    have consumed := (readAction_spec wellFormed max copy .copyAndConsume).consumed (by decide)
    exact (List.append_nil _).trans consumed
  | consume count =>
    have consumed := (consume_spec wellFormed count).1.consumed (by decide)
    exact (List.append_nil _).trans consumed
  | peekWith max copy =>
    have peeked := (readAction_spec wellFormed max copy .peek).peeked rfl
    exact (List.append_nil _).trans (congrArg Pipe.content peeked).symm
  | setCapacity requested growthLimit =>
    exact (List.append_nil _).trans (setCapacity_spec wellFormed requested growthLimit).2.1.symm
  | replaceStorage bytes slots =>
    exact (List.append_nil _).trans (wellFormed.replaced bytes slots).1.symm
  | retain endpoint => exact (List.append_nil _).trans (retain_spec wellFormed endpoint).2.1.symm
  | release endpoint => exact (List.append_nil _).trans (release_spec wellFormed endpoint).2.1.symm

theorem shifted_copiesFrom {fill : FillCallback} {source : List UInt8}
    (copies : fill.CopiesFrom source) (base : Nat) :
    (fill.shifted base).CopiesFrom (source.drop base) := by
  intro calls offset chunk
  refine (copies _ (base + offset) chunk).trans ?_
  unfold slice
  rw [List.drop_drop]
  rfl

/-- One step of the cursor appends the next bytes of the source, as many as it
counts. -/
theorem advance_spec (wellFormed : WellFormed pipe) (cursor : WriteCursor) :
    WellFormed (cursor.advance pipe).1.pipe ∧
      (cursor.advance pipe).1.pipe.content =
        pipe.content ++ filledBytes (cursor.advance pipe).1.calls ∧
      (cursor.advance pipe).2.source = cursor.source ∧
      (cursor.advance pipe).2.progress.len = cursor.progress.len ∧
      ∃ count, (cursor.advance pipe).2.written = cursor.written + count ∧
        filledBytes (cursor.advance pipe).1.calls =
          (cursor.source.drop cursor.written).take count ∧
        (filledBytes (cursor.advance pipe).1.calls).length = count := by
  rcases writeWith_spec wellFormed cursor.progress.remaining
    ((fillFrom cursor.source).shifted cursor.progress.written) with
    ⟨formed, content, fills, answers⟩
  have published := fills.source_eq
    (shifted_copiesFrom (fillFrom_copiesFrom cursor.source) cursor.progress.written)
  unfold WriteCursor.advance Pipe.writeProgress WriteCursor.written
  dsimp only
  generalize pipe.writeWith cursor.progress.remaining
    ((fillFrom cursor.source).shifted cursor.progress.written) = transfer at *
  cases answer : transfer.step.result with
  | ok count =>
    rw [answer] at answers
    have counted : count = (filledBytes transfer.calls).length := answers
    refine ⟨formed, content, rfl, rfl, count, rfl, ?_, counted.symm⟩
    rw [<- counted] at published
    exact published
  | error error =>
    rw [answer] at answers
    refine ⟨formed, content, rfl, rfl, 0, rfl, ?_, ?_⟩
    · rw [answers.1, List.take_zero]
    · rw [answers.1, List.length_nil]

theorem Relay.stream_append (relay : Relay) (chunk : Writer × List UInt8) :
    (relay.appended ++ [chunk]).flatMap (fun chunk => chunk.2) = relay.stream ++ chunk.2 := by
  rw [List.flatMap_append, List.flatMap_singleton]
  rfl

/-- What every event keeps: the bytes of the write are a prefix of its source,
as long as the cursor says, in the order of the stream. -/
structure Resuming (pipe : Pipe) (source : List UInt8) (relay : Relay) : Prop where
  wellFormed : WellFormed relay.pipe
  stream : pipe.content ++ relay.stream = relay.delivered ++ relay.pipe.content
  own : relay.ownBytes = source.take relay.cursor.written
  source_eq : relay.cursor.source = source
  len_eq : relay.cursor.progress.len = source.length
  bounded : relay.cursor.written <= source.length

theorem Resuming.advance {source : List UInt8} {relay : Relay}
    (resuming : Resuming pipe source relay) :
    Resuming pipe source (CursorEvent.run relay .advance) := by
  rcases advance_spec resuming.wellFormed relay.cursor with
    ⟨formed, content, sameSource, sameLen, count, written, published, length⟩
  constructor
  · exact formed
  · dsimp only [CursorEvent.run, Relay.stream]
    rw [Relay.stream_append, content, <- List.append_assoc, <- List.append_assoc,
      resuming.stream]
  · dsimp only [CursorEvent.run, Relay.ownBytes]
    rw [List.filter_append, List.flatMap_append, written, List.take_add]
    refine congrArg₂ (· ++ ·) resuming.own ?_
    rw [<- resuming.source_eq, <- published]
    exact List.flatMap_singleton ..
  · exact sameSource.trans resuming.source_eq
  · exact sameLen.trans resuming.len_eq
  · dsimp only [CursorEvent.run]
    rw [published, List.length_take, List.length_drop, resuming.source_eq] at length
    have bounded := resuming.bounded
    omega

theorem Resuming.other {source : List UInt8} {relay : Relay}
    (resuming : Resuming pipe source relay) (operation : Operation) :
    Resuming pipe source (CursorEvent.run relay (.other operation)) := by
  constructor
  · exact apply_wellFormed resuming.wellFormed operation
  · dsimp only [CursorEvent.run, Relay.stream]
    rw [Relay.stream_append, <- List.append_assoc, resuming.stream, List.append_assoc,
      apply_content resuming.wellFormed operation, List.append_assoc]
  · dsimp only [CursorEvent.run, Relay.ownBytes]
    rw [List.filter_append, List.flatMap_append]
    exact (List.append_nil _).trans resuming.own
  · exact resuming.source_eq
  · exact resuming.len_eq
  · exact resuming.bounded

theorem relayAt_resumed (wellFormed : WellFormed pipe) (source : List UInt8)
    (events : List CursorEvent) (n : Nat) : Resumed pipe source (relayAt pipe source events n) := by
  have resuming : Resuming pipe source (relayAt pipe source events n) := by
    refine stage_invariant (Resuming pipe source) ?_ ?_ n
    · exact ⟨wellFormed, List.append_nil _, rfl, rfl, rfl, Nat.zero_le _⟩
    · intro relay event _ held
      cases event with
      | advance => exact held.advance
      | other operation => exact held.other operation
  refine ⟨resuming.stream, resuming.own, resuming.bounded, ?_⟩
  intro complete
  have whole : source.length <= (relayAt pipe source events n).cursor.written := by
    rw [<- resuming.len_eq]
    exact of_decide_eq_true complete
  rw [resuming.own, List.take_of_length_le whole]

end Resumption

/-- On every pipe that any operations reach, small writes are atomic, and a
resumed write puts its source into the stream once and in order, whatever else
happens at the pipe between its steps. -/
theorem reachable_pipe_writes {history : List Operation} {pipe : Pipe}
    (run : Run starts step history pipe) :
    (pipe.isBacked = true -> ∀ len fill, FillCallback.FillsWhole fill ->
        len <= pipe.state.pageSize -> SmallWrite pipe len fill) ∧
      ∀ source events n, Resumed pipe source (relayAt pipe source events n) := by
  have wellFormed := run_wellFormed run
  constructor
  · intro backed len fill whole small
    exact small_write wellFormed backed whole small
  · exact relayAt_resumed wellFormed

/-- A fresh pipe of one page with its storage. -/
def backedPipe : Pipe := ⟨.fresh 4096 1, List.replicate 4096 0, [default], none⟩

theorem backedPipe_starts : starts backedPipe := by
  refine ⟨.inl rfl, 4096, 4096, .inl ?_⟩
  show PipeRecord.new (List.replicate 4096 0).length 1 4096 4096 = .ok (.fresh 4096 1)
  rw [List.length_replicate]
  rfl

theorem backedPipe_backed : backedPipe.isBacked = true := by
  refine isBacked_iff.mpr ⟨?_, Nat.le_refl 1⟩
  show 1 * 4096 <= (List.replicate 4096 0).length
  rw [List.length_replicate]

theorem fillWhole_fillsWhole : fillWhole.FillsWhole :=
  fun _ _ chunk => Nat.le_refl chunk.length

theorem reachable_pipe_writes_small :
    Run starts step [] backedPipe ∧ backedPipe.isBacked = true ∧
      SmallWrite backedPipe 2 fillWhole ∧
      Resumed backedPipe [7, 8, 9]
        (relayAt backedPipe [7, 8, 9] [.advance, .other (.readWith 1 takeWhole)] 2) := by
  have run : Run starts step [] backedPipe := .initial backedPipe_starts
  have writes := reachable_pipe_writes run
  refine ⟨run, backedPipe_backed, ?_, writes.2 _ _ _⟩
  exact writes.1 backedPipe_backed 2 fillWhole fillWhole_fillsWhole (by decide)

/-- Without readers a pipe with a free page says it is writable, and refuses a
write of one byte as broken. -/
theorem writable_pipe_without_readers_refuses :
    ∃ history pipe, Run starts step history pipe ∧ pipe.isBacked = true ∧
      fillWhole.FillsWhole ∧ 1 <= pipe.state.pageSize ∧
      (pipe.state.readiness .writer).writable = true ∧
      (pipe.writeWith 1 fillWhole).step.result = .error .brokenPipe := by
  refine ⟨[.release .reader], (backedPipe.release .reader).2,
    .next (.initial backedPipe_starts) rfl, ?_, fillWhole_fillsWhole, by decide, rfl, rfl⟩
  exact backedPipe_backed

end PipeCore
end Carrick
