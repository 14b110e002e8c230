import Carrick.Foundation.Run
import Carrick.PipeCore.Transfer

namespace Carrick
namespace PipeCore

open Foundation

/-!
# A pipe is one byte queue

`WellFormed` is the invariant of every pipe that the operations can reach: the
record describes its storage and `unread` is the length of the content.  Under
it each operation acts on the content as on a queue of bytes: a write appends
what its callback filled, a read or a commit removes what was delivered, and
nothing else changes the content.
-/

structure WellFormed (pipe : Pipe) : Prop where
  page_valid : validatePageSize pipe.state.pageSize = .ok ()
  capacity_le : pipe.state.capacity <= i32Max
  backing : pipe.isBacked = true ∨ (pipe.bytes = [] ∧ pipe.slots = [] ∧ pipe.state.used = 0)
  ring : Ring pipe.state.pageSize pipe.state.capacityPages pipe.bytes pipe.slots
    pipe.state.head pipe.state.used
  unread_eq : pipe.state.unread = pipe.content.length

theorem validatePageSize_ok {pageSize : Nat} (valid : validatePageSize pageSize = .ok ()) :
    0 < pageSize ∧ pageSize <= maxPageSize ∧ 2 ^ Nat.log 2 pageSize = pageSize := by
  unfold validatePageSize at valid
  split at valid
  · rename_i bounds
    have small : 0 < pipeBuf := by decide
    exact ⟨by omega, bounds.2⟩
  · cases valid

theorem roundedCapacity_ok {pageSize requested capacity : Nat}
    (rounded : roundedCapacity pageSize requested = .ok capacity) :
    validatePageSize pageSize = .ok () ∧ capacity <= i32Max ∧ 0 < capacity / pageSize ∧
      capacity / pageSize * pageSize = capacity := by
  unfold roundedCapacity at rounded
  cases valid : validatePageSize pageSize with
  | error error =>
    rw [valid] at rounded
    cases rounded
  | ok done =>
    rw [valid] at rounded
    dsimp only at rounded
    split at rounded
    · rename_i bounded
      cases rounded
      rcases validatePageSize_ok valid with ⟨positive, _, power⟩
      have large : pageSize <= 2 ^ Nat.clog 2 (max requested pageSize) :=
        Nat.le_trans (Nat.le_max_right _ _) (Nat.le_pow_clog (by decide) _)
      have divides : pageSize ∣ 2 ^ Nat.clog 2 (max requested pageSize) := by
        rw [<- power] at large ⊢
        exact Nat.pow_dvd_pow 2 ((Nat.pow_le_pow_iff_right (by decide)).mp large)
      exact ⟨rfl, bounded, Nat.div_pos large positive, Nat.div_mul_cancel divides⟩
    · cases rounded

variable {pipe : Pipe}

theorem isBacked_iff :
    pipe.isBacked = true <-> pipe.state.capacityPages * pipe.state.pageSize <= pipe.bytes.length ∧
      pipe.state.capacityPages <= pipe.slots.length := by
  unfold Pipe.isBacked PipeRecord.capacity
  rw [Bool.and_eq_true, decide_eq_true_eq, decide_eq_true_eq]

/-- A fresh record is well formed over any storage that holds its capacity. -/
theorem WellFormed.fresh {pageSize pages : Nat} {bytes : List UInt8} {slots : List Page}
    {revision : Option Nat} (valid : validatePageSize pageSize = .ok ()) (positive : 0 < pages)
    (small : pages * pageSize <= i32Max)
    (backing : (pages * pageSize <= bytes.length ∧ pages <= slots.length) ∨
      (bytes = [] ∧ slots = [])) :
    WellFormed ⟨.fresh pageSize pages, bytes, slots, revision⟩ where
  page_valid := valid
  capacity_le := small
  backing := by
    rcases backing with backed | ⟨noBytes, noSlots⟩
    · exact .inl (isBacked_iff.mpr backed)
    · exact .inr ⟨noBytes, noSlots, rfl⟩
  ring := ⟨positive, Nat.zero_le _, .inl rfl, .inl rfl, nofun⟩
  unread_eq := rfl

/-- Operations that leave the storage and the queue fields alone keep the pipe
well formed. -/
theorem WellFormed.congr {other : Pipe} (wellFormed : WellFormed pipe)
    (pageSize : other.state.pageSize = pipe.state.pageSize)
    (pages : other.state.capacityPages = pipe.state.capacityPages)
    (head : other.state.head = pipe.state.head) (used : other.state.used = pipe.state.used)
    (unread : other.state.unread = pipe.state.unread) (bytes : other.bytes = pipe.bytes)
    (slots : other.slots = pipe.slots) : WellFormed other ∧ other.content = pipe.content := by
  rcases pipe with ⟨⟨_, _, _, _, _, _, _⟩, _, _, _⟩
  rcases other with ⟨⟨_, _, _, _, _, _, _⟩, _, _, _⟩
  dsimp only at *
  subst pageSize pages head used unread bytes slots
  exact ⟨⟨wellFormed.page_valid, wellFormed.capacity_le, wellFormed.backing, wellFormed.ring,
    wellFormed.unread_eq⟩, rfl⟩

theorem WellFormed.advanceRevision (wellFormed : WellFormed pipe) :
    WellFormed pipe.advanceRevision ∧ pipe.advanceRevision.content = pipe.content :=
  wellFormed.congr rfl rfl rfl rfl rfl rfl rfl

/-- The answer of a transfer: the number of bytes it moved, or an error other
than `corrupt` after moving none. -/
def Answers (result : Except Error Nat) (moved : List UInt8) : Prop :=
  match result with
  | .ok count => count = moved.length
  | .error error => moved = [] ∧ error ≠ .corrupt

/-! ## The operations -/

section Operations

theorem WellFormed.ringIn (wellFormed : WellFormed pipe) (backed : pipe.isBacked = true) :
    pipe.RingIn ⟨pipe.bytes, pipe.slots, pipe.state.used, 0, false, []⟩ :=
  ⟨wellFormed.ring, (isBacked_iff.mp backed).1, (isBacked_iff.mp backed).2⟩

theorem WellFormed.published (wellFormed : WellFormed pipe) {after : WriteState}
    {fill : FillCallback} {calls : List FillCall}
    (done : WriteDone pipe fill ⟨pipe.bytes, pipe.slots, pipe.state.used, 0, false, []⟩
      after calls) :
    let written : Pipe := { pipe with
      bytes := after.bytes
      slots := after.slots
      state := { pipe.state with
        used := after.used
        unread := pipe.state.unread + after.done } }
    WellFormed written ∧ written.content = pipe.content ++ filledBytes calls := by
  intro written
  have content : written.content = pipe.content ++ filledBytes calls := done.content_eq
  refine ⟨⟨wellFormed.page_valid, wellFormed.capacity_le, ?_, done.ringIn.ring, ?_⟩, content⟩
  · exact .inl (isBacked_iff.mpr ⟨done.ringIn.bytes_fit, done.ringIn.slots_fit⟩)
  · show pipe.state.unread + after.done = written.content.length
    rw [content, List.length_append, done.done_eq, wellFormed.unread_eq, Nat.zero_add]

theorem writeWith_spec (wellFormed : WellFormed pipe) (len : Nat) (fill : FillCallback) :
    WellFormed (pipe.writeWith len fill).pipe ∧
      (pipe.writeWith len fill).pipe.content =
        pipe.content ++ filledBytes (pipe.writeWith len fill).calls ∧
      FillsInOrder fill [] 0 (pipe.writeWith len fill).calls ∧
      Answers (pipe.writeWith len fill).step.result
        (filledBytes (pipe.writeWith len fill).calls) := by
  have untouched : WellFormed pipe ∧ pipe.content = pipe.content ++ filledBytes [] ∧
      FillsInOrder fill [] 0 [] :=
    ⟨wellFormed, (List.append_nil _).symm, trivial⟩
  unfold Pipe.writeWith
  split
  · exact ⟨untouched.1, untouched.2.1, untouched.2.2, rfl⟩
  split
  · exact ⟨untouched.1, untouched.2.1, untouched.2.2, rfl, by decide⟩
  split
  · exact ⟨untouched.1, untouched.2.1, untouched.2.2, rfl, by decide⟩
  rename_i backed
  split
  · exact ⟨untouched.1, untouched.2.1, untouched.2.2, rfl, by decide⟩
  have ringIn := wellFormed.ringIn (by simpa using backed)
  rcases mergeTail_spec fill len ringIn with ⟨merged, merge⟩
  rcases writeLoop_spec fill len pipe.state.capacityPages merge.ringIn with ⟨looped, loop⟩
  have done := merge.trans loop
  dsimp only
  generalize writeLoop pipe fill len pipe.state.capacityPages
    (mergeTail pipe fill len) = after at *
  have calls : after.calls = merged ++ looped := done.calls_eq
  have count : after.done = (filledBytes (merged ++ looped)).length :=
    done.done_eq.trans (Nat.zero_add _)
  have published := wellFormed.published done
  have fills : FillsInOrder fill [] 0 after.calls := calls ▸ done.fills
  rw [<- calls] at count published
  have nothing : after.done = 0 -> filledBytes after.calls = [] := by
    intro zero
    exact List.eq_nil_of_length_eq_zero (by omega)
  split
  · exact ⟨published.1.advanceRevision.1, published.2, fills, count⟩
  · rename_i zero
    split
    · exact ⟨published.1, published.2, fills, nothing (by simpa using zero), by decide⟩
    · exact ⟨published.1, published.2, fills, nothing (by simpa using zero), by decide⟩

theorem WellFormed.taken (wellFormed : WellFormed pipe) (backed : pipe.isBacked = true)
    {copy : CopyCallback} {action : ReadAction} {total : Nat} {after : ReadState}
    {calls : List CopyCall}
    (done : ReadDone pipe copy action total
      ⟨pipe.slots, pipe.state.head, pipe.state.used, 0, []⟩ after calls)
    (consuming : action ≠ .peek) :
    let rest : Pipe := { pipe with
      slots := after.slots
      state := { pipe.state with
        head := after.head
        used := after.used
        unread := pipe.state.unread - after.done } }
    WellFormed rest ∧ pipe.content = deliveredBytes calls ++ rest.content := by
  intro rest
  have consumed := done.consumed consuming
  have content : pipe.content = deliveredBytes calls ++ rest.content := consumed.2
  refine ⟨⟨wellFormed.page_valid, wellFormed.capacity_le, ?_, consumed.1, ?_⟩, content⟩
  · have storage := isBacked_iff.mp backed
    have sameLength : after.slots.length = pipe.slots.length := done.length_eq
    refine .inl (isBacked_iff.mpr ⟨storage.1, ?_⟩)
    show _ <= after.slots.length
    rw [sameLength]
    exact storage.2
  have lengths := congrArg List.length content
  have count : after.done = 0 + (deliveredBytes calls).length := done.done_eq
  rw [List.length_append] at lengths
  show pipe.state.unread - after.done = rest.content.length
  rw [wellFormed.unread_eq]
  omega

theorem WellFormed.backed_of_unread (wellFormed : WellFormed pipe)
    (nonempty : pipe.state.unread ≠ 0) : pipe.isBacked = true := by
  rcases wellFormed.backing with backed | ⟨_, _, unused⟩
  · exact backed
  have noContent : pipe.content = [] := by
    unfold Pipe.content
    rw [unused]
    rfl
  rw [wellFormed.unread_eq, noContent] at nonempty
  exact absurd rfl nonempty

/-- What a staged read does, by action: it hands over the content in order, and
takes what was handed over unless it peeks. -/
structure ReadAnswer (pipe : Pipe) (max : Nat) (copy : CopyCallback) (action : ReadAction)
    (transfer : Transfer CopyCall) : Prop where
  wellFormed : WellFormed transfer.pipe
  hands : HandsInOrder copy [] pipe.content transfer.calls
  answers : Answers transfer.step.result (deliveredBytes transfer.calls)
  peeked : action = .peek -> transfer.pipe = pipe
  consumed : action ≠ .peek ->
    pipe.content = deliveredBytes transfer.calls ++ transfer.pipe.content
  finished : ∀ count, transfer.step.result = .ok count -> count = min max pipe.state.unread ∨
    ∃ call ∈ transfer.calls, call.delivered < call.chunk.length
  blocks : transfer.step.result = .error (.wouldBlock .readable) ->
    pipe.state.unread = 0 ∧ pipe.state.writers ≠ 0
  quiet : transfer.step.wake.writers = false ∨ pipe.state.unread = 0 -> transfer.pipe = pipe
  writers_eq : transfer.pipe.state.writers = pipe.state.writers

section WellFormed

variable (wellFormed : WellFormed pipe)

include wellFormed

theorem ReadAnswer.early (max : Nat) (copy : CopyCallback) (action : ReadAction)
    {result : Except Error Nat} {wake : WakeSet} (answers : Answers result [])
    (finished : ∀ count, result = .ok count -> count = min max pipe.state.unread)
    (blocks : result = .error (.wouldBlock .readable) -> pipe.state.unread = 0 ∧ pipe.state.writers ≠ 0) :
    ReadAnswer pipe max copy action ⟨⟨result, wake⟩, pipe, []⟩ where
  wellFormed := wellFormed
  hands := trivial
  answers := answers
  peeked := fun _ => rfl
  consumed := fun _ => rfl
  finished := fun count ok => .inl (finished count ok)
  blocks := blocks
  quiet := fun _ => rfl
  writers_eq := rfl

theorem readAction_spec (max : Nat) (copy : CopyCallback) (action : ReadAction) :
    ReadAnswer pipe max copy action (pipe.readAction max copy action) := by
  unfold Pipe.readAction
  by_cases zero : max = 0
  · rw [if_pos zero]
    refine .early wellFormed max copy action rfl ?_ nofun
    rintro count ⟨⟩
    rw [zero, Nat.zero_min]
  rw [if_neg zero]
  by_cases empty : pipe.state.unread = 0
  · rw [if_pos empty]
    by_cases closed : pipe.state.writers = 0
    · rw [if_pos closed]
      refine .early wellFormed max copy action rfl ?_ nofun
      rintro count ⟨⟩
      rw [empty, Nat.min_zero]
    · rw [if_neg closed]
      exact .early wellFormed max copy action ⟨rfl, by decide⟩
        nofun (fun _ => ⟨empty, closed⟩)
  rw [if_neg empty]
  split
  · exact .early wellFormed max copy action ⟨rfl, by decide⟩
      nofun nofun
  have ring : pipe.RingAt ⟨pipe.slots, pipe.state.head, pipe.state.used, 0, []⟩ :=
    wellFormed.ring
  have enough : min max pipe.state.unread <= 0 +
      (pipe.contentAt ⟨pipe.slots, pipe.state.head, pipe.state.used, 0, []⟩).length := by
    show _ <= 0 + pipe.content.length
    rw [<- wellFormed.unread_eq, Nat.zero_add]
    exact Nat.min_le_right _ _
  rcases readLoop_spec copy action (min max pipe.state.unread) ring enough
    (Nat.le_add_left _ _) with ⟨ok, calls, done⟩
  dsimp only
  rw [ok]
  dsimp only
  generalize (readLoop pipe copy action (min max pipe.state.unread)
    (min max pipe.state.unread)
    ⟨pipe.slots, pipe.state.head, pipe.state.used, 0, []⟩).2 = after at *
  have callsEq : after.calls = calls := done.calls_eq
  have hands : HandsInOrder copy [] pipe.content after.calls := callsEq ▸ done.hands
  have count : after.done = (deliveredBytes after.calls).length := by
    rw [callsEq]
    exact done.done_eq.trans (Nat.zero_add _)
  have bounded : after.done <= pipe.state.unread := by
    have lengths := congrArg List.length hands.queue_eq
    rw [List.length_append] at lengths
    rw [wellFormed.unread_eq]
    omega
  have nothing : after.done = 0 -> deliveredBytes after.calls = [] := by
    intro zeroDone
    exact List.eq_nil_of_length_eq_zero (by omega)
  have finished : after.done = min max pipe.state.unread ∨
      ∃ call ∈ after.calls, call.delivered < call.chunk.length := by
    rw [callsEq]
    rcases done.finished with reached | short
    · exact .inl (Nat.le_antisymm (done.bounded (Nat.zero_le _)) reached)
    · exact .inr short
  by_cases peeking : action = .peek
  · have same : ({ pipe with slots := after.slots } : Pipe) = pipe := by
      rw [done.peeked peeking]
    simp only [if_pos peeking, same]
    split
    · rename_i zeroDone
      exact ⟨wellFormed, hands, ⟨nothing zeroDone, by decide⟩, fun _ => rfl,
        fun notPeek => absurd peeking notPeek, nofun,
        nofun, fun _ => rfl, rfl⟩
    refine ⟨wellFormed, hands, count, fun _ => rfl,
      fun notPeek => absurd peeking notPeek, ?_,
      nofun, fun _ => rfl, rfl⟩
    rintro _ ⟨⟩
    exact finished
  have rest := wellFormed.taken (wellFormed.backed_of_unread empty) done peeking
  rw [<- callsEq] at rest
  simp only [if_neg peeking]
  split
  · rename_i zeroDone
    refine ⟨rest.1, hands, ⟨nothing zeroDone, by decide⟩,
      fun peek => absurd peek peeking, fun _ => rest.2,
      nofun, nofun,
      fun _ => ?_, rfl⟩
    rcases done.idle zeroDone with ⟨slots, head, used⟩
    simp only [zeroDone, slots, head, used, Nat.sub_zero]
  refine ⟨rest.1.advanceRevision.1, hands, count,
    fun peek => absurd peek peeking, fun _ => rest.2, ?_,
    nofun, ?_, rfl⟩
  · rintro _ ⟨⟩
    exact finished
  · rintro (quiet | unread)
    · have loud : decide (action ≠ .peek) = false := quiet
      exact absurd peeking (of_decide_eq_false loud)
    · exact absurd unread empty

theorem consume_spec (count : Nat) :
    ReadAnswer pipe count takeWhole .consume (pipe.consume count) ∧
      ∀ taken, (pipe.consume count).step.result = .ok taken -> taken = count := by
  unfold Pipe.consume
  by_cases tooMany : pipe.state.unread < count
  · rw [if_pos tooMany]
    exact ⟨.early wellFormed count takeWhole .consume ⟨rfl, by decide⟩
      nofun nofun,
      nofun⟩
  rw [if_neg tooMany]
  have answer := readAction_spec wellFormed count takeWhole .consume
  refine ⟨answer, fun taken ok => ?_⟩
  rcases answer.finished taken ok with whole | ⟨call, member, short⟩
  · omega
  have delivered : ∀ {earlier queue calls}, HandsInOrder takeWhole earlier queue calls ->
      ∀ call ∈ calls, call.delivered = call.chunk.length := by
    intro earlier queue calls hands
    induction calls generalizing earlier queue with
    | nil => exact nofun
    | cons first rest ih =>
      intro call member
      rcases List.mem_cons.mp member with rfl | inRest
      · exact hands.2.1.trans (Nat.min_self _)
      · exact ih hands.2.2 call inRest
  have whole := delivered answer.hands call member
  omega

theorem WellFormed.unused_of_empty (empty : pipe.bytes = []) :
    pipe.state.used = 0 := by
  rcases wellFormed.ring.bytes_fit with unused | fits
  · exact unused
  have positive := (validatePageSize_ok wellFormed.page_valid).1
  have pages : 0 < pipe.state.capacityPages := Nat.zero_lt_of_lt wellFormed.ring.head_lt
  have product := Nat.mul_pos pages positive
  rw [empty, List.length_nil] at fits
  omega

/-- A pipe without live pages is well formed under any capacity that its
storage holds. -/
theorem WellFormed.resizeUnused (unused : pipe.state.used = 0) {pages : Nat} (positive : 0 < pages)
    (small : pages * pipe.state.pageSize <= i32Max) (noBytes : pipe.bytes = [])
    (noSlots : pipe.slots = []) :
    WellFormed { pipe with state := { pipe.state with head := 0, capacityPages := pages } } ∧
      Pipe.content { pipe with state := { pipe.state with head := 0, capacityPages := pages } } =
        pipe.content := by
  have before : pipe.content = [] := by
    unfold Pipe.content
    rw [unused]
    rfl
  have after : Pipe.content
      { pipe with state := { pipe.state with head := 0, capacityPages := pages } } = [] := by
    unfold Pipe.content
    dsimp only
    rw [unused]
    rfl
  refine ⟨⟨wellFormed.page_valid, small, .inr ⟨noBytes, noSlots, unused⟩, ?_, ?_⟩, ?_⟩
  · refine ⟨positive, ?_, .inl unused, .inl unused, ?_⟩
    · show pipe.state.used <= pages
      omega
    · intro index member
      have noSlot : index ∈ liveSlots pages pipe.state.used 0 := member
      rw [unused] at noSlot
      cases noSlot
  · rw [after]
    show pipe.state.unread = 0
    rw [wellFormed.unread_eq, before, List.length_nil]
  · rw [before, after]

/-- Rotating the storage keeps the pipe well formed under the new capacity. -/
theorem WellFormed.resizeBacked (backed : pipe.isBacked = true) {pages : Nat} (positive : 0 < pages)
    (small : pages * pipe.state.pageSize <= i32Max) (room : pipe.state.used <= pages)
    (bytesFit : pages * pipe.state.pageSize <= pipe.bytes.length)
    (slotsFit : pages <= pipe.slots.length) :
    let resized : Pipe := { pipe with
      state := { pipe.state with head := 0, capacityPages := pages }
      bytes := rotateFront pipe.bytes pipe.state.capacity (pipe.state.head * pipe.state.pageSize)
      slots := rotateFront pipe.slots pipe.state.capacityPages pipe.state.head }
    WellFormed resized ∧ resized.content = pipe.content := by
  intro resized
  have storage := isBacked_iff.mp backed
  have rotated := wellFormed.ring.rotate positive room storage.1 storage.2 bytesFit slotsFit
  have content : resized.content = pipe.content := rotated.2
  refine ⟨⟨wellFormed.page_valid, small, .inl (isBacked_iff.mpr ⟨?_, ?_⟩), rotated.1, ?_⟩, content⟩
  · show _ <= (rotateFront _ _ _).length
    rw [length_rotateFront]
    exact bytesFit
  · show _ <= (rotateFront _ _ _).length
    rw [length_rotateFront]
    exact slotsFit
  · rw [content]
    exact wellFormed.unread_eq

theorem setCapacity_spec (requested growthLimit : Nat) :
    WellFormed (pipe.setCapacity requested growthLimit).2 ∧
      (pipe.setCapacity requested growthLimit).2.content = pipe.content ∧
      (pipe.setCapacity requested growthLimit).1.result ≠ .error .corrupt := by
  unfold Pipe.setCapacity
  cases rounded : roundedCapacity pipe.state.pageSize requested with
  | error error =>
    refine ⟨wellFormed, rfl, ?_⟩
    rintro ⟨⟩
    unfold roundedCapacity at rounded
    rw [wellFormed.page_valid] at rounded
    dsimp only at rounded
    split at rounded <;> cases rounded
  | ok capacity =>
    rcases roundedCapacity_ok rounded with ⟨valid, small, positive, whole⟩
    dsimp only
    generalize capacity / pipe.state.pageSize = pages at *
    split
    · exact ⟨wellFormed, rfl, nofun⟩
    split
    · exact ⟨wellFormed, rfl, nofun⟩
    rename_i notBusy
    split
    · rename_i isUnbacked
      have emptyStorage : pipe.bytes = [] ∧ pipe.slots = [] := by simpa using isUnbacked
      split
      · exact ⟨wellFormed, rfl, nofun⟩
      split
      · exact ⟨wellFormed, rfl, nofun⟩
      have resized := wellFormed.resizeUnused
        (wellFormed.unused_of_empty emptyStorage.1) positive (whole ▸ small)
        emptyStorage.1 emptyStorage.2
      exact ⟨resized.1.advanceRevision.1, resized.2, fun impossible => by
        cases impossible⟩
    rename_i hasStorage
    have backed : pipe.isBacked = true := by
      rcases wellFormed.backing with backed | ⟨noBytes, noSlots, _⟩
      · exact backed
      · rw [noBytes, noSlots] at hasStorage
        exact absurd rfl hasStorage
    split
    · exact ⟨wellFormed, rfl, nofun⟩
    rename_i storage
    split
    · exact ⟨wellFormed, rfl, nofun⟩
    split
    · exact ⟨wellFormed, rfl, nofun⟩
    · have resized := wellFormed.resizeBacked backed positive (whole ▸ small)
        (by omega) (by omega) (by omega)
      exact ⟨resized.1.advanceRevision.1, resized.2, fun impossible => by
        cases impossible⟩

/-- Moving the live pages to new storage keeps the content, and the metadata
check before it never fails. -/
theorem replaceStorage_spec (bytes : List UInt8) (slots : List Page) :
    match pipe.replaceStorage bytes slots with
    | .ok moved => WellFormed moved ∧ moved.content = pipe.content ∧
        moved.state = { pipe.state with head := 0 } ∧ moved.revision = pipe.revision ∧
        moved.isBacked = true ∧ ∀ ordinal, ordinal < pipe.state.used ->
          moved.slots.getD ordinal default = pipe.slots.getD (pipe.slotIndex ordinal) default
    | .error error => error = .storage := by
  unfold Pipe.replaceStorage
  by_cases short : bytes.length < pipe.state.capacity ∨ slots.length < pipe.state.capacityPages
  · rw [if_pos short]
  rw [if_neg short]
  have authentic : (List.range pipe.state.used).any (fun ordinal =>
      decide ((pipe.slots.getD (pipe.slotIndex ordinal) default).len = 0 ∨
        pipe.state.pageSize < (pipe.slots.getD (pipe.slotIndex ordinal) default).offset +
          (pipe.slots.getD (pipe.slotIndex ordinal) default).len)) = false := by
    rw [List.any_eq_false]
    intro ordinal member
    have below := List.mem_range.mp member
    have live := wellFormed.ring.pages_live (pipe.slotIndex ordinal)
      ((mem_liveSlots wellFormed.ring.head_lt).mpr ⟨ordinal, below, rfl⟩)
    have positive := live.1
    have bound := live.2
    simp only [decide_eq_true_eq, not_or]
    omega
  dsimp only
  rw [authentic, if_neg (by decide)]
  have bytesFit : pipe.state.capacity <= bytes.length := by omega
  have slotsFit : pipe.state.capacityPages <= (slots.map fun _ => (default : Page)).length := by
    rw [List.length_map]
    omega
  have copied := copyPages_spec wellFormed.ring bytesFit slotsFit le_rfl
  generalize (List.range pipe.state.used).foldl pipe.copyPage
    (bytes, slots.map fun _ => (default : Page)) = moved at *
  have relocated := wellFormed.ring.relocate
    (Nat.zero_lt_of_lt wellFormed.ring.head_lt) wellFormed.ring.used_le
    (.inr (by rw [copied.1]; exact bytesFit)) (.inr (by rw [copied.2.1]; exact slotsFit))
    (fun ordinal below => (copied.2.2 ordinal below).1)
    (fun ordinal below => (copied.2.2 ordinal below).2)
  have content : Pipe.content { pipe with
      state := { pipe.state with head := 0 }, bytes := moved.1, slots := moved.2 } =
      pipe.content := relocated.2
  have backed : Pipe.isBacked { pipe with
      state := { pipe.state with head := 0 }, bytes := moved.1, slots := moved.2 } = true := by
    rw [isBacked_iff]
    dsimp only
    rw [copied.1, copied.2.1]
    exact ⟨bytesFit, slotsFit⟩
  refine ⟨⟨wellFormed.page_valid, wellFormed.capacity_le, .inl backed, relocated.1, ?_⟩,
    content, rfl, rfl, backed, fun ordinal below => (copied.2.2 ordinal below).1⟩
  rw [content]
  exact wellFormed.unread_eq

theorem setReferences_spec (count : Nat) (endpoint : End) :
    WellFormed { pipe with state := pipe.state.setReferences count endpoint } ∧
      Pipe.content { pipe with state := pipe.state.setReferences count endpoint } =
        pipe.content := by
  cases endpoint with
  | reader => exact wellFormed.congr rfl rfl rfl rfl rfl rfl rfl
  | writer => exact wellFormed.congr rfl rfl rfl rfl rfl rfl rfl

theorem retain_spec (endpoint : End) :
    WellFormed (pipe.retain endpoint).2 ∧ (pipe.retain endpoint).2.content = pipe.content ∧
      (pipe.retain endpoint).1 ≠ .error .corrupt := by
  unfold Pipe.retain
  split
  · exact ⟨wellFormed, rfl, nofun⟩
  split
  · exact ⟨wellFormed, rfl, nofun⟩
  · rename_i count _
    have counted := setReferences_spec wellFormed count endpoint
    exact ⟨counted.1, counted.2, nofun⟩

theorem release_spec (endpoint : End) :
    WellFormed (pipe.release endpoint).2 ∧ (pipe.release endpoint).2.content = pipe.content ∧
      (pipe.release endpoint).1.result ≠ .error .corrupt := by
  unfold Pipe.release
  split
  · exact ⟨wellFormed, rfl, nofun⟩
  split
  · exact ⟨wellFormed, rfl, nofun⟩
  have counted := setReferences_spec wellFormed (pipe.state.references endpoint - 1) endpoint
  dsimp only
  split
  · exact ⟨counted.1.advanceRevision.1, counted.2, nofun⟩
  · exact ⟨counted.1, counted.2, nofun⟩

end WellFormed

end Operations

/-! ## Runs -/

/-- An operation under the object's lock.  Callbacks are part of it. -/
inductive Operation where
  | writeWith (len : Nat) (fill : FillCallback)
  | readWith (max : Nat) (copy : CopyCallback)
  | peekWith (max : Nat) (copy : CopyCallback)
  | consume (count : Nat)
  | setCapacity (requested growthLimit : Nat)
  | replaceStorage (bytes : List UInt8) (slots : List Page)
  | retain (endpoint : End)
  | release (endpoint : End)

/-- The waiters an operation notifies and the pipe it leaves.  A peek, a
retain and a replacement answer no wake set; a refused replacement leaves the
pipe as it was. -/
def Pipe.apply (pipe : Pipe) : Operation -> WakeSet × Pipe
  | .writeWith len fill => ((pipe.writeWith len fill).step.wake, (pipe.writeWith len fill).pipe)
  | .readWith max copy => ((pipe.readWith max copy).step.wake, (pipe.readWith max copy).pipe)
  | .peekWith max copy => (⟨false, false⟩, (pipe.peekWith max copy).pipe)
  | .consume count => ((pipe.consume count).step.wake, (pipe.consume count).pipe)
  | .setCapacity requested growthLimit => ((pipe.setCapacity requested growthLimit).1.wake,
      (pipe.setCapacity requested growthLimit).2)
  | .replaceStorage bytes slots =>
    match pipe.replaceStorage bytes slots with
    | .ok moved => (⟨false, false⟩, moved)
    | .error _ => (⟨false, false⟩, pipe)
  | .retain endpoint => (⟨false, false⟩, (pipe.retain endpoint).2)
  | .release endpoint => ((pipe.release endpoint).1.wake, (pipe.release endpoint).2)

theorem apply_replaceStorage_ok {moved : Pipe} {bytes : List UInt8} {slots : List Page}
    (answer : pipe.replaceStorage bytes slots = .ok moved) :
    pipe.apply (.replaceStorage bytes slots) = (⟨false, false⟩, moved) := by
  simp only [Pipe.apply, answer]

theorem apply_replaceStorage_error {bytes : List UInt8} {slots : List Page}
    {error : Error} (answer : pipe.replaceStorage bytes slots = .error error) :
    pipe.apply (.replaceStorage bytes slots) = (⟨false, false⟩, pipe) := by
  simp only [Pipe.apply, answer]

/-- A fresh pipe: a new record over its storage, or an unbacked one, with no
revision bound or one that was never advanced. -/
def starts (pipe : Pipe) : Prop :=
  (pipe.revision = none ∨ pipe.revision = some 0) ∧ ∃ pageSize requested,
    (PipeRecord.new pipe.bytes.length pipe.slots.length pageSize requested = .ok pipe.state) ∨
    (PipeRecord.unbacked pageSize requested = .ok pipe.state ∧ pipe.bytes = [] ∧ pipe.slots = [])

def step (before : Pipe) (operation : Operation) (after : Pipe) : Prop :=
  after = (before.apply operation).2

theorem starts_wellFormed (started : starts pipe) : WellFormed pipe := by
  rcases pipe with ⟨state, bytes, slots, revision⟩
  rcases started with ⟨_, pageSize, requested, created | ⟨created, noBytes, noSlots⟩⟩
  · unfold PipeRecord.new at created
    cases rounded : roundedCapacity pageSize requested with
    | error error =>
      rw [rounded] at created
      cases created
    | ok capacity =>
      rw [rounded] at created
      rcases roundedCapacity_ok rounded with ⟨valid, small, positive, whole⟩
      dsimp only at created
      split at created
      · cases created
      · rename_i storage
        cases created
        exact .fresh valid positive (by omega) (.inl (by omega))
  · unfold PipeRecord.unbacked at created
    cases rounded : roundedCapacity pageSize requested with
    | error error =>
      rw [rounded] at created
      cases created
    | ok capacity =>
      rw [rounded] at created
      rcases roundedCapacity_ok rounded with ⟨valid, small, positive, whole⟩
      cases created
      exact .fresh valid positive (by omega) (.inr ⟨noBytes, noSlots⟩)

theorem apply_wellFormed (wellFormed : WellFormed pipe) (operation : Operation) :
    WellFormed (pipe.apply operation).2 := by
  cases operation with
  | writeWith len fill => exact (writeWith_spec wellFormed len fill).1
  | readWith max copy => exact (readAction_spec wellFormed max copy .copyAndConsume).wellFormed
  | peekWith max copy => exact (readAction_spec wellFormed max copy .peek).wellFormed
  | consume count => exact (consume_spec wellFormed count).1.wellFormed
  | setCapacity requested growthLimit =>
    exact (setCapacity_spec wellFormed requested growthLimit).1
  | replaceStorage bytes slots =>
    have replaced := replaceStorage_spec wellFormed bytes slots
    cases answer : pipe.replaceStorage bytes slots with
    | ok moved =>
      rw [answer] at replaced
      rw [apply_replaceStorage_ok answer]
      exact replaced.1
    | error error =>
      rw [apply_replaceStorage_error answer]
      exact wellFormed
  | retain endpoint => exact (retain_spec wellFormed endpoint).1
  | release endpoint => exact (release_spec wellFormed endpoint).1

theorem run_wellFormed {history : List Operation}
    (run : Run starts step history pipe) : WellFormed pipe := by
  refine run.state_invariant WellFormed (fun _ => starts_wellFormed) ?_
  intro before operation after wellFormed taken
  rw [show after = _ from taken]
  exact apply_wellFormed wellFormed operation

/-- The content of a pipe behaves as one queue of bytes under each operation. -/
structure BehavesAsQueue (pipe : Pipe) : Prop where
  unread_eq : pipe.state.unread = pipe.content.length
  write : ∀ len fill,
    (pipe.writeWith len fill).pipe.content =
        pipe.content ++ filledBytes (pipe.writeWith len fill).calls ∧
      FillsInOrder fill [] 0 (pipe.writeWith len fill).calls ∧
      Answers (pipe.writeWith len fill).step.result (filledBytes (pipe.writeWith len fill).calls)
  write_source : ∀ len fill source count, FillCallback.CopiesFrom fill source ->
    (pipe.writeWith len fill).step.result = .ok count ->
      (pipe.writeWith len fill).pipe.content = pipe.content ++ source.take count
  read : ∀ max copy,
    pipe.content = deliveredBytes (pipe.readWith max copy).calls ++
        (pipe.readWith max copy).pipe.content ∧
      HandsInOrder copy [] pipe.content (pipe.readWith max copy).calls ∧
      Answers (pipe.readWith max copy).step.result (deliveredBytes (pipe.readWith max copy).calls)
  consume : ∀ count,
    pipe.content = deliveredBytes (pipe.consume count).calls ++ (pipe.consume count).pipe.content ∧
      Answers (pipe.consume count).step.result (deliveredBytes (pipe.consume count).calls) ∧
      ∀ taken, (pipe.consume count).step.result = .ok taken -> taken = count
  peek : ∀ max copy, (pipe.peekWith max copy).pipe = pipe ∧
    HandsInOrder copy [] pipe.content (pipe.peekWith max copy).calls ∧
    Answers (pipe.peekWith max copy).step.result (deliveredBytes (pipe.peekWith max copy).calls)
  resize : ∀ requested growthLimit,
    (pipe.setCapacity requested growthLimit).2.content = pipe.content ∧
      (pipe.setCapacity requested growthLimit).1.result ≠ .error .corrupt
  replace : ∀ bytes slots,
    (pipe.apply (.replaceStorage bytes slots)).2.content = pipe.content ∧
      pipe.replaceStorage bytes slots ≠ .error .corrupt ∧
      ∀ moved, pipe.replaceStorage bytes slots = .ok moved -> moved.content = pipe.content
  retain : ∀ endpoint, (pipe.retain endpoint).2.content = pipe.content ∧
    (pipe.retain endpoint).1 ≠ .error .corrupt
  release : ∀ endpoint, (pipe.release endpoint).2.content = pipe.content ∧
    (pipe.release endpoint).1.result ≠ .error .corrupt

theorem WellFormed.replaced (wellFormed : WellFormed pipe) (bytes : List UInt8)
    (slots : List Page) :
    (pipe.apply (.replaceStorage bytes slots)).2.content = pipe.content ∧
      pipe.replaceStorage bytes slots ≠ .error .corrupt ∧
      ∀ moved, pipe.replaceStorage bytes slots = .ok moved -> moved.content = pipe.content := by
  have replaced := replaceStorage_spec wellFormed bytes slots
  cases answer : pipe.replaceStorage bytes slots with
  | ok moved =>
    rw [answer] at replaced
    rw [apply_replaceStorage_ok answer]
    refine ⟨replaced.2.1, nofun, ?_⟩
    rintro other ⟨⟩
    exact replaced.2.1
  | error error =>
    rw [answer] at replaced
    rw [apply_replaceStorage_error answer]
    refine ⟨rfl, ?_, nofun⟩
    rintro ⟨⟩
    cases replaced

/-- Every pipe that any sequence of operations reaches from a fresh record
behaves as one queue of bytes, whatever its callbacks answer. -/
theorem reachable_pipe_behaves_as_queue {history : List Operation} {pipe : Pipe}
    (run : Run starts step history pipe) : BehavesAsQueue pipe := by
  have wellFormed := run_wellFormed run
  constructor
  · exact wellFormed.unread_eq
  · intro len fill
    exact (writeWith_spec wellFormed len fill).2
  · intro len fill source count copies ok
    rcases writeWith_spec wellFormed len fill with ⟨_, content, fills, answers⟩
    rw [ok] at answers
    have published := fills.source_eq copies
    rw [<- show count = _ from answers] at published
    rw [content, published]
    rfl
  · intro max copy
    have answer := readAction_spec wellFormed max copy .copyAndConsume
    exact ⟨answer.consumed (by decide), answer.hands, answer.answers⟩
  · intro count
    have answer := consume_spec wellFormed count
    exact ⟨answer.1.consumed (by decide), answer.1.answers, answer.2⟩
  · intro max copy
    have answer := readAction_spec wellFormed max copy .peek
    exact ⟨answer.peeked rfl, answer.hands, answer.answers⟩
  · intro requested growthLimit
    exact (setCapacity_spec wellFormed requested growthLimit).2
  · exact fun bytes slots => wellFormed.replaced bytes slots
  · intro endpoint
    exact (retain_spec wellFormed endpoint).2
  · intro endpoint
    exact (release_spec wellFormed endpoint).2

/-- Two bytes are written and one is read: the second one is left, and it is what the
next read hands out. -/
theorem one_page_pipe_behaves_as_queue :
    ∃ pipe, Run starts step [.readWith 1 takeWhole, .writeWith 2 (fillFrom [7, 8])] pipe ∧
      pipe.content = [8] ∧ deliveredBytes (pipe.readWith 1 takeWhole).calls = [8] ∧
      BehavesAsQueue pipe := by
  let fresh : Pipe := ⟨.fresh 4096 1, List.replicate 4096 0, [default], none⟩
  have created : starts fresh := by
    refine ⟨.inl rfl, 4096, 4096, .inl ?_⟩
    show PipeRecord.new (List.replicate 4096 0).length 1 4096 4096 = .ok (.fresh 4096 1)
    rw [List.length_replicate]
    rfl
  have run : Run starts step [.readWith 1 takeWhole, .writeWith 2 (fillFrom [7, 8])] _ :=
    .next (.next (.initial created) rfl) rfl
  exact ⟨_, run, by decide +kernel, by decide +kernel, reachable_pipe_behaves_as_queue run⟩

end PipeCore
end Carrick
