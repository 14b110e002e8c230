import Carrick.RecordLocks.Table
import Carrick.Foundation.Run

namespace Carrick
namespace RecordLocks

open Foundation

/-!
# The bytes the table locks

The table is an implementation of one function: for a file, an owner and a
byte, the mode the owner holds the byte in, if it does.  Setting a lock writes
that function over the range of the request, unlocking and the release paths
erase it.  The invariant that makes the list of locks such a function is that
two locks of one file with a common byte belong to different owners and are
both read locks.
-/

/-- The modes held, byte by byte. -/
abbrev Holding := LeaseFileId -> LogicalRecordLockOwner -> Nat -> Option Bool

namespace Holding

/-- The requested mode over the requested bytes, nothing else changed. -/
def set (holding : Holding) (request : LogicalRecordLockRequest) : Holding :=
  fun file owner byte =>
    if file = request.file ∧ owner = request.owner ∧ request.range.Holds byte then
      some request.write
    else holding file owner byte

/-- Gives up the bytes of a range. -/
def clear (holding : Holding) (file : LeaseFileId) (owner : LogicalRecordLockOwner)
    (range : LogicalRecordLockRange) : Holding :=
  fun other holder byte =>
    if other = file ∧ holder = owner ∧ range.Holds byte then none
    else holding other holder byte

/-- Gives up everything an owner holds of a file. -/
def clearFile (holding : Holding) (file : LeaseFileId) (owner : LogicalRecordLockOwner) :
    Holding :=
  fun other holder byte =>
    if other = file ∧ holder = owner then none else holding other holder byte

/-- Gives up everything an owner holds. -/
def clearOwner (holding : Holding) (owner : LogicalRecordLockOwner) : Holding :=
  fun other holder byte => if holder = owner then none else holding other holder byte

end Holding

namespace LogicalRecordLock

/-- The lock gives its owner this byte of the file. -/
def Covers (lock : LogicalRecordLock) (file : LeaseFileId) (owner : LogicalRecordLockOwner)
    (byte : Nat) : Prop :=
  lock.file = file ∧ lock.owner = owner ∧ lock.range.Holds byte

instance (lock : LogicalRecordLock) (file : LeaseFileId) (owner : LogicalRecordLockOwner)
    (byte : Nat) : Decidable (lock.Covers file owner byte) :=
  inferInstanceAs (Decidable (_ ∧ _))

/-- Two locks of one file may share bytes only as read locks of two owners. -/
def Compatible (first second : LogicalRecordLock) : Prop :=
  first.file = second.file -> first.range.overlaps second.range = true ->
    first.owner ≠ second.owner ∧ first.write = false ∧ second.write = false

theorem Compatible.symm {first second : LogicalRecordLock} (compatible : first.Compatible second) :
    second.Compatible first := by
  intro file overlap
  rw [LogicalRecordLockRange.overlaps_iff] at overlap
  have swapped := (LogicalRecordLockRange.overlaps_iff _ _).mpr overlap.symm
  rcases compatible file.symm swapped with ⟨owner, firstRead, secondRead⟩
  exact ⟨owner.symm, secondRead, firstRead⟩

instance : Std.Symm Compatible := ⟨fun _ _ compatible => compatible.symm⟩

end LogicalRecordLock

/-- The mode of the first lock that gives the owner the byte. -/
def heldBytes (locks : List LogicalRecordLock) : Holding := fun file owner byte =>
  (locks.find? (fun lock => lock.Covers file owner byte)).map LogicalRecordLock.write

/-- The invariant of the lock list: no two owners hold a byte in modes that
exclude each other, and no lock is empty. -/
structure Safe (locks : List LogicalRecordLock) : Prop where
  compatible : locks.Pairwise LogicalRecordLock.Compatible
  nonempty : ∀ lock ∈ locks, lock.range.start < lock.range.stop

theorem Safe.empty : Safe [] := ⟨List.Pairwise.nil, by simp⟩

variable {locks : List LogicalRecordLock}

theorem Safe.filter (safe : Safe locks)
    (kept : LogicalRecordLock -> Bool) : Safe (locks.filter kept) :=
  ⟨safe.compatible.filter kept, fun lock listed => safe.nonempty lock (List.mem_filter.mp listed).1⟩

theorem Safe.unique (safe : Safe locks)
    {first second : LogicalRecordLock} (firstListed : first ∈ locks) (secondListed : second ∈ locks)
    {file : LeaseFileId} {owner : LogicalRecordLockOwner} {byte : Nat}
    (firstCovers : first.Covers file owner byte) (secondCovers : second.Covers file owner byte) :
    first = second := by
  by_contra different
  have compatible := safe.compatible.forall firstListed secondListed different
  have overlap := firstCovers.2.2.overlaps secondCovers.2.2
  have owners := (compatible (firstCovers.1.trans secondCovers.1.symm) overlap).1
  exact owners (firstCovers.2.1.trans secondCovers.2.1.symm)

/-- The list read as a function: any lock that covers the byte tells its mode. -/
theorem Safe.heldBytes_iff (safe : Safe locks)
    {file : LeaseFileId} {owner : LogicalRecordLockOwner} {byte : Nat} {mode : Bool} :
    heldBytes locks file owner byte = some mode <->
      ∃ lock ∈ locks, lock.Covers file owner byte ∧ lock.write = mode := by
  unfold heldBytes
  rw [Option.map_eq_some_iff]
  constructor
  · rintro ⟨lock, found, mode⟩
    exact ⟨lock, List.mem_of_find?_eq_some found, by simpa using List.find?_some found, mode⟩
  rintro ⟨lock, listed, covers, mode⟩
  cases found : locks.find? (fun lock => lock.Covers file owner byte) with
  | none =>
    rw [List.find?_eq_none] at found
    exact absurd (by simpa using covers) (found lock listed)
  | some first =>
    have covered : first.Covers file owner byte := by simpa using List.find?_some found
    have same := safe.unique (List.mem_of_find?_eq_some found) listed covered covers
    exact ⟨first, rfl, same ▸ mode⟩

theorem Safe.heldBytes_erased {before after : List LogicalRecordLock} (safe : Safe before)
    (safeAfter : Safe after)
    {erased : LeaseFileId -> LogicalRecordLockOwner -> Nat -> Prop}
    [∀ file owner byte, Decidable (erased file owner byte)]
    (same : ∀ file owner byte mode,
      (∃ lock ∈ after, lock.Covers file owner byte ∧ lock.write = mode) <->
        (∃ lock ∈ before, lock.Covers file owner byte ∧ lock.write = mode) ∧
          ¬ erased file owner byte) :
    heldBytes after = fun file owner byte =>
      if erased file owner byte then none else heldBytes before file owner byte := by
  funext file owner byte
  refine Option.ext ?_
  intro mode
  rw [safeAfter.heldBytes_iff, same file owner byte mode]
  by_cases gone : erased file owner byte
  · simp [gone]
  · rw [if_neg gone, safe.heldBytes_iff]
    simp [gone]

/-! ## Giving up a range -/

namespace LogicalRecordLock

variable {file : LeaseFileId} {owner : LogicalRecordLockOwner} {range : LogicalRecordLockRange}

/-- The pieces left of a lock: itself, or what lies before or after the range. -/
theorem without_cases {lock piece : LogicalRecordLock} (listed : piece ∈ lock.without file owner range) :
    (piece = lock ∧ ¬ (lock.file = file ∧ lock.owner = owner ∧ lock.range.overlaps range = true)) ∨
      (lock.file = file ∧ lock.owner = owner ∧ lock.range.overlaps range = true ∧
        ((lock.range.start < range.start ∧
            piece = { lock with range := { lock.range with stop := range.start } }) ∨
          (range.stop < lock.range.stop ∧
            piece = { lock with range := { lock.range with start := range.stop } }))) := by
  unfold without at listed
  split_ifs at listed with outside before after after
  · left
    refine ⟨List.mem_singleton.mp listed, ?_⟩
    simp only [Bool.or_eq_true, decide_eq_true_eq, Bool.not_eq_true'] at outside
    rintro ⟨sameFile, sameOwner, overlap⟩
    rw [overlap] at outside
    tauto
  all_goals
    have inside : lock.file = file ∧ lock.owner = owner ∧ lock.range.overlaps range = true := by
      simpa [Bool.or_eq_true, not_or, and_assoc] using outside
    right
    refine ⟨inside.1, inside.2.1, inside.2.2, ?_⟩
  · rcases List.mem_append.mp listed with first | second
    · exact .inl ⟨before, List.mem_singleton.mp first⟩
    · exact .inr ⟨after, List.mem_singleton.mp second⟩
  · rw [List.append_nil] at listed
    exact .inl ⟨before, List.mem_singleton.mp listed⟩
  · rw [List.nil_append] at listed
    exact .inr ⟨after, List.mem_singleton.mp listed⟩
  · cases listed

/-- A piece of a lock: the same file, owner and mode, over part of its range
and away from the range given up. -/
structure PieceOf (file : LeaseFileId) (owner : LogicalRecordLockOwner)
    (range : LogicalRecordLockRange) (lock piece : LogicalRecordLock) : Prop where
  file_eq : piece.file = lock.file
  owner_eq : piece.owner = lock.owner
  write_eq : piece.write = lock.write
  start_le : lock.range.start <= piece.range.start
  stop_le : piece.range.stop <= lock.range.stop
  nonempty : lock.range.start < lock.range.stop -> piece.range.start < piece.range.stop
  clear : piece.file = file -> piece.owner = owner -> piece.range.overlaps range = false

theorem without_piece {lock piece : LogicalRecordLock}
    (listed : piece ∈ lock.without file owner range) : PieceOf file owner range lock piece := by
  rcases without_cases listed with ⟨same, outside⟩ | ⟨sameFile, sameOwner, overlap, cut⟩
  · subst same
    refine ⟨rfl, rfl, rfl, le_rfl, le_rfl, fun nonempty => nonempty, ?_⟩
    intro sameFile sameOwner
    by_contra overlap
    exact outside ⟨sameFile, sameOwner, by simpa using overlap⟩
  rw [LogicalRecordLockRange.overlaps_iff] at overlap
  rcases cut with ⟨before, same⟩ | ⟨after, same⟩
  · subst same
    refine ⟨rfl, rfl, rfl, le_rfl, Nat.le_of_lt overlap.2, fun _ => before, ?_⟩
    intro _ _
    simp [LogicalRecordLockRange.overlaps]
  · subst same
    refine ⟨rfl, rfl, rfl, Nat.le_of_lt overlap.1, le_rfl, fun _ => after, ?_⟩
    intro _ _
    simp [LogicalRecordLockRange.overlaps]

theorem PieceOf.overlaps {lock piece : LogicalRecordLock} (part : PieceOf file owner range lock piece)
    {other : LogicalRecordLockRange} (overlap : piece.range.overlaps other = true) :
    lock.range.overlaps other = true := by
  rw [LogicalRecordLockRange.overlaps_iff] at overlap ⊢
  exact ⟨Nat.lt_of_le_of_lt part.start_le overlap.1, Nat.lt_of_lt_of_le overlap.2 part.stop_le⟩

theorem Compatible.pieces {first second firstPiece secondPiece : LogicalRecordLock}
    (compatible : first.Compatible second) (firstPart : PieceOf file owner range first firstPiece)
    (secondPart : PieceOf file owner range second secondPiece) :
    firstPiece.Compatible secondPiece := by
  intro sameFile overlap
  rw [firstPart.file_eq, secondPart.file_eq] at sameFile
  have swap : ∀ a b : LogicalRecordLockRange, a.overlaps b = true -> b.overlaps a = true := by
    intro a b shared
    rw [LogicalRecordLockRange.overlaps_iff] at shared ⊢
    exact shared.symm
  have whole := firstPart.overlaps (swap _ _ (secondPart.overlaps (swap _ _ overlap)))
  rw [firstPart.owner_eq, secondPart.owner_eq, firstPart.write_eq, secondPart.write_eq]
  exact compatible sameFile whole

/-- The pieces of one lock do not overlap, when the range is well formed. -/
theorem without_pairwise (lock : LogicalRecordLock) (formed : range.start < range.stop) :
    (lock.without file owner range).Pairwise Compatible := by
  unfold without
  split_ifs with outside before after after
  · exact List.pairwise_singleton _ _
  · refine List.pairwise_pair.mpr ?_
    intro _ overlap
    rw [LogicalRecordLockRange.overlaps_iff] at overlap
    have wrong := overlap.2
    simp only at wrong
    omega
  · exact List.pairwise_singleton _ _
  · exact List.pairwise_singleton _ _
  · exact List.Pairwise.nil

/-- The bytes of the pieces are the bytes of the lock outside the range. -/
theorem without_covers (lock : LogicalRecordLock) (other : LeaseFileId)
    (holder : LogicalRecordLockOwner) (byte : Nat) (mode : Bool) :
    (∃ piece ∈ lock.without file owner range, piece.Covers other holder byte ∧ piece.write = mode) <->
      (lock.Covers other holder byte ∧ lock.write = mode) ∧
        ¬ (other = file ∧ holder = owner ∧ range.Holds byte) := by
  constructor
  · rintro ⟨piece, listed, ⟨sameFile, sameOwner, holds⟩, sameMode⟩
    have part := without_piece listed
    refine ⟨⟨⟨part.file_eq ▸ sameFile, part.owner_eq ▸ sameOwner,
      Nat.le_trans part.start_le holds.1, Nat.lt_of_lt_of_le holds.2 part.stop_le⟩,
      part.write_eq ▸ sameMode⟩, ?_⟩
    rintro ⟨atFile, atOwner, inRange⟩
    have apart := part.clear (sameFile.trans atFile) (sameOwner.trans atOwner)
    rw [holds.overlaps inRange] at apart
    cases apart
  rintro ⟨⟨⟨sameFile, sameOwner, holds⟩, sameMode⟩, outside⟩
  unfold without
  by_cases kept : (lock.file ≠ file || lock.owner ≠ owner || !lock.range.overlaps range) = true
  · rw [if_pos kept]
    exact ⟨lock, by simp, ⟨sameFile, sameOwner, holds⟩, sameMode⟩
  rw [if_neg kept]
  have inside : lock.file = file ∧ lock.owner = owner := by
    simp only [Bool.or_eq_true, not_or, decide_eq_true_eq, ne_eq, not_not] at kept
    exact kept.1
  have away : ¬ range.Holds byte := fun inRange =>
    outside ⟨sameFile ▸ inside.1, sameOwner ▸ inside.2, inRange⟩
  by_cases before : byte < range.start
  · refine ⟨{ lock with range := { lock.range with stop := range.start } }, ?_,
      ⟨sameFile, sameOwner, holds.1, before⟩, sameMode⟩
    rw [if_pos (Nat.lt_of_le_of_lt holds.1 before)]
    simp
  have after : range.stop <= byte := by
    by_contra below
    exact away ⟨Nat.le_of_not_lt before, Nat.lt_of_not_le below⟩
  refine ⟨{ lock with range := { lock.range with start := range.stop } }, ?_,
    ⟨sameFile, sameOwner, after, holds.2⟩, sameMode⟩
  rw [if_pos (Nat.lt_of_le_of_lt after holds.2)]
  simp

end LogicalRecordLock

section ReplaceOwnerRange

variable {file : LeaseFileId} {owner : LogicalRecordLockOwner}
  {range : LogicalRecordLockRange}

theorem mem_replaceOwnerRange {piece : LogicalRecordLock}
    (listed : piece ∈ replaceOwnerRange locks file owner range) :
    ∃ lock ∈ locks, LogicalRecordLock.PieceOf file owner range lock piece := by
  rcases List.mem_flatMap.mp listed with ⟨lock, member, part⟩
  exact ⟨lock, member, LogicalRecordLock.without_piece part⟩

theorem Safe.replaceOwnerRange (safe : Safe locks) (file : LeaseFileId)
    (owner : LogicalRecordLockOwner) (formed : range.start < range.stop) :
    Safe (replaceOwnerRange locks file owner range) := by
  constructor
  · apply List.pairwise_flatMap.mpr
    refine ⟨fun lock _ => lock.without_pairwise formed, ?_⟩
    refine safe.compatible.imp ?_
    intro first second compatible firstPiece firstListed secondPiece secondListed
    exact compatible.pieces (LogicalRecordLock.without_piece firstListed)
      (LogicalRecordLock.without_piece secondListed)
  · intro piece listed
    rcases mem_replaceOwnerRange listed with ⟨lock, member, part⟩
    exact part.nonempty (safe.nonempty lock member)

theorem replaceOwnerRange_covers (locks : List LogicalRecordLock) (file : LeaseFileId)
    (owner : LogicalRecordLockOwner) (range : LogicalRecordLockRange) (other : LeaseFileId) (holder : LogicalRecordLockOwner)
    (byte : Nat) (mode : Bool) :
    (∃ piece ∈ replaceOwnerRange locks file owner range,
        piece.Covers other holder byte ∧ piece.write = mode) <->
      (∃ lock ∈ locks, lock.Covers other holder byte ∧ lock.write = mode) ∧
        ¬ (other = file ∧ holder = owner ∧ range.Holds byte) := by
  constructor
  · rintro ⟨piece, listed, covers⟩
    rcases List.mem_flatMap.mp listed with ⟨lock, member, part⟩
    have whole := (lock.without_covers other holder byte mode).mp ⟨piece, part, covers⟩
    exact ⟨⟨lock, member, whole.1⟩, whole.2⟩
  · rintro ⟨⟨lock, member, covers⟩, outside⟩
    rcases (lock.without_covers other holder byte mode).mpr ⟨covers, outside⟩ with
      ⟨piece, part, pieceCovers⟩
    exact ⟨piece, List.mem_flatMap.mpr ⟨lock, member, part⟩, pieceCovers⟩

theorem Safe.heldBytes_replaceOwnerRange (safe : Safe locks) (formed : range.start < range.stop) :
    heldBytes (RecordLocks.replaceOwnerRange locks file owner range) =
      (heldBytes locks).clear file owner range :=
  safe.heldBytes_erased (safe.replaceOwnerRange file owner formed)
    (replaceOwnerRange_covers locks file owner range)

end ReplaceOwnerRange

/-! ## Setting a range -/

section Grant

variable {request : LogicalRecordLockRequest}

theorem Safe.grant (safe : Safe locks) (formed : request.range.start < request.range.stop)
    (free : conflictLocked locks request = none) : Safe (grant locks request) := by
  have replaced := safe.replaceOwnerRange request.file request.owner formed
  constructor
  · refine List.pairwise_append.mpr ⟨replaced.compatible, List.pairwise_singleton _ _, ?_⟩
    intro piece listed added new
    rw [List.mem_singleton.mp new]
    intro sameFile overlap
    rcases mem_replaceOwnerRange listed with ⟨lock, member, part⟩
    by_cases sameOwner : piece.owner = request.owner
    · have apart := part.clear sameFile sameOwner
      exact absurd overlap (Bool.eq_false_iff.mp apart)
    have unblocked := conflictLocked_none.mp free lock member
    have whole := part.overlaps overlap
    have reading : ¬ (lock.write = true ∨ request.write = true) := by
      intro writing
      have blocked := (lock.blocks_iff request).mpr
        ⟨part.file_eq ▸ sameFile, part.owner_eq ▸ sameOwner, whole, writing⟩
      rw [blocked] at unblocked
      cases unblocked
    rw [not_or, Bool.not_eq_true, Bool.not_eq_true] at reading
    exact ⟨sameOwner, part.write_eq ▸ reading.1, reading.2⟩
  · intro lock listed
    rcases List.mem_append.mp listed with old | new
    · exact replaced.nonempty lock old
    · rw [List.mem_singleton.mp new]
      exact formed

theorem Safe.heldBytes_grant (safe : Safe locks) (formed : request.range.start < request.range.stop)
    (free : conflictLocked locks request = none) :
    heldBytes (RecordLocks.grant locks request) = (heldBytes locks).set request := by
  have replaced := safe.replaceOwnerRange request.file request.owner formed
  have granted := safe.grant formed free
  funext file owner byte
  refine Option.ext ?_
  intro mode
  rw [granted.heldBytes_iff]
  unfold Holding.set
  by_cases inside : file = request.file ∧ owner = request.owner ∧ request.range.Holds byte
  · rw [if_pos inside]
    have covers : request.lock.Covers file owner byte :=
      ⟨inside.1.symm, inside.2.1.symm, inside.2.2⟩
    have member : request.lock ∈ RecordLocks.grant locks request := by
      unfold RecordLocks.grant
      simp
    constructor
    · rintro ⟨lock, listed, covered, sameMode⟩
      rw [<- sameMode, granted.unique listed member covered covers]
      rfl
    · intro sameMode
      exact ⟨request.lock, member, covers, Option.some.inj sameMode⟩
  rw [if_neg inside, safe.heldBytes_iff]
  unfold RecordLocks.grant
  have old := replaceOwnerRange_covers locks request.file request.owner request.range file owner
    byte mode
  constructor
  · rintro ⟨lock, listed, covered, sameMode⟩
    rcases List.mem_append.mp listed with kept | new
    · exact (old.mp ⟨lock, kept, covered, sameMode⟩).1
    · rw [List.mem_singleton.mp new] at covered
      exact absurd ⟨covered.1.symm, covered.2.1.symm, covered.2.2⟩ inside
  · intro before
    rcases old.mpr ⟨before, inside⟩ with ⟨lock, kept, covered⟩
    exact ⟨lock, List.mem_append_left _ kept, covered⟩

end Grant

/-! ## The release paths -/

/-- Dropping whole locks erases the bytes of the owners they are dropped from. -/
theorem Safe.heldBytes_filter (safe : Safe locks)
    {kept : LogicalRecordLock -> Bool} {dropped : LeaseFileId -> LogicalRecordLockOwner -> Prop}
    [∀ file owner, Decidable (dropped file owner)]
    (precise : ∀ lock : LogicalRecordLock,
      kept lock = true <-> ¬ dropped lock.file lock.owner) :
    heldBytes (locks.filter kept) = fun file owner byte =>
      if dropped file owner then none else heldBytes locks file owner byte := by
  refine safe.heldBytes_erased (safe.filter kept) ?_
  intro file owner byte mode
  constructor
  · rintro ⟨lock, listed, covers, sameMode⟩
    rw [List.mem_filter, precise lock, covers.1, covers.2.1] at listed
    exact ⟨⟨lock, listed.1, covers, sameMode⟩, listed.2⟩
  · rintro ⟨⟨lock, listed, covers, sameMode⟩, stays⟩
    refine ⟨lock, ?_, covers, sameMode⟩
    rw [List.mem_filter, precise lock, covers.1, covers.2.1]
    exact ⟨listed, stays⟩

namespace LogicalRecordLockState

def held (state : LogicalRecordLockState) : Holding := heldBytes state.locks

variable {state : LogicalRecordLockState}

theorem held_releaseFileOwner (safe : Safe state.locks)
    (file : LeaseFileId) (owner : LogicalRecordLockOwner) :
    (state.releaseFileOwner file owner).held = state.held.clearFile file owner := by
  refine safe.heldBytes_filter ?_
  intro lock
  simp only [Bool.or_eq_true, decide_eq_true_eq]
  tauto

theorem held_releaseOwner (safe : Safe state.locks)
    (key : TaskKey) :
    (state.releaseOwner key).held =
      state.held.clearOwner (LogicalRecordLockOwner.ofTaskKey key) := by
  refine safe.heldBytes_filter ?_
  intro lock
  simp

theorem held_releaseOfd (safe : Safe state.locks)
    (file : LeaseFileId) (owner : Nat) :
    (state.releaseOfd file owner).held = state.held.clearFile file (.ofd owner) := by
  refine safe.heldBytes_filter ?_
  intro lock
  simp only [Bool.or_eq_true, decide_eq_true_eq]
  tauto

theorem trySet_cases (state : LogicalRecordLockState) (request : LogicalRecordLockRequest) :
    (conflictLocked state.locks request = none ∧
      state.trySet request = ({ state with locks := grant state.locks request }, .ok ())) ∨
    (conflictLocked state.locks request ≠ none ∧
      state.trySet request = (state, .error .eagain)) := by
  unfold trySet
  cases conflict : conflictLocked state.locks request with
  | none => exact .inl ⟨rfl, rfl⟩
  | some blocker => exact .inr ⟨by simp, rfl⟩

theorem pollSetLocked_locks (state : LogicalRecordLockState) (request : LogicalRecordLockRequest)
    (wait : RecordLockWaitId) :
    (conflictLocked state.locks request = none ∧ (state.pollSetLocked request wait).2 = .ok () ∧
      (state.pollSetLocked request wait).1.locks = grant state.locks request) ∨
    ((state.pollSetLocked request wait).2 ≠ .ok () ∧
      (state.pollSetLocked request wait).1.locks = state.locks) := by
  rcases state.pollSetLocked_cases request wait with
    ⟨free, outcome⟩ | ⟨blocker, _, ⟨_, _, _, outcome⟩ | ⟨_, outcome⟩⟩
  · rw [outcome]
    exact .inl ⟨free, rfl, rfl⟩
  · rw [outcome]
    exact .inr ⟨by simp, rfl⟩
  · rw [outcome]
    exact .inr ⟨by simp, rfl⟩

end LogicalRecordLockState

/-! ## Whole runs -/

/-- Every range an event brings in has a byte. -/
def Event.WellFormed : Event -> Prop
  | .trySet request => request.range.start < request.range.stop
  | .unlock _ _ range => range.start < range.stop
  | .mintWait request => request.range.start < request.range.stop
  | _ => True

namespace LogicalRecordLocks

/-- One event with well-formed ranges. -/
def ByteStep (before : LogicalRecordLocks) (event : Event) (after : LogicalRecordLocks) : Prop :=
  event.WellFormed ∧ before.step event = some after

/-- What every step preserves: a safe lock list, and waiting requests that ask
for some byte. -/
structure Formed (table : LogicalRecordLocks) : Prop where
  safe : Safe table.state.locks
  waits : ∀ wait ∈ table.waits,
    wait.request.range.start < wait.request.range.stop

theorem formed_poll {table : LogicalRecordLocks} (formed : table.Formed)
    {wait : LogicalRecordLockWait} (listed : wait ∈ table.waits) :
    (table.poll wait).1.Formed := by
  constructor
  · rw [poll_state]
    rcases table.state.pollSetLocked_locks wait.request wait.id with
      ⟨free, _, granted⟩ | ⟨_, same⟩
    · rw [granted]
      exact formed.safe.grant (formed.waits wait listed) free
    · rw [same]
      exact formed.safe
  · intro other member
    rw [poll_waits] at member
    split_ifs at member
    · exact formed.waits other member
    · exact formed.waits other (List.mem_of_mem_erase member)

theorem formed_step {before after : LogicalRecordLocks} {event : Event} (formed : before.Formed)
    (taken : before.ByteStep event after) : after.Formed := by
  rcases taken with ⟨wellFormed, taken⟩
  cases event with
  | trySet request =>
    cases taken
    refine ⟨?_, formed.waits⟩
    rcases before.state.trySet_cases request with ⟨free, outcome⟩ | ⟨_, outcome⟩
    · simp only [outcome]
      exact formed.safe.grant wellFormed free
    · simp only [outcome]
      exact formed.safe
  | unlock file owner range =>
    cases taken
    exact ⟨formed.safe.replaceOwnerRange file owner wellFormed, formed.waits⟩
  | releaseFileOwner file owner =>
    cases taken
    exact ⟨formed.safe.filter _, formed.waits⟩
  | releaseOwner key =>
    cases taken
    exact ⟨formed.safe.filter _, formed.waits⟩
  | tryFlock file owner write =>
    cases taken
    refine ⟨?_, formed.waits⟩
    simp only [LogicalRecordLockState.tryFlock]
    split_ifs
    · exact formed.safe
    · exact formed.safe
  | unlockFlock file owner =>
    cases taken
    exact ⟨formed.safe, formed.waits⟩
  | releaseOfd file owner =>
    cases taken
    exact ⟨formed.safe.filter _, formed.waits⟩
  | mintWait request =>
    cases taken
    refine ⟨formed.safe, ?_⟩
    intro wait listed
    rcases List.mem_append.mp listed with old | new
    · exact formed.waits wait old
    · rw [List.mem_singleton.mp new]
      exact wellFormed
  | poll wait =>
    rcases step_poll taken with ⟨listed, same⟩
    subst same
    exact formed_poll formed listed
  | retract wait =>
    rcases step_retract taken with ⟨listed, same⟩
    subst same
    exact ⟨formed.safe, fun other member => formed.waits other (List.mem_of_mem_erase member)⟩

theorem formed_run {history : List Event} {table : LogicalRecordLocks}
    (run : Run (fun start => start = default) ByteStep history table) : table.Formed := by
  refine run.state_invariant Formed ?_ ?_
  · intro start starts
    subst starts
    exact ⟨Safe.empty, nofun⟩
  · intro before event after formed taken
    exact formed_step formed taken

/-- In every run with well-formed ranges the table is a byte-range lock table.
Locks of different owners share bytes only for reading, one owner's locks of a
file are disjoint and not empty, and every operation does to the bytes what
`fcntl` says: a granted set writes the requested mode over the requested bytes
of its owner, a refused one changes nothing, unlocking and the release paths
erase exactly the named bytes. -/
theorem record_locks_are_byte_ranges {history : List Event} {table : LogicalRecordLocks}
    (run : Run (fun start => start = default) ByteStep history table) :
    table.state.locks.Pairwise (fun first second =>
      first.file = second.file -> first.owner.conflictsWith second.owner = true ->
        first.range.overlaps second.range = true -> first.write = false ∧ second.write = false) ∧
    table.state.locks.Pairwise (fun first second =>
      first.file = second.file -> first.owner = second.owner ->
        first.range.overlaps second.range = false) ∧
    (∀ lock ∈ table.state.locks, lock.range.start < lock.range.stop) ∧
    (∀ request : LogicalRecordLockRequest, request.range.start < request.range.stop ->
      ((table.state.trySet request).2 = .ok () ->
        (table.state.trySet request).1.held = table.state.held.set request) ∧
      ((table.state.trySet request).2 ≠ .ok () -> (table.state.trySet request).1 = table.state)) ∧
    (∀ wait ∈ table.waits,
      ((table.poll wait).2 = .ok () ->
        (table.poll wait).1.state.held = table.state.held.set wait.request) ∧
      ((table.poll wait).2 ≠ .ok () ->
        (table.poll wait).1.state.locks = table.state.locks)) ∧
    (∀ (file : LeaseFileId) (owner : LogicalRecordLockOwner) (range : LogicalRecordLockRange),
      range.start < range.stop ->
        (table.state.unlock file owner range).held = table.state.held.clear file owner range) ∧
    (∀ (file : LeaseFileId) (owner : LogicalRecordLockOwner),
      (table.state.releaseFileOwner file owner).held = table.state.held.clearFile file owner) ∧
    (∀ key : TaskKey, (table.state.releaseOwner key).held =
      table.state.held.clearOwner (LogicalRecordLockOwner.ofTaskKey key)) ∧
    (∀ (file : LeaseFileId) (owner : Nat),
      (table.state.releaseOfd file owner).held = table.state.held.clearFile file (.ofd owner)) := by
  have formed := formed_run run
  have safe := formed.safe
  refine ⟨safe.compatible.imp ?_, safe.compatible.imp ?_, safe.nonempty, ?_, ?_, ?_,
    LogicalRecordLockState.held_releaseFileOwner safe,
    LogicalRecordLockState.held_releaseOwner safe, LogicalRecordLockState.held_releaseOfd safe⟩
  · intro first second compatible file _ overlap
    exact (compatible file overlap).2
  · intro first second compatible file owner
    by_contra overlap
    rw [Bool.not_eq_false] at overlap
    exact (compatible file overlap).1 owner
  · intro request wellFormed
    rcases table.state.trySet_cases request with ⟨free, outcome⟩ | ⟨_, outcome⟩
    · rw [outcome]
      exact ⟨fun _ => safe.heldBytes_grant wellFormed free, fun refused => absurd rfl refused⟩
    · rw [outcome]
      exact ⟨nofun, fun _ => rfl⟩
  · intro wait listed
    rw [poll_state, poll_answer]
    rcases table.state.pollSetLocked_locks wait.request wait.id with
      ⟨free, granted, locks⟩ | ⟨refused, locks⟩
    · refine ⟨fun _ => ?_, fun refused => absurd granted refused⟩
      unfold LogicalRecordLockState.held
      rw [locks]
      exact safe.heldBytes_grant (formed.waits wait listed) free
    · exact ⟨fun granted => absurd granted refused, fun _ => locks⟩
  · intro file owner range wellFormed
    exact safe.heldBytes_replaceOwnerRange wellFormed

/-- Unlocking the middle of a write lock leaves its two ends held. -/
theorem middle_unlocked_ends_held :
    let file := LeaseFileId.path "data"
    let owner := LogicalRecordLockOwner.process 7 1
    let request : LogicalRecordLockRequest := ⟨file, owner, ⟨0, 10⟩, true⟩
    let table : LogicalRecordLocks := ⟨⟨[request.lock], [], []⟩, 0, []⟩
    (table.state.unlock file owner ⟨3, 5⟩).held = table.state.held.clear file owner ⟨3, 5⟩ ∧
      (table.state.unlock file owner ⟨3, 5⟩).locks =
        [⟨file, owner, ⟨0, 3⟩, true⟩, ⟨file, owner, ⟨5, 10⟩, true⟩] := by
  intro file owner request table
  have run : Run (fun start => start = default) ByteStep [.trySet request] table :=
    .next (.initial rfl) ⟨(by decide : (0 : Nat) < 10), by decide⟩
  rcases record_locks_are_byte_ranges run with ⟨_, _, _, _, _, unlocking, _⟩
  exact ⟨unlocking file owner ⟨3, 5⟩ (by decide), by decide⟩

end LogicalRecordLocks

end RecordLocks
end Carrick
