import Carrick.Vfs.DenseFile

namespace Carrick
namespace Vfs

open Foundation

/-!
# A sparse buffer refines a dense file

What a buffer answers is determined by the file it represents: reads are slices
of the file, and the equality implementations compare the files, however
differently the two buffers are cut into chunks.
-/

section Reading

variable {buffer : SparseBuffer} {file : List UInt8}

theorem Represents.readRange_eq (rep : Represents buffer file) (offset length : Nat) :
    buffer.readRange offset length = slice file offset length := by
  have read := readRange_spec rep.laid rep.word offset length
  have lengths := rep.length
  refine List.ext_getElem? ?_
  intro j
  rw [getElem?_slice]
  by_cases inside : j < min length (buffer.len - offset)
  · have found := List.getElem?_eq_getElem (l := file) (i := offset + j) (by omega)
    rw [if_pos (by omega), found]
    exact read.2 j _ inside (rep.reads _ _ found)
  have beyond : (buffer.readRange offset length)[j]? = none :=
    List.getElem?_eq_none (by omega)
  rw [beyond]
  split_ifs with short
  · exact (List.getElem?_eq_none (by omega)).symm
  · rfl

theorem Represents.toVec_eq (rep : Represents buffer file) : buffer.toVec = file := by
  unfold SparseBuffer.toVec
  rw [rep.readRange_eq, rep.length]
  unfold slice
  rw [List.drop_zero, List.take_length]

end Reading

/-! ## Comparing two buffers -/

section Walk

variable {self other : SparseBuffer} {selfFile otherFile : List UInt8}

/-- Nothing is held between an offset no chunk covers and the next start. -/
theorem hole_empty (laid : Laid self.len self.chunks) (word : self.len < wordLimit)
    {offset len i : Nat} (inactive : (self.activeEnd offset).isNone) (lower : offset <= i)
    (upper : i < self.nextStart offset len) {b : UInt8} : ¬ Holds self.chunks i b := by
  rintro ⟨entry, listed, starts, atI⟩
  have ends := lt_length_of_getElem? atI
  have isNone : self.activeEnd offset = none := Option.isNone_iff_eq_none.mp inactive
  by_cases below : entry.1 <= offset
  · cases found : OrderedMap.lastUpTo offset self.chunks with
    | none => exact OrderedMap.lastUpTo_none found entry listed below
    | some last =>
      have lastOne := laid.sorted.lastUpTo_some found
      unfold SparseBuffer.activeEnd at isNone
      rw [found, Option.map_some, laid.chunkEnd_eq word lastOne.1, Option.filter_eq_none_iff]
        at isNone
      have short : ¬ offset < last.1 + last.2.length := by simpa using isNone _ rfl
      rcases Nat.lt_or_eq_of_le (lastOne.2.2 entry listed below) with before | same
      · have clear := laid.apart entry last listed lastOne.1 before
        omega
      · have isLast := laid.sorted.unique listed lastOne.1 same
        subst isLast
        omega
  · unfold SparseBuffer.nextStart at upper
    rw [isNone] at upper
    simp only [Option.isSome_none, Bool.false_eq_true, if_false] at upper
    cases found : OrderedMap.firstFrom offset self.chunks with
    | none => exact OrderedMap.firstFrom_none found entry listed (by omega)
    | some first =>
      have least := (laid.sorted.firstFrom_some found).2.2 entry listed (by omega)
      rw [found, Option.map_some, Option.getD_some] at upper
      omega

theorem Represents.slice_hole (rep : Represents self selfFile) (offset count : Nat)
    (inside : offset + count <= selfFile.length)
    (empty : ∀ i b, offset <= i -> i < offset + count -> ¬ Holds self.chunks i b) :
    slice selfFile offset count = List.replicate count 0 := by
  refine List.ext_getElem? ?_
  intro j
  rw [getElem?_slice, List.getElem?_replicate]
  split_ifs with below
  · have found := List.getElem?_eq_getElem (l := selfFile) (i := offset + j) (by omega)
    rw [found]
    rcases rep.reads _ _ found with held | ⟨zero, _⟩
    · exact absurd held (empty _ _ (by omega) (by omega))
    · rw [zero]
  · rfl

theorem drop_eq_iff (left right : List UInt8) (offset count : Nat) :
    left.drop offset = right.drop offset <->
      slice left offset count = slice right offset count ∧
        left.drop (offset + count) = right.drop (offset + count) := by
  unfold slice
  constructor
  · intro same
    rw [<- List.drop_drop, <- List.drop_drop, same]
    exact ⟨rfl, rfl⟩
  · rintro ⟨front, back⟩
    rw [<- List.drop_drop, <- List.drop_drop] at back
    rw [<- List.take_append_drop count (left.drop offset), front, back, List.take_append_drop]

theorem eqWalk_spec (selfRep : Represents self selfFile) (otherRep : Represents other otherFile)
    (sameLen : self.len = other.len) :
    ∀ fuel offset, offset <= self.len -> self.len - offset < fuel ->
      SparseBuffer.eqWalk self other fuel offset =
        some (decide (selfFile.drop offset = otherFile.drop offset)) := by
  have selfLength := selfRep.length
  have otherLength := otherRep.length
  have size := chunkSize_pos
  intro fuel
  induction fuel with
  | zero =>
    intro offset _ short
    omega
  | succ fuel ih =>
    intro offset within enough
    unfold SparseBuffer.eqWalk
    by_cases inside : offset < self.len
    · rw [if_pos inside]
      simp only
      split_ifs with hole differs
      · rcases hole with ⟨selfInactive, otherInactive, advances⟩
        generalize holeEndEq : min (min (self.nextStart offset self.len)
          (other.nextStart offset self.len)) self.len = holeEnd at advances
        rw [ih holeEnd (by omega) (by omega)]
        have selfZero := selfRep.slice_hole offset (holeEnd - offset)
          (by omega) (fun i b lower upper =>
            hole_empty selfRep.laid selfRep.word selfInactive lower
              (show i < self.nextStart offset self.len by omega))
        have otherZero := otherRep.slice_hole offset (holeEnd - offset)
          (by omega) (fun i b lower upper =>
            hole_empty otherRep.laid otherRep.word otherInactive lower
              (show i < other.nextStart offset self.len by omega))
        have onward := drop_eq_iff selfFile otherFile offset
          (holeEnd - offset)
        rw [selfZero, otherZero, Nat.add_sub_of_le (by omega)] at onward
        simp only [onward, true_and]
      · rw [selfRep.readRange_eq, otherRep.readRange_eq] at differs
        have onward := drop_eq_iff selfFile otherFile offset
          (min (self.len - offset) chunkSize)
        have unequal : ¬ selfFile.drop offset = otherFile.drop offset :=
          fun same => differs (onward.mp same).1
        rw [decide_eq_false unequal]
      · rw [selfRep.readRange_eq, otherRep.readRange_eq, not_not] at differs
        rw [ih _ (by omega) (by omega)]
        have onward := drop_eq_iff selfFile otherFile offset
          (min (self.len - offset) chunkSize)
        simp only [onward, differs, true_and]
    · rw [if_neg inside, List.drop_eq_nil_of_le (by omega), List.drop_eq_nil_of_le (by omega)]
      simp

theorem file_unique (selfRep : Represents self selfFile) (otherRep : Represents self otherFile) :
    selfFile = otherFile :=
  selfRep.toVec_eq.symm.trans otherRep.toVec_eq

theorem eqBuffer_spec (selfRep : Represents self selfFile) (otherRep : Represents other otherFile) :
    SparseBuffer.eqBuffer self other = some (decide (selfFile = otherFile)) := by
  unfold SparseBuffer.eqBuffer
  split_ifs with different same
  · have unequal : ¬ selfFile = otherFile := by
      intro equal
      rw [selfRep.length, otherRep.length, equal] at different
      exact different rfl
    rw [decide_eq_false unequal]
  · have sameBuffer : self = other := by
      cases self
      cases other
      simp only [ne_eq, not_not] at different
      simp only at same
      rw [different, same]
    subst sameBuffer
    rw [decide_eq_true (file_unique selfRep otherRep)]
  · rw [ne_eq, not_not] at different
    rw [eqWalk_spec selfRep otherRep different (self.len + 1) 0 (by omega) (by omega)]
    simp only [List.drop_zero]

end Walk

/-! ## Comparing a buffer with bytes -/

section Bytes

variable {other : List UInt8}

theorem all_zero_slice (other : List UInt8) (start stop : Nat) :
    (slice other start (stop - start)).all (· == 0) = true <->
      ∀ i b, start <= i -> i < stop -> other[i]? = some b -> b = 0 := by
  rw [List.all_eq_true]
  constructor
  · intro zero i b lower upper found
    have listed : b ∈ slice other start (stop - start) := by
      refine List.mem_of_getElem? (i := i - start) ?_
      rw [getElem?_slice, if_pos (by omega), Nat.add_sub_of_le lower]
      exact found
    simpa using zero b listed
  · intro zero b listed
    rcases List.getElem?_of_mem listed with ⟨j, found⟩
    rw [getElem?_slice] at found
    split_ifs at found with inside
    simpa using zero (start + j) b (by omega) (by omega) found

/-- The comparison from `lastEnd` on: the chunks in order, then the tail. -/
def tailEq (other : List UInt8) (lastEnd : Nat) (entries : Chunks) : Bool :=
  match SparseBuffer.eqChunks other lastEnd entries with
  | none => false
  | some stop => ¬ (stop < other.length ∧ ¬ (slice other stop (other.length - stop)).all (· == 0))

/-- The bytes from `lastEnd` on are what the chunks read as. -/
def Matches (other : List UInt8) (lastEnd : Nat) (entries : Chunks) : Prop :=
  ∀ i b, lastEnd <= i -> other[i]? = some b -> Reads entries i b

/-- Zeros up to the first chunk, its bytes, and a match from its end on. -/
theorem matches_cons {lastEnd : Nat} {entry : Nat × List UInt8} {rest : Chunks}
    (laid : Laid other.length (entry :: rest)) (starts : lastEnd <= entry.1) :
    Matches other lastEnd (entry :: rest) <->
      (∀ i b, lastEnd <= i -> i < entry.1 -> other[i]? = some b -> b = 0) ∧
        slice other entry.1 entry.2.length = entry.2 ∧
        Matches other (entry.1 + entry.2.length) rest := by
  have ends := laid.ends entry (by simp)
  have later : ∀ next ∈ rest, entry.1 + entry.2.length <= next.1 := by
    intro next listed
    exact laid.apart entry next (by simp) (by simp [listed])
      ((List.pairwise_cons.mp laid.sorted).1 next listed)
  have before : ∀ i b, i < entry.1 -> ¬ Holds (entry :: rest) i b := by
    rintro i b below ⟨next, listed, le, _⟩
    rcases List.mem_cons.mp listed with same | isLater
    · rw [same] at le
      omega
    · have clear := later next isLater
      omega
  have behind : ∀ i c, entry.1 + entry.2.length <= i ->
      (Holds (entry :: rest) i c <-> Holds rest i c) := by
    intro i c above
    constructor
    · rintro ⟨next, listed, le, atI⟩
      rcases List.mem_cons.mp listed with same | isLater
      · have inside := lt_length_of_getElem? atI
        rw [same] at inside
        omega
      · exact ⟨next, isLater, le, atI⟩
    · rintro ⟨next, listed, held⟩
      exact ⟨next, by simp [listed], held⟩
  constructor
  · intro agrees
    refine ⟨?_, ?_, ?_⟩
    · intro i b lower upper found
      rcases agrees i b lower found with held | ⟨zero, _⟩
      · exact absurd held (before i b upper)
      · exact zero
    · refine List.ext_getElem? ?_
      intro j
      rw [getElem?_slice]
      split_ifs with inside
      · have found := List.getElem?_eq_getElem (l := other) (i := entry.1 + j) (by omega)
        have chunkAt := List.getElem?_eq_getElem (l := entry.2) (i := j) inside
        have held : Holds (entry :: rest) (entry.1 + j) _ :=
          ⟨entry, by simp, by omega, by rw [Nat.add_sub_cancel_left]; exact chunkAt⟩
        rw [found, chunkAt]
        rcases agrees _ _ (by omega) found with otherHeld | ⟨_, empty⟩
        · rw [laid.holds_unique otherHeld held]
        · exact absurd held (empty _)
      · exact (List.getElem?_eq_none (by omega)).symm
    · intro i b lower found
      exact (agrees i b (by omega) found).congr (fun c => (behind i c lower).symm)
  · rintro ⟨gap, chunk, agrees⟩ i b lower found
    by_cases below : i < entry.1
    · exact .inr ⟨gap i b lower below found, fun c => before i c below⟩
    by_cases inside : i < entry.1 + entry.2.length
    · refine .inl ⟨entry, by simp, by omega, ?_⟩
      rw [<- chunk, getElem?_slice, if_pos (by omega), Nat.add_sub_of_le (by omega)]
      exact found
    · exact (agrees i b (by omega) found).congr (fun c => behind i c (by omega))

theorem tailEq_spec (word : other.length < wordLimit) (entries : Chunks) :
    ∀ lastEnd, lastEnd <= other.length -> Laid other.length entries ->
      (∀ entry ∈ entries, lastEnd <= entry.1) ->
      (tailEq other lastEnd entries = true <-> Matches other lastEnd entries) := by
  induction entries with
  | nil =>
    intro lastEnd within _ _
    have nothing : ∀ i b, ¬ Holds [] i b := by
      rintro i b ⟨_, wrong, _⟩
      cases wrong
    have zeros := all_zero_slice other lastEnd other.length
    unfold tailEq SparseBuffer.eqChunks
    simp only [decide_eq_true_eq, not_and, not_not, zeros]
    constructor
    · intro zero i b lower found
      have upper := lt_length_of_getElem? found
      exact .inr ⟨zero (by omega) i b lower upper found, nothing i⟩
    · intro agrees _ i b lower _ found
      rcases agrees i b lower found with held | ⟨zero, _⟩
      · exact absurd held (nothing i b)
      · exact zero
  | cons entry rest ih =>
    intro lastEnd within laid starts
    have first := starts entry (by simp)
    have ends := laid.ends entry (by simp)
    have restLaid : Laid other.length rest :=
      ⟨(List.pairwise_cons.mp laid.sorted).2,
        fun next listed => laid.nonempty next (by simp [listed]),
        fun one two oneListed twoListed =>
          laid.apart one two (by simp [oneListed]) (by simp [twoListed]),
        fun next listed => laid.ends next (by simp [listed])⟩
    have onward := ih (entry.1 + entry.2.length) ends restLaid (by
      intro next listed
      exact laid.apart entry next (by simp) (by simp [listed])
        ((List.pairwise_cons.mp laid.sorted).1 next listed))
    have zeros := all_zero_slice other lastEnd entry.1
    rw [matches_cons laid first, <- onward, <- zeros]
    unfold tailEq
    rw [SparseBuffer.eqChunks, laid.chunkEnd_eq word (by simp : entry ∈ entry :: rest),
      Nat.add_sub_cancel_left]
    split_ifs with gap chunk
    · simp [gap.2]
    · simp [chunk]
    rw [ne_eq, not_not] at chunk
    have gapZero : (slice other lastEnd (entry.1 - lastEnd)).all (· == 0) = true := by
      by_cases strict : lastEnd < entry.1
      · by_contra nonzero
        exact gap ⟨strict, nonzero⟩
      · rw [show entry.1 - lastEnd = 0 by omega, slice_zero]
        rfl
    simp only [gapZero, chunk, true_and]

theorem all_zero_eq_tailEq (other : List UInt8) : other.all (· == 0) = tailEq other 0 [] := by
  have whole : slice other 0 (other.length - 0) = other := by
    unfold slice
    rw [List.drop_zero, Nat.sub_zero, List.take_length]
  unfold tailEq SparseBuffer.eqChunks
  simp only
  rw [whole]
  cases other with
  | nil => rfl
  | cons byte rest =>
    rw [Bool.eq_iff_iff]
    simp

theorem eqSlice_spec {self : SparseBuffer} {file : List UInt8} (rep : Represents self file)
    (other : List UInt8) : self.eqSlice other = decide (file = other) := by
  unfold SparseBuffer.eqSlice
  by_cases sameLen : self.len = other.length
  · rw [if_neg (not_not.mpr sameLen)]
    have laid := rep.laid
    have word := rep.word
    rw [sameLen] at laid word
    have compared := tailEq_spec word self.chunks 0 (by omega) laid (fun _ _ => Nat.zero_le _)
    have equal : Matches other 0 self.chunks <-> file = other := by
      constructor
      · intro agrees
        exact file_unique rep ⟨sameLen, rep.word, rep.laid,
          fun i b found => agrees i b (Nat.zero_le i) found⟩
      · intro same i b _ found
        rw [<- same] at found
        exact rep.reads i b found
    rw [Bool.eq_iff_iff, decide_eq_true_iff, <- equal, <- compared]
    split_ifs with empty
    · rw [empty, all_zero_eq_tailEq]
    · rw [sameLen]
      rfl
  · rw [if_pos sameLen]
    have unequal : ¬ file = other := by
      intro same
      rw [rep.length, same] at sameLen
      exact sameLen rfl
    rw [decide_eq_false unequal]

end Bytes

/-- For every buffer that a history of edits reaches, and the dense file that
the same history makes: the chunks are nonempty, apart and within the length,
every read is a slice of the file, the write errors are those of the file, and
the equality implementations compare files. -/
theorem sparseBuffer_refines_dense (origin : Origin) (originInRange : origin.InRange)
    (history : List Edit) (inRange : ∀ edit ∈ history, edit.InRange) :
    let buffer := replay SparseBuffer.apply origin.buffer history
    let file := replay Dense.apply origin.file history
    Laid buffer.len buffer.chunks ∧ buffer.len = file.length ∧
      (∀ offset length, buffer.readRange offset length = slice file offset length) ∧
      buffer.toVec = file ∧
      (∀ offset bytes,
        (buffer.writeRange offset bytes).2 = (Dense.writeRange file offset bytes).2) ∧
      (∀ bytes,
        (buffer.extendFromSlice bytes).2 = (Dense.extendFromSlice file bytes).2) ∧
      (∀ bytes, buffer.eqSlice bytes = decide (file = bytes)) ∧
      (∀ (n : Nat) (array : Vector UInt8 n),
        buffer.eqArray array = decide (file = array.toList)) ∧
      (∀ (otherOrigin : Origin) (otherHistory : List Edit), otherOrigin.InRange ->
        (∀ edit ∈ otherHistory, edit.InRange) ->
        buffer.eqBuffer (replay SparseBuffer.apply otherOrigin.buffer otherHistory) =
          some (decide (file = replay Dense.apply otherOrigin.file otherHistory))) := by
  intro buffer file
  have rep : Represents buffer file := replay_represents originInRange inRange
  refine ⟨rep.laid, rep.length, rep.readRange_eq, rep.toVec_eq, ?_, ?_, eqSlice_spec rep, ?_, ?_⟩
  · intro offset bytes
    exact (rep.writeRange offset bytes).2
  · intro bytes
    exact (rep.extendFromSlice bytes).2
  · intro n array
    exact eqSlice_spec rep array.toList
  · intro otherOrigin otherHistory otherOriginInRange otherInRange
    exact eqBuffer_spec rep (replay_represents otherOriginInRange otherInRange)

/-- Two ways to the file `[0, 0, 7, 0]`: a write behind a hole, and holes
punched into a longer write.  The buffers are cut differently and compare equal. -/
theorem sparseBuffer_refines_dense_punched :
    let written := replay SparseBuffer.apply Origin.new.buffer [.writeRange 2 [7, 0]]
    let punched := replay SparseBuffer.apply (Origin.fromVec [5, 6, 7, 8, 9]).buffer
      [.truncate 4, .punchHole 3 9, .punchHole 0 2]
    written ≠ punched ∧ written.eqBuffer punched = some true ∧
      written.readRange 1 9 = [0, 7, 0] := by
  have refined := sparseBuffer_refines_dense .new trivial [.writeRange 2 [7, 0]]
    (by simp [Edit.InRange])
  have punchedInRange : (Origin.fromVec [5, 6, 7, 8, 9]).InRange :=
    (by decide : 5 < wordLimit)
  have equal := refined.2.2.2.2.2.2.2.2 (.fromVec [5, 6, 7, 8, 9])
    [.truncate 4, .punchHole 3 9, .punchHole 0 2] punchedInRange (by simp [Edit.InRange])
  have sameFile : replay Dense.apply Origin.new.file [.writeRange 2 [7, 0]] =
      replay Dense.apply (Origin.fromVec [5, 6, 7, 8, 9]).file
        [.truncate 4, .punchHole 3 9, .punchHole 0 2] := by
    decide
  refine ⟨by decide +kernel, ?_, ?_⟩
  · rw [equal, decide_eq_true sameFile]
  · rw [refined.2.2.1 1 9]
    decide

end Vfs
end Carrick
