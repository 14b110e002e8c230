import Carrick.Vfs.SparseBuffer

namespace Carrick
namespace Vfs

open Foundation

/-!
# Chunks that lie apart

`Laid` is the invariant of the chunk map: the keys increase, no chunk is empty,
none reaches the next one and all end by the length.  What a map means is the
relation `Holds` between an offset and the byte written there; under `Laid` it
is a partial function.  Clearing a range replaces each chunk by its pieces
outside the range, and both facts about the result follow from that.
-/

structure Laid (bound : Nat) (chunks : Chunks) : Prop where
  sorted : OrderedMap.Sorted chunks
  nonempty : ∀ entry ∈ chunks, 0 < entry.2.length
  apart : ∀ first second, first ∈ chunks -> second ∈ chunks -> first.1 < second.1 ->
    first.1 + first.2.length <= second.1
  ends : ∀ entry ∈ chunks, entry.1 + entry.2.length <= bound

/-- Offset `i` lies in a chunk and has the byte `b` there. -/
def Holds (chunks : Chunks) (i : Nat) (b : UInt8) : Prop :=
  ∃ entry ∈ chunks, entry.1 <= i ∧ entry.2[i - entry.1]? = some b

/-- The byte that offset `i` reads as. -/
def Reads (chunks : Chunks) (i : Nat) (b : UInt8) : Prop :=
  Holds chunks i b ∨ (b = 0 ∧ ∀ c, ¬ Holds chunks i c)

theorem chunkEnd_of_lt {entry : Nat × List UInt8} (inRange : entry.1 + entry.2.length < wordLimit) :
    chunkEnd entry = entry.1 + entry.2.length := by
  unfold chunkEnd saturatingAdd
  omega

theorem lt_length_of_getElem? {data : List UInt8} {i : Nat} {b : UInt8} (found : data[i]? = some b) :
    i < data.length :=
  (List.getElem?_eq_some_iff.mp found).1

namespace Laid

variable {bound : Nat} {chunks : Chunks}

theorem nil (bound : Nat) : Laid bound [] :=
  ⟨List.Pairwise.nil, by simp, by simp, by simp⟩

section Laid

variable (laid : Laid bound chunks)

include laid

theorem mono {larger : Nat} (le : bound <= larger) : Laid larger chunks :=
  ⟨laid.sorted, laid.nonempty, laid.apart,
    fun entry listed => le_trans (laid.ends entry listed) le⟩

theorem chunkEnd_eq (word : bound < wordLimit) {entry : Nat × List UInt8} (listed : entry ∈ chunks) :
    chunkEnd entry = entry.1 + entry.2.length :=
  chunkEnd_of_lt (lt_of_le_of_lt (laid.ends entry listed) word)

theorem same_entry {first second : Nat × List UInt8} {i : Nat} (firstListed : first ∈ chunks)
    (secondListed : second ∈ chunks) (firstCovers : first.1 <= i ∧ i < first.1 + first.2.length)
    (secondCovers : second.1 <= i ∧ i < second.1 + second.2.length) : first = second := by
  rcases Nat.lt_trichotomy first.1 second.1 with before | same | after
  · have clear := laid.apart first second firstListed secondListed before
    omega
  · exact laid.sorted.unique firstListed secondListed same
  · have clear := laid.apart second first secondListed firstListed after
    omega

theorem holds_unique {i : Nat} {b c : UInt8} (holdsB : Holds chunks i b) (holdsC : Holds chunks i c) :
    b = c := by
  rcases holdsB with ⟨first, firstListed, firstLe, firstAt⟩
  rcases holdsC with ⟨second, secondListed, secondLe, secondAt⟩
  have firstLt := lt_length_of_getElem? firstAt
  have secondLt := lt_length_of_getElem? secondAt
  have same := laid.same_entry firstListed secondListed (i := i) ⟨firstLe, by omega⟩
    ⟨secondLe, by omega⟩
  subst same
  exact Option.some.inj (firstAt.symm.trans secondAt)

theorem holds_lt {i : Nat} {b : UInt8} (held : Holds chunks i b) :
    i < bound := by
  rcases held with ⟨entry, listed, le, atI⟩
  have inside := lt_length_of_getElem? atI
  have ends := laid.ends entry listed
  omega

theorem insert {start : Nat} {data : List UInt8} (nonempty : 0 < data.length)
    (ends : start + data.length <= bound)
    (free : ∀ entry ∈ chunks, entry.1 ≠ start -> entry.1 + entry.2.length <= start ∨ start + data.length <= entry.1) :
    Laid bound (OrderedMap.insert start data chunks) := by
  refine ⟨laid.sorted.insert start data, ?_, ?_, ?_⟩
  · intro entry listed
    rcases OrderedMap.mem_insert.mp listed with same | ⟨older, _⟩
    · rw [same]
      exact nonempty
    · exact laid.nonempty entry older
  · intro first second firstListed secondListed before
    rcases OrderedMap.mem_insert.mp firstListed with firstSame | ⟨firstOlder, firstOther⟩
    · rcases OrderedMap.mem_insert.mp secondListed with secondSame | ⟨secondOlder, secondOther⟩
      · rw [firstSame, secondSame] at before
        exact absurd before (lt_irrefl _)
      subst firstSame
      rcases free second secondOlder secondOther with below | above
      · simp only at before
        omega
      · exact above
    · rcases OrderedMap.mem_insert.mp secondListed with secondSame | ⟨secondOlder, _⟩
      · subst secondSame
        rcases free first firstOlder firstOther with below | above
        · exact below
        · simp only at before
          omega
      · exact laid.apart first second firstOlder secondOlder before
  · intro entry listed
    rcases OrderedMap.mem_insert.mp listed with same | ⟨older, _⟩
    · rw [same]
      exact ends
    · exact laid.ends entry older

theorem apart_of_ne {first second : Nat × List UInt8} (firstListed : first ∈ chunks)
    (secondListed : second ∈ chunks) (different : first.1 ≠ second.1) :
    first.1 + first.2.length <= second.1 ∨ second.1 + second.2.length <= first.1 := by
  rcases Nat.lt_or_gt_of_ne different with below | above
  · exact .inl (laid.apart first second firstListed secondListed below)
  · exact .inr (laid.apart second first secondListed firstListed above)

theorem shorten {start keep : Nat} {data : List UInt8} (listed : (start, data) ∈ chunks)
    (positive : 0 < keep) :
    Laid bound (OrderedMap.insert start (data.take keep) chunks) := by
  have nonempty := laid.nonempty _ listed
  have ends := laid.ends _ listed
  simp only at nonempty ends
  refine laid.insert ?_ ?_ ?_
  · rw [List.length_take]
    omega
  · rw [List.length_take]
    omega
  intro entry entryListed different
  rw [List.length_take]
  rcases laid.apart_of_ne entryListed listed different with below | above
  · exact .inl below
  · exact .inr (by simp only at above; omega)

theorem remove (key : Nat) : Laid bound (OrderedMap.remove key chunks) :=
  ⟨laid.sorted.remove key,
    fun entry listed => laid.nonempty entry (OrderedMap.mem_remove.mp listed).1,
    fun first second firstListed secondListed =>
      laid.apart first second (OrderedMap.mem_remove.mp firstListed).1
        (OrderedMap.mem_remove.mp secondListed).1,
    fun entry listed => laid.ends entry (OrderedMap.mem_remove.mp listed).1⟩

theorem holds_insert {start : Nat} {data : List UInt8} (nonempty : 0 < data.length)
    (free : ∀ entry ∈ chunks, entry.1 + entry.2.length <= start ∨ start + data.length <= entry.1)
    {i : Nat} {b : UInt8} :
    Holds (OrderedMap.insert start data chunks) i b <->
      Holds chunks i b ∨ (start <= i ∧ data[i - start]? = some b) := by
  constructor
  · rintro ⟨entry, listed, le, atI⟩
    rcases OrderedMap.mem_insert.mp listed with same | ⟨older, _⟩
    · subst same
      exact .inr ⟨le, atI⟩
    · exact .inl ⟨entry, older, le, atI⟩
  rintro (⟨entry, listed, le, atI⟩ | ⟨le, atI⟩)
  · have different : entry.1 ≠ start := by
      have clear := free entry listed
      have inside := laid.nonempty entry listed
      omega
    exact ⟨entry, OrderedMap.mem_insert.mpr (.inr ⟨listed, different⟩), le, atI⟩
  · exact ⟨(start, data), OrderedMap.mem_insert.mpr (.inl rfl), le, atI⟩

end Laid

end Laid

/-! ## The pieces of a chunk outside a range -/

/-- What `[start, stop)` leaves of a chunk. -/
def pieces (start stop : Nat) (entry : Nat × List UInt8) : List (Nat × List UInt8) :=
  (if entry.1 < start then [(entry.1, entry.2.take (start - entry.1))] else []) ++
    (if stop < entry.1 + entry.2.length then [(max entry.1 stop, entry.2.drop (stop - entry.1))]
      else [])

section Pieces

variable {start stop : Nat} {entry piece : Nat × List UInt8}

theorem mem_pieces :
    piece ∈ pieces start stop entry <->
      (entry.1 < start ∧ piece = (entry.1, entry.2.take (start - entry.1))) ∨
        (stop < entry.1 + entry.2.length ∧
          piece = (max entry.1 stop, entry.2.drop (stop - entry.1))) := by
  unfold pieces
  rw [List.mem_append]
  split_ifs <;> simp [*]

theorem pieces_of_before (nonempty : 0 < entry.2.length) (before : start < stop)
    (ends : entry.1 + entry.2.length <= start) : pieces start stop entry = [entry] := by
  unfold pieces
  rw [if_pos (by omega), if_neg (by omega), List.take_of_length_le (by omega), List.append_nil]

theorem pieces_of_after (nonempty : 0 < entry.2.length) (before : start < stop)
    (starts : stop <= entry.1) : pieces start stop entry = [entry] := by
  unfold pieces
  rw [if_neg (by omega), if_pos (by omega), Nat.max_eq_left starts, Nat.sub_eq_zero_of_le starts,
    List.drop_zero, List.nil_append]

theorem piece_bounds (nonempty : 0 < entry.2.length)
    (listed : piece ∈ pieces start stop entry) :
    0 < piece.2.length ∧ entry.1 <= piece.1 ∧
      piece.1 + piece.2.length <= entry.1 + entry.2.length ∧
      (piece.1 = entry.1 ∧ piece.1 + piece.2.length <= start ∨ stop <= piece.1) := by
  rcases mem_pieces.mp listed with ⟨starts, same⟩ | ⟨ends, same⟩
  · subst same
    simp only [List.length_take]
    exact ⟨by omega, le_refl _, by omega, .inl ⟨trivial, by omega⟩⟩
  · subst same
    simp only [List.length_drop]
    exact ⟨by omega, by omega, by omega, .inr (by omega)⟩

theorem holds_pieces {i : Nat} {b : UInt8} :
    Holds (pieces start stop entry) i b <->
      (entry.1 <= i ∧ entry.2[i - entry.1]? = some b) ∧ ¬ (start <= i ∧ i < stop) := by
  constructor
  · rintro ⟨piece, listed, le, atI⟩
    rcases mem_pieces.mp listed with ⟨starts, same⟩ | ⟨ends, same⟩
    · subst same
      rw [List.getElem?_take] at atI
      split_ifs at atI with inside
      exact ⟨⟨le, atI⟩, by omega⟩
    subst same
    simp only at le
    have shifted : stop - entry.1 + (i - max entry.1 stop) = i - entry.1 := by omega
    rw [List.getElem?_drop, shifted] at atI
    exact ⟨⟨by omega, atI⟩, by omega⟩
  rintro ⟨⟨le, atI⟩, outside⟩
  have inside := lt_length_of_getElem? atI
  by_cases left : i < start
  · refine ⟨(entry.1, entry.2.take (start - entry.1)),
      mem_pieces.mpr (.inl ⟨by omega, rfl⟩), le, ?_⟩
    rw [List.getElem?_take, if_pos (by omega)]
    exact atI
  refine ⟨(max entry.1 stop, entry.2.drop (stop - entry.1)),
    mem_pieces.mpr (.inr ⟨by omega, rfl⟩), ?_, ?_⟩
  · simp only
    omega
  · have shifted : stop - entry.1 + (i - max entry.1 stop) = i - entry.1 := by omega
    rw [List.getElem?_drop, shifted]
    exact atI

end Pieces

/-! ## Clearing a range -/

section Clear

variable {bound start stop : Nat} {chunks : Chunks}

theorem Laid.before_predecessor (laid : Laid bound chunks) {pred entry : Nat × List UInt8}
    (found : OrderedMap.lastBelow start chunks = some pred) (listed : entry ∈ chunks)
    (below : entry.1 < start) : entry = pred ∨ entry.1 + entry.2.length <= pred.1 := by
  have last := laid.sorted.lastBelow_some found
  rcases Nat.lt_or_eq_of_le (last.2.2 entry listed below) with before | same
  · exact .inr (laid.apart entry pred listed last.1 before)
  · exact .inl (laid.sorted.unique listed last.1 same)

/-- What is left of the chunks once the predecessor is cut. -/
def CutBefore (start stop : Nat) (chunks after : Chunks) : Prop :=
  ∀ piece, piece ∈ after <->
    ∃ entry ∈ chunks,
      ((entry.1 < start ∧ piece ∈ pieces start stop entry) ∨ (start <= entry.1 ∧ piece = entry))

/-- No chunk below `start` reaches over it, so there is nothing to cut. -/
theorem cutBefore_self (laid : Laid bound chunks) (before : start < stop)
    (ends : ∀ entry ∈ chunks, entry.1 < start ->
      entry.1 + entry.2.length <= start) : CutBefore start stop chunks chunks := by
  intro piece
  constructor
  · intro listed
    refine ⟨piece, listed, ?_⟩
    by_cases below : piece.1 < start
    · rw [pieces_of_before (laid.nonempty piece listed) before (ends piece listed below)]
      exact .inl ⟨below, by simp⟩
    · exact .inr ⟨by omega, rfl⟩
  rintro ⟨entry, listed, ⟨below, isPiece⟩ | ⟨_, same⟩⟩
  · rw [pieces_of_before (laid.nonempty entry listed) before (ends entry listed below),
      List.mem_singleton] at isPiece
    rw [isPiece]
    exact listed
  · rw [same]
    exact listed

/-- Both pieces of a predecessor that reaches into the range, or beyond it. -/
theorem cutBefore_predecessor (laid : Laid bound chunks) (before : start < stop)
    {pred : Nat × List UInt8} (found : OrderedMap.lastBelow start chunks = some pred)
    (after : Chunks)
    (members : ∀ piece, piece ∈ after <->
      piece ∈ pieces start stop pred ∨ (piece ∈ chunks ∧ piece.1 ≠ pred.1)) :
    CutBefore start stop chunks after := by
  have last := laid.sorted.lastBelow_some found
  intro piece
  rw [members]
  constructor
  · rintro (isPiece | ⟨listed, different⟩)
    · exact ⟨pred, last.1, .inl ⟨last.2.1, isPiece⟩⟩
    refine ⟨piece, listed, ?_⟩
    by_cases below : piece.1 < start
    · have ends : piece.1 + piece.2.length <= start := by
        rcases laid.before_predecessor found listed below with same | clear
        · exact absurd (congrArg Prod.fst same) different
        · omega
      rw [pieces_of_before (laid.nonempty piece listed) before ends]
      exact .inl ⟨below, by simp⟩
    · exact .inr ⟨by omega, rfl⟩
  · rintro ⟨entry, listed, ⟨below, isPiece⟩ | ⟨above, same⟩⟩
    · rcases laid.before_predecessor found listed below with same | clear
      · rw [same] at isPiece
        exact .inl isPiece
      · have nonempty := laid.nonempty entry listed
        rw [pieces_of_before nonempty before (by omega), List.mem_singleton] at isPiece
        rw [isPiece]
        exact .inr ⟨listed, by omega⟩
    · rw [same]
      exact .inr ⟨listed, by omega⟩

theorem cutPredecessor_spec (laid : Laid bound chunks) (word : bound < wordLimit)
    (before : start < stop) :
    Laid bound (cutPredecessor start stop chunks) ∧
      CutBefore start stop chunks (cutPredecessor start stop chunks) := by
  unfold cutPredecessor
  cases found : OrderedMap.lastBelow start chunks with
  | none =>
    refine ⟨laid, cutBefore_self laid before ?_⟩
    intro entry listed below
    exact absurd below (OrderedMap.lastBelow_none found entry listed)
  | some pred =>
    rcases pred with ⟨predStart, predChunk⟩
    have last := laid.sorted.lastBelow_some found
    have predEnds := laid.ends _ last.1
    have predNonempty := laid.nonempty _ last.1
    have others : ∀ entry ∈ chunks, entry.1 ≠ predStart ->
        entry.1 + entry.2.length <= predStart ∨ predStart + predChunk.length <= entry.1 :=
      fun entry listed different => laid.apart_of_ne listed last.1 different
    simp only [laid.chunkEnd_eq word last.1]
    simp only at last predEnds predNonempty
    split_ifs with reaches beyond
    · have shortLaid := laid.shorten last.1 (show 0 < start - predStart by omega)
      refine ⟨shortLaid.insert ?_ ?_ ?_, ?_⟩
      · rw [List.length_drop]
        omega
      · rw [List.length_drop]
        omega
      · intro entry listed different
        rw [List.length_drop]
        rcases OrderedMap.mem_insert.mp listed with same | ⟨older, notPred⟩
        · rw [same]
          simp only [List.length_take]
          omega
        · rcases others entry older notPred with below | above <;> omega
      refine cutBefore_predecessor laid before found _ ?_
      intro piece
      rw [OrderedMap.mem_insert, OrderedMap.mem_insert, mem_pieces]
      have middle : max predStart stop = stop := by omega
      simp only [middle]
      constructor
      · rintro (right | ⟨left | older, _⟩)
        · exact .inl (.inr ⟨beyond, right⟩)
        · exact .inl (.inl ⟨last.2.1, left⟩)
        · exact .inr older
      rintro ((⟨_, left⟩ | ⟨_, right⟩) | ⟨older, notPred⟩)
      · refine .inr ⟨.inl left, ?_⟩
        rw [left]
        simp only
        omega
      · exact .inl right
      · refine .inr ⟨.inr ⟨older, notPred⟩, ?_⟩
        have nonempty := laid.nonempty piece older
        rcases others piece older notPred with below | above <;> omega
    · refine ⟨laid.shorten last.1 (by omega), cutBefore_predecessor laid before found _ ?_⟩
      intro piece
      rw [OrderedMap.mem_insert, mem_pieces]
      constructor
      · rintro (left | older)
        · exact .inl (.inl ⟨last.2.1, left⟩)
        · exact .inr older
      · rintro ((⟨_, left⟩ | ⟨wrong, _⟩) | older)
        · exact .inl left
        · exact absurd wrong beyond
        · exact .inr older
    · refine ⟨laid, cutBefore_self laid before ?_⟩
      intro entry listed below
      rcases laid.before_predecessor found listed below with same | clear
      · rw [same]
        simp only
        omega
      · simp only at clear
        omega

theorem removeUpTo_spec (laid : Laid bound chunks) (word : bound < wordLimit) {key : Nat}
    {chunk : List UInt8} (listed : (key, chunk) ∈ chunks) (below : key < stop) :
    Laid bound (removeUpTo stop chunks key) ∧
      ∀ piece, piece ∈ removeUpTo stop chunks key <->
        (piece ∈ chunks ∧ piece.1 ≠ key) ∨
          (stop < key + chunk.length ∧ piece = (stop, chunk.drop (stop - key))) := by
  unfold removeUpTo
  rw [laid.sorted.lookup_eq_some_iff.mpr listed]
  simp only [laid.chunkEnd_eq word listed]
  have ends := laid.ends _ listed
  have others : ∀ entry ∈ chunks, entry.1 ≠ key ->
      entry.1 + entry.2.length <= key ∨ key + chunk.length <= entry.1 :=
    fun entry entryListed different => laid.apart_of_ne entryListed listed different
  simp only at ends
  split_ifs with beyond
  · constructor
    · refine (laid.remove key).insert ?_ ?_ ?_
      · rw [List.length_drop]
        omega
      · rw [List.length_drop]
        omega
      · intro entry entryListed _
        rw [List.length_drop]
        rcases OrderedMap.mem_remove.mp entryListed with ⟨older, different⟩
        rcases others entry older different with before | after <;> omega
    intro piece
    rw [OrderedMap.mem_insert, OrderedMap.mem_remove]
    constructor
    · rintro (suffix | ⟨older, _⟩)
      · exact .inr ⟨beyond, suffix⟩
      · exact .inl older
    rintro (⟨older, different⟩ | ⟨_, suffix⟩)
    · refine .inr ⟨⟨older, different⟩, ?_⟩
      have nonempty := laid.nonempty piece older
      rcases others piece older different with before | after <;> omega
    · exact .inl suffix
  · refine ⟨laid.remove key, ?_⟩
    intro piece
    rw [OrderedMap.mem_remove]
    constructor
    · intro older
      exact .inl older
    · rintro (older | ⟨wrong, _⟩)
      · exact older
      · exact absurd wrong beyond

/-- The loop over the keys inside the range: their chunks go, except for what
lies beyond `stop`. -/
theorem removeAll_spec (stop : Nat) (word : bound < wordLimit) (keys : List Nat) :
    ∀ chunks : Chunks, Laid bound chunks -> keys.Nodup ->
      (∀ key ∈ keys, key < stop ∧ ∃ chunk, (key, chunk) ∈ chunks) ->
      Laid bound (keys.foldl (removeUpTo stop) chunks) ∧
        ∀ piece, piece ∈ keys.foldl (removeUpTo stop) chunks <->
          (piece ∈ chunks ∧ piece.1 ∉ keys) ∨
            ∃ entry ∈ chunks, entry.1 ∈ keys ∧ stop < entry.1 + entry.2.length ∧
              piece = (stop, entry.2.drop (stop - entry.1)) := by
  induction keys with
  | nil =>
    intro chunks laid _ _
    exact ⟨laid, by simp⟩
  | cons key rest ih =>
    intro chunks laid nodup present
    rcases present key (by simp) with ⟨below, chunk, listed⟩
    have removed := removeUpTo_spec laid word listed below
    have fresh := (List.nodup_cons.mp nodup).1
    have survives : ∀ entry, entry.1 ∈ rest ->
        (entry ∈ removeUpTo stop chunks key <-> entry ∈ chunks) := by
      intro entry later
      have entryBelow := (present entry.1 (by simp [later])).1
      rw [removed.2]
      constructor
      · rintro (⟨older, _⟩ | ⟨_, suffix⟩)
        · exact older
        · rw [suffix] at entryBelow
          exact absurd entryBelow (lt_irrefl _)
      · intro older
        exact .inl ⟨older, fun same => fresh (same ▸ later)⟩
    have folded := ih _ removed.1 (List.nodup_cons.mp nodup).2 (by
      intro later laterListed
      rcases present later (by simp [laterListed]) with ⟨laterBelow, data, older⟩
      exact ⟨laterBelow, data, (survives (later, data) laterListed).mpr older⟩)
    refine ⟨folded.1, ?_⟩
    intro piece
    rw [List.foldl_cons, folded.2, removed.2]
    constructor
    · rintro (⟨⟨older, different⟩ | ⟨beyond, suffix⟩, notLater⟩ | ⟨entry, kept, later, rest⟩)
      · exact .inl ⟨older, by simp [different, notLater]⟩
      · exact .inr ⟨(key, chunk), listed, by simp, beyond, suffix⟩
      · exact .inr ⟨entry, (survives entry later).mp kept, by simp [later], rest⟩
    rintro (⟨older, notKey⟩ | ⟨entry, older, isKey, beyond, suffix⟩)
    · rw [List.mem_cons, not_or] at notKey
      exact .inl ⟨.inl ⟨older, notKey.1⟩, notKey.2⟩
    rcases List.mem_cons.mp isKey with same | later
    · have entrySame := laid.sorted.unique older listed same
      subst entrySame
      refine .inl ⟨.inr ⟨beyond, suffix⟩, ?_⟩
      intro stopLater
      have wrong := (present piece.1 (by simp [stopLater])).1
      rw [suffix] at wrong
      exact lt_irrefl _ wrong
    · exact .inr ⟨entry, (survives entry later).mpr older, later, beyond, suffix⟩

theorem mem_clearRange (laid : Laid bound chunks) (word : bound < wordLimit)
    (before : start < stop) :
    Laid bound (clearRange start stop chunks) ∧
      ∀ piece, piece ∈ clearRange start stop chunks <->
        ∃ entry ∈ chunks, piece ∈ pieces start stop entry := by
  have cut := cutPredecessor_spec laid word before
  unfold clearRange
  simp only
  generalize cutPredecessor start stop chunks = between at cut
  have inside : ∀ entry ∈ between,
      (entry.1 ∈ (OrderedMap.between start stop between).map Prod.fst <->
        start <= entry.1 ∧ entry.1 < stop) := by
    intro entry listed
    rw [List.mem_map]
    constructor
    · rintro ⟨other, found, same⟩
      rw [<- same]
      exact (OrderedMap.mem_between.mp found).2
    · intro range
      exact ⟨entry, OrderedMap.mem_between.mpr ⟨listed, range⟩, rfl⟩
  have removed := removeAll_spec stop word
    ((OrderedMap.between start stop between).map Prod.fst) between cut.1 (by
      have keys : ((OrderedMap.between start stop between).map Prod.fst).Pairwise (· < ·) :=
        List.pairwise_map.mpr (cut.1.sorted.filter _)
      exact keys.imp (fun less => ne_of_lt less)) (by
      intro key listed
      rcases List.mem_map.mp listed with ⟨entry, found, same⟩
      have entryInside := OrderedMap.mem_between.mp found
      rw [<- same]
      exact ⟨entryInside.2.2, entry.2, entryInside.1⟩)
  refine ⟨removed.1, ?_⟩
  intro piece
  rw [removed.2]
  constructor
  · rintro (⟨kept, outside⟩ | ⟨entry, kept, isInside, beyond, suffix⟩)
    · rw [inside piece kept] at outside
      rcases (cut.2 piece).mp kept with ⟨entry, listed, ⟨_, isPiece⟩ | ⟨above, same⟩⟩
      · exact ⟨entry, listed, isPiece⟩
      · subst same
        refine ⟨piece, listed, ?_⟩
        rw [pieces_of_after (laid.nonempty piece listed) before (by omega)]
        simp
    rw [inside entry kept] at isInside
    rcases (cut.2 entry).mp kept with ⟨older, listed, ⟨below, isPiece⟩ | ⟨_, same⟩⟩
    · have bounds := piece_bounds (laid.nonempty older listed) isPiece
      omega
    · subst same
      refine ⟨entry, listed, mem_pieces.mpr (.inr ⟨beyond, ?_⟩)⟩
      rw [suffix, Nat.max_eq_right (by omega)]
  rintro ⟨entry, listed, isPiece⟩
  have bounds := piece_bounds (laid.nonempty entry listed) isPiece
  by_cases below : entry.1 < start
  · have kept : piece ∈ between := (cut.2 piece).mpr ⟨entry, listed, .inl ⟨below, isPiece⟩⟩
    refine .inl ⟨kept, ?_⟩
    rw [inside piece kept]
    omega
  have kept : entry ∈ between := (cut.2 entry).mpr ⟨entry, listed, .inr ⟨by omega, rfl⟩⟩
  by_cases above : stop <= entry.1
  · rw [pieces_of_after (laid.nonempty entry listed) before above, List.mem_singleton] at isPiece
    subst isPiece
    refine .inl ⟨kept, ?_⟩
    rw [inside piece kept]
    omega
  · rcases mem_pieces.mp isPiece with ⟨wrong, _⟩ | ⟨beyond, same⟩
    · exact absurd wrong below
    · refine .inr ⟨entry, kept, (inside entry kept).mpr ⟨by omega, by omega⟩, beyond, ?_⟩
      rw [same, Nat.max_eq_right (by omega)]

theorem holds_clearRange (laid : Laid bound chunks) (word : bound < wordLimit)
    (before : start < stop) {i : Nat} {b : UInt8} :
    Holds (clearRange start stop chunks) i b <->
      Holds chunks i b ∧ ¬ (start <= i ∧ i < stop) := by
  have members := (mem_clearRange laid word before).2
  constructor
  · rintro ⟨piece, kept, le, atI⟩
    rcases (members piece).mp kept with ⟨entry, listed, isPiece⟩
    have held := holds_pieces.mp ⟨piece, isPiece, le, atI⟩
    exact ⟨⟨entry, listed, held.1⟩, held.2⟩
  · rintro ⟨⟨entry, listed, held⟩, outside⟩
    rcases holds_pieces.mpr ⟨held, outside⟩ with ⟨piece, isPiece, le, atI⟩
    exact ⟨piece, (members piece).mpr ⟨entry, listed, isPiece⟩, le, atI⟩

theorem clearRange_free (laid : Laid bound chunks) (word : bound < wordLimit)
    (before : start < stop) {entry : Nat × List UInt8}
    (listed : entry ∈ clearRange start stop chunks) :
    entry.1 + entry.2.length <= start ∨ stop <= entry.1 := by
  rcases ((mem_clearRange laid word before).2 entry).mp listed with ⟨older, olderListed, isPiece⟩
  have bounds := piece_bounds (laid.nonempty older olderListed) isPiece
  omega

end Clear

end Vfs
end Carrick
