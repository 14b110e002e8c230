import Carrick.Vfs.Refinement

namespace Carrick
namespace Vfs

open Foundation

/-!
# Seeking data and holes

`seek_data` and `seek_hole` work in blocks of `chunkSize` bytes: a block is data
when some chunk meets it.  Both answer from the offset they are asked about, in
its own block or at the start of the first block of the other kind.  Asking the
two in turn from offset zero lists the runs of data blocks.
-/

theorem chunkSize_eq : chunkSize = 4096 := by
  unfold chunkSize
  rfl

/-- The largest length for which the offsets of the seeks are positive `i64`s. -/
def i64Max : Nat := 2 ^ 63 - 1

/-- The number of blocks up to `offset`, rounded up. -/
def blocksUpTo (offset : Nat) : Nat := (offset + (chunkSize - 1)) / chunkSize

/-- The loop of `seek_hole`: extend the run of blocks that ends before `stop` by
the chunks that start in it or at its end. -/
def extendRun : Nat -> Chunks -> Nat
  | stop, [] => stop
  | stop, entry :: rest =>
    if stop < entry.1 / chunkSize then stop
    else
      extendRun (if stop < blocksUpTo (chunkEnd entry) then blocksUpTo (chunkEnd entry) else stop)
        rest

namespace SparseBuffer

/-- Whether a chunk meets `[start, stop)`. -/
def rangeHasChunks (buffer : SparseBuffer) (start stop : Nat) : Bool :=
  if stop <= start then false
  else
    (OrderedMap.lastBelow start buffer.chunks).any (fun pred => start < chunkEnd pred) ||
      (OrderedMap.between start stop buffer.chunks).head?.any (fun first => first.1 < stop)

def seekData (buffer : SparseBuffer) (offset : Nat) : Option Nat :=
  if buffer.len <= offset then none
  else
    let blockStart := offset / chunkSize * chunkSize
    let blockEnd := min (saturatingAdd blockStart chunkSize) buffer.len
    if buffer.rangeHasChunks blockStart blockEnd then some offset
    else
      let nextSearchStart := saturatingAdd blockStart chunkSize
      if buffer.len <= nextSearchStart then none
      else
        match OrderedMap.firstFrom nextSearchStart buffer.chunks with
        | none => none
        | some (nextChunkOffset, _) =>
          if buffer.len <= nextChunkOffset then none
          else
            let dataStart := nextChunkOffset / chunkSize * chunkSize
            if dataStart < buffer.len then some dataStart else none

/-- The first block that the run from `block` on does not reach. -/
def runEnd (buffer : SparseBuffer) (block : Nat) : Nat :=
  let curPos := block * chunkSize
  let pred := (OrderedMap.lastUpTo curPos buffer.chunks).filter
    (fun entry => curPos < chunkEnd entry)
  extendRun (match pred with
      | some entry => blocksUpTo (chunkEnd entry)
      | none => block + 1)
    (buffer.chunks.filter (fun entry => curPos <= entry.1))

def seekHole (buffer : SparseBuffer) (offset : Nat) : Option Nat :=
  if buffer.len <= offset then none
  else
    let block := offset / chunkSize
    let blockEnd := min (saturatingAdd (block * chunkSize) chunkSize) buffer.len
    if buffer.rangeHasChunks (block * chunkSize) blockEnd = false then some offset
    else
      let holeStart := buffer.runEnd block * chunkSize % wordLimit
      if holeStart < buffer.len then some holeStart else some buffer.len

/-- The extents found by asking for data and for a hole in turn; `none` is a walk
that has not ended. -/
def extents (buffer : SparseBuffer) : Nat -> Nat -> Option (List (Nat × Nat))
  | 0, _ => none
  | fuel + 1, offset =>
    match buffer.seekData offset with
    | none => some []
    | some start =>
      match buffer.seekHole start with
      | none => some []
      | some stop => (extents buffer fuel stop).map (fun later => (start, stop) :: later)

end SparseBuffer

/-! ## Data blocks -/

def Meets (entry : Nat × List UInt8) (block : Nat) : Prop :=
  entry.1 < (block + 1) * chunkSize ∧ block * chunkSize < entry.1 + entry.2.length

def DataBlock (chunks : Chunks) (block : Nat) : Prop :=
  ∃ entry ∈ chunks, Meets entry block

theorem lt_blocksUpTo (block offset : Nat) :
    block < blocksUpTo offset <-> block * chunkSize < offset := by
  unfold blocksUpTo
  rw [chunkSize_eq]
  omega

theorem meets_iff (entry : Nat × List UInt8) (block : Nat) :
    Meets entry block <->
      entry.1 / chunkSize <= block ∧ block < blocksUpTo (entry.1 + entry.2.length) := by
  rw [lt_blocksUpTo]
  unfold Meets
  rw [chunkSize_eq]
  omega

/-- `next` is the first block behind `block` with the property. -/
def FirstAfter (holds : Nat -> Prop) (block next : Nat) : Prop :=
  block < next ∧ holds next ∧ ∀ between, block < between -> between < next -> ¬ holds between

theorem block_start_le (offset : Nat) : offset / chunkSize * chunkSize <= offset :=
  Nat.div_mul_le_self _ _

theorem lt_block_end (offset : Nat) : offset < offset / chunkSize * chunkSize + chunkSize := by
  rw [chunkSize_eq]
  omega

section Seeks

variable {buffer : SparseBuffer} {bound : Nat} {chunks : Chunks}

theorem word_of_small (small : bound <= i64Max) : bound + chunkSize < wordLimit := by
  unfold i64Max at small
  unfold wordLimit
  rw [chunkSize_eq]
  omega

variable {offset : Nat}

theorem block_end_eq (small : bound <= i64Max) (inside : offset < bound) :
    saturatingAdd (offset / chunkSize * chunkSize) chunkSize =
      offset / chunkSize * chunkSize + chunkSize := by
  have word := word_of_small small
  have start := block_start_le offset
  unfold saturatingAdd
  omega

theorem rangeHasChunks_iff (laid : Laid buffer.len buffer.chunks) (small : buffer.len <= i64Max)
    (inside : offset < buffer.len) :
    buffer.rangeHasChunks (offset / chunkSize * chunkSize)
        (min (saturatingAdd (offset / chunkSize * chunkSize) chunkSize) buffer.len) = true <->
      DataBlock buffer.chunks (offset / chunkSize) := by
  have word : buffer.len < wordLimit := by
    have room := word_of_small small
    omega
  have start := block_start_le offset
  have positive := chunkSize_pos
  have next : (offset / chunkSize + 1) * chunkSize = offset / chunkSize * chunkSize + chunkSize :=
    Nat.succ_mul _ _
  unfold SparseBuffer.rangeHasChunks
  rw [block_end_eq small inside, if_neg (by omega), Bool.or_eq_true]
  constructor
  · rintro (before | within)
    · rcases (Option.any_eq_true _ _).mp before with ⟨pred, found, reaches⟩
      rcases laid.sorted.lastBelow_some found with ⟨listed, below, _⟩
      rw [decide_eq_true_eq, laid.chunkEnd_eq word listed] at reaches
      exact ⟨pred, listed, by omega, reaches⟩
    · rcases (Option.any_eq_true _ _).mp within with ⟨first, found, _⟩
      rcases OrderedMap.mem_between.mp (List.mem_of_head? found) with ⟨listed, above, below⟩
      have nonempty := laid.nonempty first listed
      exact ⟨first, listed, by omega, by omega⟩
  rintro ⟨entry, listed, starts, ends⟩
  have bounded := laid.ends entry listed
  have nonempty := laid.nonempty entry listed
  by_cases below : entry.1 < offset / chunkSize * chunkSize
  · refine .inl ?_
    cases found : OrderedMap.lastBelow (offset / chunkSize * chunkSize) buffer.chunks with
    | none => exact absurd below (OrderedMap.lastBelow_none found entry listed)
    | some pred =>
      rcases laid.sorted.lastBelow_some found with ⟨predListed, predBelow, _⟩
      rcases laid.before_predecessor found listed below with same | apart
      · rw [Option.any_some, decide_eq_true_eq, laid.chunkEnd_eq word predListed, <- same]
        exact ends
      · omega
  refine .inr ?_
  have member : entry ∈ OrderedMap.between (offset / chunkSize * chunkSize)
      (min (offset / chunkSize * chunkSize + chunkSize) buffer.len) buffer.chunks :=
    OrderedMap.mem_between.mpr ⟨listed, by omega, by omega⟩
  cases found : (OrderedMap.between (offset / chunkSize * chunkSize)
      (min (offset / chunkSize * chunkSize + chunkSize) buffer.len) buffer.chunks).head? with
  | none =>
    rw [List.head?_eq_none_iff.mp found] at member
    exact absurd member List.not_mem_nil
  | some first =>
    have firstBelow := (OrderedMap.mem_between.mp (List.mem_of_head? found)).2.2
    rw [Option.any_some, decide_eq_true_eq]
    exact firstBelow

/-! ## Seeking data -/

theorem dataBlock_of_start (laid : Laid bound chunks) {entry : Nat × List UInt8}
    (listed : entry ∈ chunks) : DataBlock chunks (entry.1 / chunkSize) := by
  have nonempty := laid.nonempty entry listed
  refine ⟨entry, listed, ?_⟩
  unfold Meets
  rw [chunkSize_eq]
  omega

/-- A chunk that meets a block behind one that is no data starts behind that one. -/
theorem starts_behind {entry : Nat × List UInt8} {block next : Nat} (listed : entry ∈ chunks)
    (hole : ¬ DataBlock chunks block) (later : block < next) (met : Meets entry next) :
    block * chunkSize + chunkSize <= entry.1 := by
  by_contra before
  have order : (block + 1) * chunkSize <= next * chunkSize := Nat.mul_le_mul_right _ later
  rw [Nat.succ_mul] at order
  refine hole ⟨entry, listed, ?_, ?_⟩
  · rw [Nat.succ_mul]
    omega
  · have reached := met.2
    omega

/-- `seek_data` answers from the block of the offset or with the first data
block behind it. -/
theorem seekData_spec (laid : Laid buffer.len buffer.chunks) (small : buffer.len <= i64Max)
    (inside : offset < buffer.len) :
    (DataBlock buffer.chunks (offset / chunkSize) -> buffer.seekData offset = some offset) ∧
      (¬ DataBlock buffer.chunks (offset / chunkSize) ->
        (∃ next, FirstAfter (DataBlock buffer.chunks) (offset / chunkSize) next ∧
            buffer.seekData offset = some (next * chunkSize)) ∨
          ((∀ next, offset / chunkSize < next -> ¬ DataBlock buffer.chunks next) ∧
            buffer.seekData offset = none)) := by
  have decides := rangeHasChunks_iff laid small inside
  unfold SparseBuffer.seekData
  rw [if_neg (by omega)]
  simp only
  constructor
  · intro data
    rw [if_pos (decides.mpr data)]
  intro hole
  rw [if_neg (fun covered => hole (decides.mp covered)), block_end_eq small inside]
  by_cases last : buffer.len <= offset / chunkSize * chunkSize + chunkSize
  · rw [if_pos last]
    refine .inr ⟨?_, rfl⟩
    rintro next later ⟨entry, listed, met⟩
    have behind := starts_behind listed hole later met
    have ends := laid.ends entry listed
    have nonempty := laid.nonempty entry listed
    omega
  rw [if_neg last]
  cases found : OrderedMap.firstFrom (offset / chunkSize * chunkSize + chunkSize)
      buffer.chunks with
  | none =>
    refine .inr ⟨?_, rfl⟩
    rintro next later ⟨entry, listed, met⟩
    exact OrderedMap.firstFrom_none found entry listed (starts_behind listed hole later met)
  | some first =>
    rcases laid.sorted.firstFrom_some found with ⟨listed, above, least⟩
    have ends := laid.ends first listed
    have nonempty := laid.nonempty first listed
    have start := block_start_le first.1
    refine .inl ⟨first.1 / chunkSize, ⟨?_, dataBlock_of_start laid listed, ?_⟩, ?_⟩
    · rw [chunkSize_eq] at above ⊢
      omega
    · rintro between later sooner ⟨entry, entryListed, met⟩
      have order := least entry entryListed (starts_behind entryListed hole later met)
      unfold Meets at met
      rw [chunkSize_eq] at met sooner
      omega
    · simp only
      rw [if_neg (by omega), if_pos (by omega)]

/-! ## Seeking a hole -/

/-- The loop of `seek_hole` extends the run by the chunks it passes, and stops
at a block that none of them meets. -/
theorem extendRun_spec (entries : Chunks) : ∀ (stop : Nat), OrderedMap.Sorted entries ->
    (∀ entry ∈ entries, chunkEnd entry = entry.1 + entry.2.length) ->
    stop <= extendRun stop entries ∧
      (∀ block, stop <= block -> block < extendRun stop entries -> DataBlock entries block) ∧
      ¬ DataBlock entries (extendRun stop entries) := by
  induction entries with
  | nil =>
    intro stop _ _
    refine ⟨le_refl _, ?_, ?_⟩
    · intro block lower upper
      unfold extendRun at upper
      omega
    · rintro ⟨entry, listed, _⟩
      exact absurd listed List.not_mem_nil
  | cons entry rest ih =>
    intro stop sorted ends
    have behind := (List.pairwise_cons.mp sorted).1
    have stopEnd := ends entry (by simp)
    unfold extendRun
    split_ifs with gap reaches
    · refine ⟨le_refl _, fun block lower upper => absurd upper (by omega), ?_⟩
      rintro ⟨other, listed, met⟩
      have starts := ((meets_iff other stop).mp met).1
      rcases List.mem_cons.mp listed with same | later
      · rw [same] at starts
        omega
      · have order := Nat.div_le_div_right (c := chunkSize) (le_of_lt (behind other later))
        omega
    · have onward := ih (blocksUpTo (chunkEnd entry))
        (List.pairwise_cons.mp sorted).2 (fun other listed => ends other (by simp [listed]))
      rw [stopEnd] at onward reaches ⊢
      refine ⟨by omega, ?_, ?_⟩
      · intro block lower upper
        by_cases within : block < blocksUpTo (entry.1 + entry.2.length)
        · exact ⟨entry, by simp, (meets_iff entry block).mpr ⟨by omega, within⟩⟩
        · rcases onward.2.1 block (by omega) upper with ⟨other, listed, met⟩
          exact ⟨other, by simp [listed], met⟩
      rintro ⟨other, listed, met⟩
      rcases List.mem_cons.mp listed with same | later
      · have reached := ((meets_iff other _).mp met).2
        rw [same] at reached
        omega
      · exact onward.2.2 ⟨other, later, met⟩
    · have onward := ih stop
        (List.pairwise_cons.mp sorted).2 (fun other listed => ends other (by simp [listed]))
      rw [stopEnd] at reaches
      refine ⟨onward.1, ?_, ?_⟩
      · intro block lower upper
        rcases onward.2.1 block lower upper with ⟨other, listed, met⟩
        exact ⟨other, by simp [listed], met⟩
      rintro ⟨other, listed, met⟩
      rcases List.mem_cons.mp listed with same | later
      · have reached := ((meets_iff other _).mp met).2
        rw [same] at reached
        omega
      · exact onward.2.2 ⟨other, later, met⟩

/-- The run starts with the end of the chunk that reaches the block from below, if any. -/
theorem runStart_spec (laid : Laid buffer.len buffer.chunks) (word : buffer.len < wordLimit)
    {block : Nat} (data : DataBlock buffer.chunks block) :
    let stop := match (OrderedMap.lastUpTo (block * chunkSize) buffer.chunks).filter
        (fun entry => block * chunkSize < chunkEnd entry) with
      | some entry => blocksUpTo (chunkEnd entry)
      | none => block + 1
    block < stop ∧ (∀ later, block <= later -> later < stop -> DataBlock buffer.chunks later) ∧
      ∀ entry ∈ buffer.chunks, entry.1 < block * chunkSize ->
        ∀ later, stop <= later -> ¬ Meets entry later := by
  intro stop
  cases found : OrderedMap.lastUpTo (block * chunkSize) buffer.chunks with
  | none =>
    have shape : stop = block + 1 := by
      unfold stop
      rw [found]
      rfl
    rw [shape]
    refine ⟨by omega, ?_, ?_⟩
    · intro later lower upper
      rw [show later = block by omega]
      exact data
    · intro entry listed below
      exact absurd (le_of_lt below) (OrderedMap.lastUpTo_none found entry listed)
  | some last =>
    rcases laid.sorted.lastUpTo_some found with ⟨lastListed, lastStarts, greatest⟩
    have lastEnd := laid.chunkEnd_eq word lastListed
    have passed : ∀ entry ∈ buffer.chunks, entry.1 < block * chunkSize ->
        entry = last ∨ entry.1 + entry.2.length <= block * chunkSize := by
      intro entry listed below
      rcases Nat.lt_or_eq_of_le (greatest entry listed (le_of_lt below)) with before | same
      · have apart := laid.apart entry last listed lastListed before
        exact .inr (by omega)
      · exact .inl (laid.sorted.unique listed lastListed same)
    by_cases reaches : block * chunkSize < chunkEnd last
    · have shape : stop = blocksUpTo (last.1 + last.2.length) := by
        unfold stop
        rw [found, Option.filter_some_pos (by simpa using reaches), <- lastEnd]
      rw [shape]
      rw [lastEnd] at reaches
      have covered : last.1 / chunkSize <= block := by
        rw [chunkSize_eq] at lastStarts ⊢
        omega
      refine ⟨(lt_blocksUpTo _ _).mpr reaches, ?_, ?_⟩
      · intro later lower upper
        exact ⟨last, lastListed, (meets_iff last later).mpr ⟨by omega, upper⟩⟩
      intro entry listed below later beyond met
      have reached := ((meets_iff entry later).mp met).2
      rcases passed entry listed below with same | clear
      · rw [same] at reached
        omega
      have blocks := (lt_blocksUpTo _ _).mpr reaches
      rw [lt_blocksUpTo] at reached
      have order : block * chunkSize <= later * chunkSize :=
        Nat.mul_le_mul_right _ (by omega)
      omega
    · have shape : stop = block + 1 := by
        unfold stop
        rw [found, Option.filter_some_neg (by simpa using reaches)]
      rw [shape]
      rw [lastEnd] at reaches
      refine ⟨by omega, ?_, ?_⟩
      · intro later lower upper
        rw [show later = block by omega]
        exact data
      intro entry listed below later beyond met
      have reached := ((meets_iff entry later).mp met).2
      rw [lt_blocksUpTo] at reached
      have order : block * chunkSize <= later * chunkSize :=
        Nat.mul_le_mul_right _ (by omega)
      rcases passed entry listed below with same | clear
      · rw [same] at reached
        omega
      · omega

/-- The run from a data block ends at the first block behind it that is no data. -/
theorem runEnd_spec (laid : Laid buffer.len buffer.chunks) (word : buffer.len < wordLimit)
    {block : Nat} (data : DataBlock buffer.chunks block) :
    FirstAfter (fun later => ¬ DataBlock buffer.chunks later) block (buffer.runEnd block) := by
  rcases runStart_spec laid word data with ⟨starts, covered, passed⟩
  rcases extendRun_spec (buffer.chunks.filter (fun entry => block * chunkSize <= entry.1)) _
    (laid.sorted.filter _)
    (fun entry listed => laid.chunkEnd_eq word (List.mem_of_mem_filter listed)) with
    ⟨onward, extended, stops⟩
  refine ⟨lt_of_lt_of_le starts onward, ?_, ?_⟩
  · rintro ⟨entry, listed, met⟩
    by_cases below : entry.1 < block * chunkSize
    · exact passed entry listed below _ onward met
    · refine stops ⟨entry, List.mem_filter.mpr ⟨listed, ?_⟩, met⟩
      simpa using below
  intro between later sooner
  rw [not_not]
  by_cases first : between < (match (OrderedMap.lastUpTo (block * chunkSize) buffer.chunks).filter
      (fun entry => block * chunkSize < chunkEnd entry) with
    | some entry => blocksUpTo (chunkEnd entry)
    | none => block + 1)
  · exact covered between (le_of_lt later) first
  · rcases extended between (by omega) sooner with ⟨entry, listed, met⟩
    exact ⟨entry, List.mem_of_mem_filter listed, met⟩

theorem runEnd_bounds (laid : Laid buffer.len buffer.chunks) (small : buffer.len <= i64Max)
    {block : Nat} (data : DataBlock buffer.chunks block) :
    buffer.runEnd block * chunkSize % wordLimit = buffer.runEnd block * chunkSize := by
  have room := word_of_small small
  rcases runEnd_spec laid (by omega) data with ⟨later, _, covered⟩
  have last : DataBlock buffer.chunks (buffer.runEnd block - 1) := by
    by_cases same : buffer.runEnd block - 1 = block
    · rw [same]
      exact data
    · exact not_not.mp (covered (buffer.runEnd block - 1) (by omega) (by omega))
  rcases last with ⟨entry, listed, _, ends⟩
  have bounded := laid.ends entry listed
  have split : buffer.runEnd block * chunkSize =
      (buffer.runEnd block - 1) * chunkSize + chunkSize := by
    rw [<- Nat.succ_mul]
    congr 1
    omega
  exact Nat.mod_eq_of_lt (by omega)

/-- `seek_hole` answers from the block of the offset or with the first block
behind it that is no data, and at the latest with the length. -/
theorem seekHole_spec (laid : Laid buffer.len buffer.chunks) (small : buffer.len <= i64Max)
    (inside : offset < buffer.len) :
    (¬ DataBlock buffer.chunks (offset / chunkSize) -> buffer.seekHole offset = some offset) ∧
      (DataBlock buffer.chunks (offset / chunkSize) ->
        ∃ next, FirstAfter (fun block => ¬ DataBlock buffer.chunks block) (offset / chunkSize) next ∧
          buffer.seekHole offset = some (min buffer.len (next * chunkSize))) := by
  have decides := rangeHasChunks_iff laid small inside
  have room := word_of_small small
  unfold SparseBuffer.seekHole
  rw [if_neg (by omega)]
  simp only
  constructor
  · intro hole
    rw [if_pos (Bool.eq_false_iff.mpr (fun covered => hole (decides.mp covered)))]
  intro data
  rw [if_neg (by rw [decides.mpr data]; decide), runEnd_bounds laid small data]
  refine ⟨_, runEnd_spec laid (by omega) data, ?_⟩
  split_ifs with before
  · rw [Nat.min_eq_right (le_of_lt before)]
  · rw [Nat.min_eq_left (by omega)]

/-! ## Extents -/

/-- The list names the data of `[offset, len)`: extents apart from each other,
and an offset lies in one exactly when its block is data. -/
structure Lists (buffer : SparseBuffer) (offset : Nat) (extents : List (Nat × Nat)) : Prop where
  within : ∀ extent ∈ extents,
    offset <= extent.1 ∧ extent.1 < extent.2 ∧ extent.2 <= buffer.len
  apart : extents.Pairwise (fun first second => first.2 < second.1)
  covers : ∀ i, offset <= i -> i < buffer.len ->
    (DataBlock buffer.chunks (i / chunkSize) <->
      ∃ extent ∈ extents, extent.1 <= i ∧ i < extent.2)

theorem Lists.nil (hole : ∀ i, offset <= i -> i < buffer.len ->
    ¬ DataBlock buffer.chunks (i / chunkSize)) : Lists buffer offset [] := by
  refine ⟨by simp, List.Pairwise.nil, ?_⟩
  intro i lower upper
  refine ⟨fun data => absurd data (hole i lower upper), ?_⟩
  rintro ⟨extent, listed, _⟩
  exact absurd listed List.not_mem_nil

/-- An extent of data is put before those behind it when a hole lies between. -/
theorem Lists.cons {start stop : Nat} {later : List (Nat × Nat)}
    (lists : Lists buffer stop later) (lower : offset <= start) (nonempty : start < stop)
    (ends : stop <= buffer.len)
    (before : ∀ i, offset <= i -> i < start -> ¬ DataBlock buffer.chunks (i / chunkSize))
    (data : ∀ i, start <= i -> i < stop -> DataBlock buffer.chunks (i / chunkSize))
    (hole : stop < buffer.len -> ¬ DataBlock buffer.chunks (stop / chunkSize)) :
    Lists buffer offset ((start, stop) :: later) := by
  refine ⟨?_, List.pairwise_cons.mpr ⟨?_, lists.apart⟩, ?_⟩
  · intro extent listed
    rcases List.mem_cons.mp listed with same | behind
    · rw [same]
      exact ⟨lower, nonempty, ends⟩
    · rcases lists.within extent behind with ⟨starts, size, inside⟩
      exact ⟨by omega, size, inside⟩
  · intro extent listed
    rcases lists.within extent listed with ⟨starts, size, inside⟩
    rcases Nat.lt_or_eq_of_le starts with behind | same
    · exact behind
    · exact absurd ((lists.covers stop (le_refl _) (by omega)).mpr
        ⟨extent, listed, by omega, by omega⟩) (hole (by omega))
  intro i above inside
  by_cases early : i < start
  · refine ⟨fun found => absurd found (before i above early), ?_⟩
    rintro ⟨extent, listed, starts, _⟩
    rcases List.mem_cons.mp listed with same | behind
    · rw [same] at starts
      simp only at starts
      omega
    · have bounds := lists.within extent behind
      omega
  by_cases within : i < stop
  · exact ⟨fun _ => ⟨(start, stop), by simp, by simpa using early, within⟩,
      fun _ => data i (by omega) within⟩
  rw [lists.covers i (by omega) inside]
  constructor
  · rintro ⟨extent, listed, covered⟩
    exact ⟨extent, by simp [listed], covered⟩
  rintro ⟨extent, listed, starts, reaches⟩
  rcases List.mem_cons.mp listed with same | behind
  · rw [same] at reaches
    simp only at reaches
    omega
  · exact ⟨extent, behind, starts, reaches⟩

theorem block_le_block {i j : Nat} (order : i <= j) : i / chunkSize <= j / chunkSize :=
  Nat.div_le_div_right order

theorem block_of_start (block : Nat) : block * chunkSize / chunkSize = block :=
  Nat.mul_div_cancel _ chunkSize_pos

section Laid

variable (laid : Laid buffer.len buffer.chunks) (small : buffer.len <= i64Max)

include laid small

theorem seekData_none {offset : Nat} (absent : buffer.seekData offset = none) {i : Nat}
    (lower : offset <= i) (upper : i < buffer.len) : ¬ DataBlock buffer.chunks (i / chunkSize) := by
  rcases seekData_spec laid small (lt_of_le_of_lt lower upper) with ⟨here, ahead⟩
  have hole : ¬ DataBlock buffer.chunks (offset / chunkSize) := by
    intro data
    rw [here data] at absent
    cases absent
  rcases ahead hole with ⟨next, _, found⟩ | ⟨nothing, _⟩
  · rw [found] at absent
    cases absent
  · rcases Nat.lt_or_eq_of_le (block_le_block lower) with later | same
    · exact nothing _ later
    · rw [<- same]
      exact hole

theorem seekData_some {offset start : Nat} (found : buffer.seekData offset = some start) :
    offset <= start ∧ start < buffer.len ∧ DataBlock buffer.chunks (start / chunkSize) ∧
      ∀ i, offset <= i -> i < start -> ¬ DataBlock buffer.chunks (i / chunkSize) := by
  have inside : offset < buffer.len := by
    by_contra beyond
    unfold SparseBuffer.seekData at found
    rw [if_pos (by omega)] at found
    cases found
  rcases seekData_spec laid small inside with ⟨here, ahead⟩
  by_cases data : DataBlock buffer.chunks (offset / chunkSize)
  · rw [here data] at found
    cases found
    exact ⟨le_refl _, inside, data, fun i lower upper => absurd upper (by omega)⟩
  rcases ahead data with ⟨next, ⟨later, nextData, first⟩, answer⟩ | ⟨_, nothing⟩
  · rw [answer] at found
    cases found
    have order : offset < next * chunkSize := (Nat.div_lt_iff_lt_mul chunkSize_pos).mp later
    have size : next * chunkSize < buffer.len := by
      rcases nextData with ⟨entry, listed, _, reaches⟩
      have ends := laid.ends entry listed
      omega
    refine ⟨le_of_lt order, size, ?_, ?_⟩
    · rw [block_of_start]
      exact nextData
    intro i lower upper
    rcases Nat.lt_or_eq_of_le (block_le_block lower) with behind | same
    · exact first _ behind ((Nat.div_lt_iff_lt_mul chunkSize_pos).mpr upper)
    · rw [<- same]
      exact data
  · rw [nothing] at found
    cases found

theorem seekHole_of_data {start : Nat} (inside : start < buffer.len)
    (data : DataBlock buffer.chunks (start / chunkSize)) :
    ∃ stop, buffer.seekHole start = some stop ∧ start < stop ∧ stop <= buffer.len ∧
      (∀ i, start <= i -> i < stop -> DataBlock buffer.chunks (i / chunkSize)) ∧
      (stop < buffer.len -> ¬ DataBlock buffer.chunks (stop / chunkSize)) := by
  rcases (seekHole_spec laid small inside).2 data with ⟨next, ⟨later, hole, covered⟩, answer⟩
  have order : start < next * chunkSize := (Nat.div_lt_iff_lt_mul chunkSize_pos).mp later
  refine ⟨_, answer, by omega, Nat.min_le_left _ _, ?_, ?_⟩
  · intro i lower upper
    have sooner : i / chunkSize < next := (Nat.div_lt_iff_lt_mul chunkSize_pos).mpr (by omega)
    rcases Nat.lt_or_eq_of_le (block_le_block lower) with behind | same
    · exact not_not.mp (covered _ behind sooner)
    · rw [<- same]
      exact data
  · intro short
    rw [show min buffer.len (next * chunkSize) = next * chunkSize by omega, block_of_start]
    exact hole

/-- Asking in turn ends and lists the data, once the fuel exceeds the bytes left. -/
theorem extents_spec (left : Nat) : ∀ offset, buffer.len - offset <= left ->
    ∃ list, Lists buffer offset list ∧
      ∀ fuel, left < fuel -> buffer.extents fuel offset = some list := by
  induction left with
  | zero =>
    intro offset short
    refine ⟨[], Lists.nil (fun i lower upper => absurd upper (by omega)), ?_⟩
    intro fuel enough
    cases fuel with
    | zero => omega
    | succ fuel =>
      unfold SparseBuffer.extents SparseBuffer.seekData
      rw [if_pos (by omega)]
  | succ left ih =>
    intro offset short
    cases found : buffer.seekData offset with
    | none =>
      refine ⟨[], Lists.nil (fun i lower upper => seekData_none laid small found lower upper), ?_⟩
      intro fuel enough
      cases fuel with
      | zero => omega
      | succ fuel =>
        unfold SparseBuffer.extents
        rw [found]
    | some start =>
      rcases seekData_some laid small found with ⟨lower, inside, data, before⟩
      rcases seekHole_of_data laid small inside data with
        ⟨stop, answer, nonempty, ends, run, hole⟩
      rcases ih stop (by omega) with ⟨later, lists, walk⟩
      refine ⟨(start, stop) :: later, lists.cons lower nonempty ends before run hole, ?_⟩
      intro fuel enough
      cases fuel with
      | zero => omega
      | succ fuel =>
        unfold SparseBuffer.extents
        rw [found]
        simp only
        rw [answer]
        simp only
        rw [walk fuel (by omega)]
        rfl

end Laid

end Seeks

theorem dataBlock_of_byte {buffer : SparseBuffer} {file : List UInt8} (rep : Represents buffer file)
    {i : Nat} {b : UInt8} (found : file[i]? = some b) (nonzero : b ≠ 0) :
    DataBlock buffer.chunks (i / chunkSize) := by
  rcases rep.reads i b found with ⟨entry, listed, starts, here⟩ | ⟨zero, _⟩
  · have inside := lt_length_of_getElem? here
    have start := block_start_le i
    have stop := lt_block_end i
    refine ⟨entry, listed, ?_, by omega⟩
    rw [Nat.succ_mul]
    omega
  · exact absurd zero nonzero

/-- For every buffer that a history of edits reaches and whose length is an
`i64`: from each offset within it the seeks find the first block of data and the
first block without, and asking them in turn from zero ends with a list of
extents, apart from each other, that hold exactly the data blocks and so every
byte of the file other than zero. -/
theorem seeks_list_extents (origin : Origin) (originInRange : origin.InRange)
    (history : List Edit) (inRange : ∀ edit ∈ history, edit.InRange) :
    let buffer := replay SparseBuffer.apply origin.buffer history
    let data := DataBlock buffer.chunks
    buffer.len <= i64Max ->
      (∀ offset, offset < buffer.len ->
        (data (offset / chunkSize) -> buffer.seekData offset = some offset) ∧
        (¬ data (offset / chunkSize) ->
          (∃ next, FirstAfter data (offset / chunkSize) next ∧
              buffer.seekData offset = some (next * chunkSize)) ∨
            ((∀ next, offset / chunkSize < next -> ¬ data next) ∧
              buffer.seekData offset = none)) ∧
        (¬ data (offset / chunkSize) -> buffer.seekHole offset = some offset) ∧
        (data (offset / chunkSize) ->
          ∃ next, FirstAfter (fun block => ¬ data block) (offset / chunkSize) next ∧
            buffer.seekHole offset = some (min buffer.len (next * chunkSize)))) ∧
      ∃ list, (∀ fuel, buffer.len < fuel -> buffer.extents fuel 0 = some list) ∧
        Lists buffer 0 list ∧
        ∀ (i : Nat) (b : UInt8), buffer.toVec[i]? = some b -> b ≠ 0 ->
          ∃ extent ∈ list, extent.1 <= i ∧ i < extent.2 := by
  intro buffer data small
  have rep : Represents buffer (replay Dense.apply origin.file history) :=
    replay_represents originInRange inRange
  constructor
  · intro offset inside
    rcases seekData_spec rep.laid small inside with ⟨dataHere, dataAhead⟩
    rcases seekHole_spec rep.laid small inside with ⟨holeHere, holeAhead⟩
    exact ⟨dataHere, dataAhead, holeHere, holeAhead⟩
  rcases extents_spec rep.laid small buffer.len 0 (by omega) with ⟨list, lists, walk⟩
  refine ⟨list, walk, lists, ?_⟩
  intro i b found nonzero
  rw [rep.toVec_eq] at found
  have inside : i < buffer.len := by
    rw [rep.length]
    exact (List.getElem?_eq_some_iff.mp found).1
  exact (lists.covers i (Nat.zero_le _) inside).mp (dataBlock_of_byte rep found nonzero)

/-- One byte written behind a hole and a tail without chunks: the extents are
the one block of the byte. -/
theorem seeks_list_extents_one_byte :
    let buffer := replay SparseBuffer.apply Origin.new.buffer [.writeRange 5000 [7], .setLen 20000]
    (∀ fuel, 20000 < fuel -> buffer.extents fuel 0 = some [(4096, 8192)]) ∧
      buffer.seekData 10000 = none ∧ buffer.seekHole 6000 = some 8192 := by
  intro buffer
  have edits : ∀ edit ∈ [Edit.writeRange 5000 [7], Edit.setLen 20000],
      edit.InRange := by
    intro edit listed
    rcases List.mem_cons.mp listed with first | later
    · rw [first]
      trivial
    · rw [List.mem_singleton.mp later]
      exact (by decide : 20000 < wordLimit)
  have length : buffer.len = 20000 := by
    decide +kernel
  have small : buffer.len <= i64Max := by
    rw [length]
    decide
  rcases (seeks_list_extents .new trivial _ edits small).2 with ⟨list, walk, _⟩
  have found : buffer.extents 20001 0 = some [(4096, 8192)] := by
    decide +kernel
  have same : list = [(4096, 8192)] := by
    have enough := walk 20001 (by rw [length]; decide)
    exact Option.some.inj (enough.symm.trans found)
  refine ⟨?_, by decide +kernel, by decide +kernel⟩
  intro fuel enough
  rw [<- same]
  exact walk fuel (by rw [length]; exact enough)

end Vfs
end Carrick
