import Carrick.Vfs.ChunkLayout

namespace Carrick
namespace Vfs

open Foundation

/-!
# What each operation does to the bytes

Every operation keeps the chunks apart and acts on `Holds` alone: a write
replaces the bytes of its range, a shorter length forgets the bytes from it on,
and a read returns the byte of each offset it covers.
-/

section Write

variable {bound : Nat} {chunks : Chunks}

/-- The bytes after `bytes` were written at `offset`. -/
def Written (offset : Nat) (bytes : List UInt8) (chunks after : Chunks) : Prop :=
  ∀ i b, Holds after i b <->
    (Holds chunks i b ∧ ¬ (offset <= i ∧ i < offset + bytes.length)) ∨
      (offset <= i ∧ bytes[i - offset]? = some b)

theorem Written.nil (offset : Nat) (chunks : Chunks) : Written offset [] chunks chunks := by
  intro i b
  constructor
  · intro held
    exact .inl ⟨held, by simp only [List.length_nil]; omega⟩
  · rintro (⟨held, _⟩ | ⟨_, wrong⟩)
    · exact held
    · cases wrong

theorem Written.append {offset : Nat} {front back : List UInt8} {between after : Chunks}
    (first : Written offset front chunks between)
    (second : Written (offset + front.length) back between after) :
    Written offset (front ++ back) chunks after := by
  intro i b
  rw [second i b, first i b, List.length_append]
  have inFront : offset <= i -> i < offset + front.length ->
      (front ++ back)[i - offset]? = front[i - offset]? := by
    intro lower upper
    exact List.getElem?_append_left (by omega)
  have inBack : offset + front.length <= i ->
      (front ++ back)[i - offset]? = back[i - (offset + front.length)]? := by
    intro lower
    rw [List.getElem?_append_right (by omega), Nat.sub_sub]
  constructor
  · rintro (⟨⟨held, outside⟩ | ⟨lower, atI⟩, notBack⟩ | ⟨lower, atI⟩)
    · exact .inl ⟨held, by omega⟩
    · have inside := lt_length_of_getElem? atI
      rw [inFront lower (by omega)]
      exact .inr ⟨lower, atI⟩
    · rw [inBack lower]
      exact .inr ⟨by omega, atI⟩
  rintro (⟨held, outside⟩ | ⟨lower, atI⟩)
  · exact .inl ⟨.inl ⟨held, by omega⟩, by omega⟩
  by_cases upper : i < offset + front.length
  · rw [inFront lower upper] at atI
    exact .inl ⟨.inr ⟨lower, atI⟩, by omega⟩
  · rw [inBack (by omega)] at atI
    exact .inr ⟨by omega, atI⟩

theorem writeChunk_spec (laid : Laid bound chunks) (word : bound < wordLimit) (offset : Nat)
    {piece : List UInt8} (nonempty : 0 < piece.length) (ends : offset + piece.length <= bound) :
    Laid bound (writeChunk (offset, chunks) piece).2 ∧
      Written offset piece chunks (writeChunk (offset, chunks) piece).2 := by
  have before : offset < offset + piece.length := by omega
  have cleared := (mem_clearRange laid word before).1
  have free : ∀ entry ∈ clearRange offset (offset + piece.length) chunks,
      entry.1 + entry.2.length <= offset ∨ offset + piece.length <= entry.1 :=
    fun _ listed => clearRange_free laid word before listed
  unfold writeChunk
  simp only
  constructor
  · exact cleared.insert nonempty ends (fun entry listed _ => free entry listed)
  · intro i b
    rw [cleared.holds_insert nonempty free, holds_clearRange laid word before]

theorem writeChunks_spec (word : bound < wordLimit) (bytes : List UInt8) :
    ∀ (offset : Nat) (chunks : Chunks), Laid bound chunks -> offset + bytes.length <= bound ->
      Laid bound ((Foundation.chunks chunkSize bytes).foldl writeChunk (offset, chunks)).2 ∧
        Written offset bytes chunks
          ((Foundation.chunks chunkSize bytes).foldl writeChunk (offset, chunks)).2 := by
  have size := chunkSize_pos
  refine chunks_induction size (fun items pieces =>
    ∀ (offset : Nat) (chunks : Chunks), Laid bound chunks -> offset + items.length <= bound ->
      Laid bound (pieces.foldl writeChunk (offset, chunks)).2 ∧
        Written offset items chunks (pieces.foldl writeChunk (offset, chunks)).2) ?_ ?_ bytes
  · intro offset chunks laid _
    exact ⟨laid, Written.nil offset chunks⟩
  intro items pieces nonempty onward offset chunks laid ends
  have positive := List.length_pos_of_ne_nil nonempty
  have lengths : items.length = (items.take chunkSize).length + (items.drop chunkSize).length := by
    rw [<- List.length_append, List.take_append_drop]
  have taken : 0 < (items.take chunkSize).length := by
    rw [List.length_take]
    omega
  have first := writeChunk_spec laid word offset taken (by omega)
  have later := onward (offset + (items.take chunkSize).length) _ first.1 (by omega)
  rw [List.foldl_cons]
  refine ⟨later.1, ?_⟩
  have both := first.2.append later.2
  rw [List.take_append_drop] at both
  exact both

theorem Written.move {offset other : Nat} {after : Chunks} (written : Written offset [] chunks after) :
    Written other [] chunks after := by
  intro i b
  rw [written i b]
  simp

/-- A write in two parts, the second at a fixed distance: when nothing is left
for it, its offset does not matter. -/
theorem Written.take_drop {offset size : Nat} {items : List UInt8} {between after : Chunks}
    (first : Written offset (items.take size) chunks between)
    (second : Written (offset + size) (items.drop size) between after) :
    Written offset items chunks after := by
  have moved : Written (offset + (items.take size).length) (items.drop size) between after := by
    by_cases long : size <= items.length
    · rw [List.length_take, Nat.min_eq_left long]
      exact second
    · rw [List.drop_eq_nil_of_le (by omega)] at second ⊢
      exact second.move
  have both := first.append moved
  rw [List.take_append_drop] at both
  exact both

theorem insert_behind (laid : Laid bound chunks) {offset : Nat} {piece : List UInt8}
    (behind : ∀ entry ∈ chunks, entry.1 + entry.2.length <= offset)
    (nonempty : 0 < piece.length) (ends : offset + piece.length <= bound) :
    Laid bound (OrderedMap.insert offset piece chunks) ∧
      Written offset piece chunks (OrderedMap.insert offset piece chunks) := by
  constructor
  · exact laid.insert nonempty ends (fun entry listed _ => .inl (behind entry listed))
  intro i b
  rw [laid.holds_insert nonempty (fun entry listed => .inl (behind entry listed))]
  constructor
  · rintro (held | placed)
    · refine .inl ⟨held, ?_⟩
      rcases held with ⟨entry, listed, le, atI⟩
      have inside := lt_length_of_getElem? atI
      have clear := behind entry listed
      omega
    · exact .inr placed
  · rintro (⟨held, _⟩ | placed)
    · exact .inl held
    · exact .inr placed

theorem placeChunks_spec (data : List UInt8) :
    ∀ (index : Nat) (placed : Chunks), Laid bound placed ->
      (∀ entry ∈ placed, entry.1 + entry.2.length <= index * chunkSize) ->
      (data ≠ [] -> index * chunkSize + data.length <= bound) ->
      Laid bound (((Foundation.chunks chunkSize data).zipIdx index).foldl
          (fun placed piece => OrderedMap.insert (piece.2 * chunkSize) piece.1 placed) placed) ∧
        Written (index * chunkSize) data placed
          (((Foundation.chunks chunkSize data).zipIdx index).foldl
            (fun placed piece => OrderedMap.insert (piece.2 * chunkSize) piece.1 placed) placed) := by
  have size := chunkSize_pos
  refine chunks_induction size (fun items pieces =>
    ∀ (index : Nat) (placed : Chunks), Laid bound placed ->
      (∀ entry ∈ placed, entry.1 + entry.2.length <= index * chunkSize) ->
      (items ≠ [] -> index * chunkSize + items.length <= bound) ->
      Laid bound ((pieces.zipIdx index).foldl
          (fun placed piece => OrderedMap.insert (piece.2 * chunkSize) piece.1 placed) placed) ∧
        Written (index * chunkSize) items placed ((pieces.zipIdx index).foldl
          (fun placed piece => OrderedMap.insert (piece.2 * chunkSize) piece.1 placed) placed))
    ?_ ?_ data
  · intro index placed laid _ _
    exact ⟨laid, Written.nil _ placed⟩
  intro items pieces nonempty onward index placed laid behind fits
  have positive := List.length_pos_of_ne_nil nonempty
  have ends := fits nonempty
  have taken : (items.take chunkSize).length = min chunkSize items.length := List.length_take
  have next : (index + 1) * chunkSize = index * chunkSize + chunkSize := Nat.succ_mul _ _
  have first := insert_behind laid behind (show 0 < (items.take chunkSize).length by omega)
    (by omega)
  have later := onward (index + 1) _ first.1 (by
      intro entry listed
      rcases OrderedMap.mem_insert.mp listed with same | ⟨older, _⟩
      · rw [same]
        simp only
        omega
      · have clear := behind entry older
        omega) (by
      intro remaining
      have long : 0 < (items.drop chunkSize).length := List.length_pos_of_ne_nil remaining
      rw [List.length_drop] at long ⊢
      omega)
  rw [List.zipIdx_cons, List.foldl_cons]
  refine ⟨later.1, ?_⟩
  rw [next] at later
  exact first.2.take_drop later.2

end Write

/-! ## Pruning -/

section Prune

variable {bound : Nat} {chunks : Chunks}

theorem removeKeys_spec (keys : List Nat) :
    ∀ chunks : Chunks, Laid bound chunks ->
      Laid bound (keys.foldl (fun remaining key => OrderedMap.remove key remaining) chunks) ∧
        ∀ entry,
          entry ∈ keys.foldl (fun remaining key => OrderedMap.remove key remaining) chunks <->
            entry ∈ chunks ∧ entry.1 ∉ keys := by
  induction keys with
  | nil =>
    intro chunks laid
    exact ⟨laid, by simp⟩
  | cons key rest ih =>
    intro chunks laid
    have later := ih _ (laid.remove key)
    refine ⟨later.1, ?_⟩
    intro entry
    rw [List.foldl_cons, later.2, OrderedMap.mem_remove, List.mem_cons, not_or, and_assoc]

theorem pruneChunks_spec (limit : Nat) (laid : Laid bound chunks) :
    Laid limit (pruneChunks limit chunks) ∧
      ∀ i b, Holds (pruneChunks limit chunks) i b <-> Holds chunks i b ∧ i < limit := by
  have removed := removeKeys_spec
    ((chunks.filter (fun entry => limit <= entry.1)).map Prod.fst) chunks laid
  unfold pruneChunks
  simp only
  generalize ((chunks.filter (fun entry => limit <= entry.1)).map Prod.fst).foldl
    (fun remaining key => OrderedMap.remove key remaining) chunks = kept at removed
  have members : ∀ entry, entry ∈ kept <-> entry ∈ chunks ∧ entry.1 < limit := by
    intro entry
    rw [removed.2]
    refine and_congr_right ?_
    intro listed
    rw [List.mem_map]
    constructor
    · intro absent
      by_contra above
      exact absent ⟨entry, List.mem_filter.mpr ⟨listed, by simpa using above⟩, rfl⟩
    · rintro below ⟨other, found, same⟩
      have above : limit <= other.1 := by simpa using (List.mem_filter.mp found).2
      omega
  have keptLaid := removed.1
  have reaching : ∀ {i b}, Holds kept i b -> i < limit -> Holds chunks i b ∧ i < limit := by
    rintro i b ⟨entry, listed, held⟩ below
    exact ⟨⟨entry, ((members entry).mp listed).1, held⟩, below⟩
  have covering : ∀ {i b}, Holds chunks i b -> i < limit -> Holds kept i b := by
    rintro i b ⟨entry, listed, le, atI⟩ below
    exact ⟨entry, (members entry).mpr ⟨listed, by omega⟩, le, atI⟩
  have shrunk : (∀ entry ∈ kept, entry.1 + entry.2.length <= limit) ->
      Laid limit kept ∧ ∀ i b, Holds kept i b <-> Holds chunks i b ∧ i < limit := by
    intro ends
    have limited : Laid limit kept :=
      ⟨keptLaid.sorted, keptLaid.nonempty, keptLaid.apart, ends⟩
    refine ⟨limited, ?_⟩
    intro i b
    exact ⟨fun held => reaching held (limited.holds_lt held), fun held => covering held.1 held.2⟩
  cases found : OrderedMap.lastBelow limit kept with
  | none =>
    refine shrunk ?_
    intro entry listed
    exact absurd ((members entry).mp listed).2 (OrderedMap.lastBelow_none found entry listed)
  | some last =>
    rcases last with ⟨start, chunk⟩
    have lastOne := keptLaid.sorted.lastBelow_some found
    have others : ∀ entry ∈ kept,
        entry = (start, chunk) ∨ entry.1 + entry.2.length <= start := by
      intro entry listed
      exact keptLaid.before_predecessor found listed ((members entry).mp listed).2
    simp only at lastOne ⊢
    split_ifs with reaches
    · have short := keptLaid.shorten lastOne.1 (show 0 < limit - start by omega)
      have limited : Laid limit
          (OrderedMap.insert start (chunk.take (limit - start)) kept) := by
        refine ⟨short.sorted, short.nonempty, short.apart, ?_⟩
        intro entry listed
        rcases OrderedMap.mem_insert.mp listed with same | ⟨older, different⟩
        · rw [same]
          simp only [List.length_take]
          omega
        · rcases others entry older with same | clear
          · rw [same] at different
            exact absurd rfl different
          · omega
      refine ⟨limited, ?_⟩
      intro i b
      constructor
      · intro held
        refine ⟨?_, limited.holds_lt held⟩
        rcases held with ⟨entry, listed, le, atI⟩
        rcases OrderedMap.mem_insert.mp listed with same | ⟨older, _⟩
        · subst same
          rw [List.getElem?_take] at atI
          split_ifs at atI with inside
          exact ⟨(start, chunk), ((members _).mp lastOne.1).1, le, atI⟩
        · exact ⟨entry, ((members entry).mp older).1, le, atI⟩
      rintro ⟨held, below⟩
      rcases covering held below with ⟨entry, listed, le, atI⟩
      rcases others entry listed with same | clear
      · subst same
        refine ⟨(start, chunk.take (limit - start)),
          OrderedMap.mem_insert.mpr (.inl rfl), le, ?_⟩
        simp only at le ⊢
        rw [List.getElem?_take, if_pos (by omega)]
        exact atI
      · have nonempty := keptLaid.nonempty entry listed
        exact ⟨entry, OrderedMap.mem_insert.mpr (.inr ⟨listed, by omega⟩), le, atI⟩
    · refine shrunk ?_
      intro entry listed
      rcases others entry listed with same | clear
      · rw [same]
        simp only
        omega
      · omega

end Prune

/-! ## Reading -/

section Read

variable {bound offset readEnd : Nat} {out : List UInt8}

variable {entry : Nat × List UInt8}

theorem length_copyOverlap
    (inRange : entry.1 + entry.2.length < wordLimit) (room : out.length = readEnd - offset) :
    (copyOverlap offset readEnd out entry).length = out.length := by
  unfold copyOverlap
  simp only [chunkEnd_of_lt inRange]
  split_ifs with overlaps
  · have copied : (slice entry.2 (max entry.1 offset - entry.1)
        (min (entry.1 + entry.2.length) readEnd - max entry.1 offset)).length =
        min (entry.1 + entry.2.length) readEnd - max entry.1 offset :=
      length_slice (by omega)
    exact length_overwrite (by omega)
  · rfl

theorem getElem?_copyOverlap
    (inRange : entry.1 + entry.2.length < wordLimit) (room : out.length = readEnd - offset)
    {j : Nat} (inside : j < out.length) :
    (copyOverlap offset readEnd out entry)[j]? =
      if entry.1 <= offset + j ∧ offset + j < entry.1 + entry.2.length then
        entry.2[offset + j - entry.1]?
      else out[j]? := by
  unfold copyOverlap
  simp only [chunkEnd_of_lt inRange]
  split_ifs with overlaps covers covers
  · have copied : (slice entry.2 (max entry.1 offset - entry.1)
        (min (entry.1 + entry.2.length) readEnd - max entry.1 offset)).length =
        min (entry.1 + entry.2.length) readEnd - max entry.1 offset :=
      length_slice (by omega)
    rw [getElem?_overwrite_inside (by omega) (by omega) (by omega), getElem?_slice,
      if_pos (by omega)]
    congr 1
    omega
  · have copied : (slice entry.2 (max entry.1 offset - entry.1)
        (min (entry.1 + entry.2.length) readEnd - max entry.1 offset)).length =
        min (entry.1 + entry.2.length) readEnd - max entry.1 offset :=
      length_slice (by omega)
    exact getElem?_overwrite_outside (by omega) (by omega)
  · omega
  · rfl

/-- The copying loop: a byte that every covering chunk agrees on is read, if
some chunk covers it or it was there before. -/
theorem copyOverlaps_spec (offset readEnd : Nat) (entries : Chunks) :
    ∀ out : List UInt8,
      (∀ entry ∈ entries, entry.1 + entry.2.length < wordLimit) ->
      out.length = readEnd - offset ->
      (entries.foldl (copyOverlap offset readEnd) out).length = out.length ∧
        ∀ j b, j < out.length ->
          (∀ entry ∈ entries,
            entry.1 <= offset + j -> offset + j < entry.1 + entry.2.length ->
            entry.2[offset + j - entry.1]? = some b) ->
          ((∃ entry ∈ entries, entry.1 <= offset + j ∧
            offset + j < entry.1 + entry.2.length) ∨ out[j]? = some b) ->
          (entries.foldl (copyOverlap offset readEnd) out)[j]? = some b := by
  induction entries with
  | nil =>
    intro out _ _
    refine ⟨rfl, ?_⟩
    rintro j b _ _ (⟨_, wrong, _⟩ | there)
    · cases wrong
    · exact there
  | cons entry rest ih =>
    intro out inRange room
    have same := length_copyOverlap (inRange entry (by simp)) room
    have later := ih (copyOverlap offset readEnd out entry)
      (fun other listed => inRange other (by simp [listed])) (by omega)
    rw [List.foldl_cons]
    refine ⟨later.1.trans same, ?_⟩
    intro j b inside agree given
    refine later.2 j b (by omega) (fun other listed => agree other (by simp [listed])) ?_
    rw [getElem?_copyOverlap (inRange entry (by simp)) room inside]
    by_cases covers : entry.1 <= offset + j ∧ offset + j < entry.1 + entry.2.length
    · rw [if_pos covers]
      exact .inr (agree entry (by simp) covers.1 covers.2)
    rw [if_neg covers]
    rcases given with ⟨other, listed, otherCovers⟩ | there
    · rcases List.mem_cons.mp listed with isEntry | isLater
      · rw [isEntry] at otherCovers
        exact absurd otherCovers covers
      · exact .inl ⟨other, isLater, otherCovers⟩
    · exact .inr there

variable {buffer : SparseBuffer}

theorem mem_visited (laid : Laid buffer.len buffer.chunks) (word : buffer.len < wordLimit)
    (listed : entry ∈ buffer.chunks) {i : Nat} (lower : offset <= i)
    (upper : i < readEnd) (starts : entry.1 <= i) (ends : i < entry.1 + entry.2.length) :
    entry ∈ buffer.visited offset readEnd := by
  unfold SparseBuffer.visited
  rw [List.mem_append]
  by_cases below : entry.1 < offset
  · refine .inl (List.mem_filter.mpr ⟨?_, ?_⟩)
    · cases found : OrderedMap.lastBelow offset buffer.chunks with
      | none => exact absurd below (OrderedMap.lastBelow_none found entry listed)
      | some pred =>
        have last := laid.sorted.lastBelow_some found
        rcases laid.before_predecessor found listed below with same | clear
        · rw [same]
          simp
        · omega
    · rw [laid.chunkEnd_eq word listed]
      simp only [decide_eq_true_eq]
      omega
  · exact .inr (OrderedMap.mem_between.mpr ⟨listed, by omega, by omega⟩)

theorem visited_listed (laid : Laid buffer.len buffer.chunks)
    (visited : entry ∈ buffer.visited offset readEnd) : entry ∈ buffer.chunks := by
  unfold SparseBuffer.visited at visited
  rcases List.mem_append.mp visited with isPred | inside
  · have found := (List.mem_filter.mp isPred).1
    rw [Option.mem_toList] at found
    exact (laid.sorted.lastBelow_some found).1
  · exact (OrderedMap.mem_between.mp inside).1

theorem readRange_spec (laid : Laid buffer.len buffer.chunks) (word : buffer.len < wordLimit)
    (offset length : Nat) :
    (buffer.readRange offset length).length = min length (buffer.len - offset) ∧
      ∀ j b, j < min length (buffer.len - offset) -> Reads buffer.chunks (offset + j) b ->
        (buffer.readRange offset length)[j]? = some b := by
  unfold SparseBuffer.readRange
  by_cases outside : buffer.len <= offset ∨ length = 0
  · rw [if_pos outside]
    refine ⟨by rw [List.length_nil]; omega, ?_⟩
    intro j b inside
    omega
  rw [if_neg outside]
  simp only
  have plain : saturatingAdd offset (min length (buffer.len - offset)) =
      offset + min length (buffer.len - offset) := by
    unfold saturatingAdd
    omega
  rw [plain]
  have zeros : (List.replicate (min length (buffer.len - offset)) (0 : UInt8)).length =
      min length (buffer.len - offset) := List.length_replicate
  have copied := copyOverlaps_spec offset (offset + min length (buffer.len - offset))
    (buffer.visited offset (offset + min length (buffer.len - offset))) _
    (fun entry visited =>
      lt_of_le_of_lt (laid.ends entry (visited_listed laid visited)) word)
    (zeros.trans (by omega))
  refine ⟨copied.1.trans zeros, ?_⟩
  intro j b inside reads
  refine copied.2 j b (by omega) ?_ ?_
  · intro entry visited starts ends
    have atJ := List.getElem?_eq_getElem (l := entry.2) (i := offset + j - entry.1) (by omega)
    have held : Holds buffer.chunks (offset + j) _ :=
      ⟨entry, visited_listed laid visited, starts, atJ⟩
    rcases reads with holdsB | ⟨_, empty⟩
    · rw [laid.holds_unique holdsB held]
      exact atJ
    · exact absurd held (empty _)
  · rcases reads with ⟨entry, listed, starts, atJ⟩ | ⟨zero, _⟩
    · have ends := lt_length_of_getElem? atJ
      exact .inl ⟨entry, mem_visited laid word listed (by omega) (by omega) starts (by omega),
        starts, by omega⟩
    · rw [zero]
      exact .inr (by rw [List.getElem?_replicate, if_pos inside])

end Read

end Vfs
end Carrick
